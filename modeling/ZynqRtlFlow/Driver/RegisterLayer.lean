import ZynqRtlFlow.Driver.Relu
import ZynqRtlFlow.Driver.SparseCnn

/-!
# Register layers

To a register layer `struct accel_device` is opaque: it reaches the registers, its own
data and user memory, and no DMA channel.  A register layer is an `AccelOps` whose
programs perform no operation on a channel; both layers of the repository are.
-/

namespace Driver

open Prog

variable {π : Type}

/-- The operations that touch neither a DMA channel nor a completion. -/
def KernelOp.NoDma : KernelOp π → Prop
  | .readl _ | .writel _ _ | .copyFromUser _ | .copyToUser _ _ | .copyRxToUser _ _
  | .pollsLeft | .load | .store _ => True
  | _ => False

/-- The operations that change nothing: they read a register, the driver's own data or
the time, or copy out what the driver has. -/
def KernelOp.Observes : KernelOp π → Prop
  | .readl _ | .copyToUser _ _ | .copyRxToUser _ _ | .pollsLeft | .load => True
  | _ => False

theorem KernelOp.Observes.noDma {o : KernelOp π} (h : o.Observes) :
  o.NoDma
  := by
  cases o <;> trivial

/-- The operations of a register layer. -/
structure RegisterLayer (π : Type) extends AccelOps π where
  accept_noDma : accept.Performs KernelOp.NoDma
  start_noDma : start.Performs KernelOp.NoDma
  finish_noDma : ∀ beats, (finish beats).Performs KernelOp.NoDma
  result_noDma : ∀ dst count, (result dst count).Performs KernelOp.NoDma

theorem performs_setReceived (bytes : ℕ) :
  (setReceived (π := π) bytes).Performs KernelOp.NoDma
  := by
  apply performs_bind (performs_perform trivial)
  intro data
  apply performs_perform trivial

/-- A loop that polls a register performs what a register read does. -/
theorem performs_pollLoop {Q : KernelOp π → Prop} {reg : BitVec 8} (hQ : Q (.readl reg))
    (cond : BitVec 32 → Bool) (polls : ℕ) :
  (pollLoop reg cond polls : Kernel π _).Performs Q
  := by
  induction polls with
  | zero =>
      apply performs_bind (performs_perform hQ)
      intro v
      split
      · apply performs_pure
      · apply performs_bind (performs_perform hQ)
        intro w
        split
        · apply performs_pure
        · apply performs_pure
  | succ polls ih =>
      apply performs_bind (performs_perform hQ)
      intro v
      split
      · apply performs_pure
      · apply ih

theorem performs_readlPollTimeout (reg : BitVec 8) (cond : BitVec 32 → Bool) :
  (readlPollTimeout reg cond : Kernel π _).Performs KernelOp.NoDma
  := by
  apply performs_bind (performs_perform trivial)
  intro polls
  apply performs_pollLoop trivial

/-- A check of a status register performs what a register read does. -/
theorem performs_refuseBusy {Q : KernelOp π → Prop} {reg : BitVec 8} (hQ : Q (.readl reg))
    (mask : BitVec 32) :
  (do
    let status ← readl reg
    if status &&& mask ≠ 0 then return .error .EBUSY
    return .ok () : Kernel π (Except Errno Unit)).Performs Q
  := by
  apply performs_bind (performs_perform hQ)
  intro v
  split
  · apply performs_pure
  · apply performs_pure

/-! ### The two layers -/

namespace Relu

theorem performs_reluFinish (beats : ℕ) :
  (reluFinish beats).Performs KernelOp.NoDma
  := by
  apply performs_bind (performs_readlPollTimeout _ _)
  intro ret
  cases ret with
  | error e => apply performs_pure
  | ok v =>
      apply performs_bind (performs_perform trivial)
      intro count
      split
      · apply performs_pure
      · apply performs_pure

theorem performs_reluResult (dst : UserPtr) (count : ℕ) :
  (reluResult dst count).Performs KernelOp.Observes
  := by
  apply performs_bind (performs_perform trivial)
  intro data
  split
  · apply performs_pure
  · split
    · apply performs_pure
    · apply performs_bind (performs_perform trivial)
      intro x
      cases x with
      | none => apply performs_pure
      | some bytes => apply performs_pure

/-- The register layer of the Leaky ReLU. -/
def layer : RegisterLayer Unit where
  toAccelOps := reluOps
  accept_noDma := performs_refuseBusy trivial _
  start_noDma := performs_perform trivial
  finish_noDma := performs_reluFinish
  result_noDma dst count := (performs_reluResult dst count).mono fun _ => KernelOp.Observes.noDma

end Relu

namespace SparseCnn

theorem performs_latchResult :
  latchResult.Performs KernelOp.NoDma
  := by
  apply performs_bind (performs_perform trivial)
  intro acc
  apply performs_bind (performs_perform trivial)
  intro data
  apply performs_bind (performs_perform trivial)
  intro _
  apply performs_bind (performs_perform trivial)
  intro skip
  apply performs_bind (performs_perform trivial)
  intro data
  apply performs_perform trivial

theorem performs_sparseCnnFinish (beats : ℕ) :
  (sparseCnnFinish beats).Performs KernelOp.NoDma
  := by
  apply performs_bind (performs_readlPollTimeout _ _)
  intro ret
  cases ret with
  | error e => apply performs_pure
  | ok v =>
      apply performs_bind performs_latchResult
      intro _
      apply performs_pure

theorem performs_sparseCnnResult (dst : UserPtr) (count : ℕ) :
  (sparseCnnResult dst count).Performs KernelOp.Observes
  := by
  apply performs_bind (performs_perform trivial)
  intro data
  split
  · apply performs_pure
  · apply performs_bind (performs_perform trivial)
    intro ok
    split
    · apply performs_pure
    · apply performs_pure

/-- The register layer of the sparse CNN. -/
def layer : RegisterLayer Result where
  toAccelOps := sparseCnnOps
  accept_noDma := performs_refuseBusy trivial _
  start_noDma := performs_perform trivial
  finish_noDma := performs_sparseCnnFinish
  result_noDma dst count :=
    (performs_sparseCnnResult dst count).mono fun _ => KernelOp.Observes.noDma

end SparseCnn

end Driver
