import ZynqRtlFlow.Driver.RegisterLayer
import ZynqRtlFlow.Program.Honors

/-!
# The operations of a call

The transport performs operations on the channels, the completions, the driver's own data
and user memory; all that touches a register is performed by the register layer.  Of a
tile of some length it prepares transfers of that length, submits what was prepared, and
records that length or none as received (`honors_body`).
-/

namespace Driver

open Prog

variable {π : Type}

/-- The operations that touch no register. -/
def KernelOp.NoRegister : KernelOp π → Prop
  | .readl _ | .writel _ _ => False
  | _ => True

theorem KernelOp.NoRegister.ne_writel {o : KernelOp π} (h : o.NoRegister) (word : BitVec 32)
    (reg : BitVec 8) :
  o ≠ .writel word reg
  := by
  rintro rfl
  cases h

theorem KernelOp.Observes.ne_writel {o : KernelOp π} (h : o.Observes) (word : BitVec 32)
    (reg : BitVec 8) :
  o ≠ .writel word reg
  := by
  rintro rfl
  cases h

/-- The operations that are given no length, word or address. -/
def KernelOp.Plain : KernelOp π → Prop
  | .declareCompletion | .issuePending _ | .waitForCompletion _ | .terminateSync _
  | .pollsLeft | .load => True
  | _ => False

/-- The operations of a register layer are all some `Q`. -/
structure AccelOps.Performs (ops : AccelOps π) (Q : KernelOp π → Prop) : Prop where
  accept : ops.accept.Performs Q
  start : ops.start.Performs Q
  finish : ∀ beats, (ops.finish beats).Performs Q
  result : ∀ dst count, (ops.result dst count).Performs Q

section Transport

variable (S : (o : KernelOp π) → o.Res → Prop) (Q : KernelOp π → Prop)

/-- What `Q` has to allow for the transport to carry a tile of `bytes` bytes. -/
structure Carried (bytes : ℕ) : Prop where
  plain : ∀ o : KernelOp π, o.Plain → Q o
  prep : ∀ chan done, Q (.prepSlaveSingle chan bytes done)
  submit : ∀ chan done desc, S (.prepSlaveSingle chan bytes done) (some desc) → Q (.submit chan desc)
  received : ∀ data n, S .load data → n = 0 ∨ n = bytes → Q (.store { data with received := n })

/-- What a register layer does for a tile is some `Q`. -/
structure AccelOps.Answers (ops : AccelOps π) : Prop where
  accept : ops.accept.Honors S Q fun _ => True
  start : ops.start.Honors S Q fun _ => True
  finish : ∀ beats, (ops.finish beats).Honors S Q fun _ => True

variable {S Q} {ops : AccelOps π} {bytes : ℕ} (hQ : Carried S Q bytes)

/-- The descriptor, if one was prepared, can be submitted to the channel. -/
def Prepared (Q : KernelOp π → Prop) (chan : Chan) (desc : Option Desc) : Prop :=
  ∀ d, desc = some d → Q (.submit chan d)

include hQ

theorem honors_plain {o : KernelOp π} (ho : o.Plain) :
  (perform o : Kernel π o.Res).Honors S Q fun _ => True
  := (honors_perform (hQ.plain o ho)).trivial

theorem honors_setReceived {n : ℕ} (hn : n = 0 ∨ n = bytes) :
  (setReceived n : Kernel π Unit).Honors S Q fun _ => True
  := by
  apply honors_bind (honors_perform (hQ.plain .load True.intro))
  intro data hdata
  apply (honors_perform (hQ.received data n hdata hn)).trivial

theorem honors_accelWait (chan : Chan) (done : ℕ) :
  (accelWait chan done : Kernel π _).Honors S Q fun _ => True
  := by
  apply honors_bind (honors_plain hQ (o := .waitForCompletion done) True.intro)
  intro ok _
  split
  · trivial
  · apply honors_bind (honors_plain hQ (o := .terminateSync chan) True.intro)
    intro _ _
    trivial

theorem honors_discard (e : Errno) :
  (discard ops e).Honors S Q fun _ => True
  := by
  have hterminate : (terminateRx ops).Honors S Q fun _ => True := by
    rw [terminateRx]
    split
    · apply honors_plain hQ (o := .terminateSync .rx) True.intro
    · trivial
  apply honors_bind hterminate
  intro _ _
  trivial

theorem honors_prepSlaveSingle (chan : Chan) (done : ℕ) :
  (prepSlaveSingle chan bytes done : Kernel π _).Honors S Q (Prepared Q chan)
  := by
  apply (honors_perform (hQ.prep chan done)).mono
  rintro desc hdesc d rfl
  apply hQ.submit chan done d hdesc

theorem honors_prepRx (returned : ℕ) :
  (prepRx ops bytes returned).Honors S Q (Prepared Q .rx)
  := by
  rw [prepRx]
  split
  · apply honors_prepSlaveSingle hQ
  · rintro d ⟨⟩

omit hQ in
theorem honors_submitRx {desc : Option Desc} (hdesc : Prepared Q .rx desc) :
  (submitRx desc : Kernel π _).Honors S Q fun _ => True
  := by
  cases desc with
  | none => trivial
  | some d => apply (honors_perform (hdesc d rfl)).trivial

theorem honors_submitTile (sent returned : ℕ) :
  (submitTile ops bytes sent returned).Honors S Q fun _ => True
  := by
  apply honors_bind (honors_prepRx hQ returned)
  intro rxDesc hrx
  split
  · trivial
  · apply honors_bind (honors_prepSlaveSingle hQ .tx sent)
    intro txDesc htx
    cases txDesc with
    | none => apply honors_discard hQ
    | some txDesc =>
        apply honors_bind (honors_submitRx hrx)
        intro failed _
        cases failed with
        | some e => apply honors_discard hQ
        | none =>
            apply honors_bind (honors_perform (htx txDesc rfl))
            intro failed _
            cases failed with
            | some e => apply honors_discard hQ
            | none => trivial

variable (hops : ops.Answers S Q)

include hops

theorem honors_transferTile (sent returned : ℕ) :
  (transferTile ops sent returned).Honors S Q fun _ => True
  := by
  have hissue : (issueRx ops).Honors S Q fun _ => True := by
    rw [issueRx]
    split
    · apply honors_plain hQ (o := .issuePending .rx) True.intro
    · trivial
  have hwait : (waitRx ops returned).Honors S Q fun _ => True := by
    rw [waitRx]
    split
    · apply honors_accelWait hQ
    · trivial
  apply honors_bind hops.start
  intro _ _
  apply honors_bind hissue
  intro _ _
  apply honors_bind (honors_plain hQ (o := .issuePending .tx) True.intro)
  intro _ _
  apply honors_bind (honors_accelWait hQ .tx sent)
  intro ret _
  cases ret with
  | error e => apply honors_discard hQ
  | ok => apply hwait

theorem honors_accelRunTile :
  (accelRunTile ops bytes).Honors S Q fun _ => True
  := by
  have hpublish : (publish ops bytes).Honors S Q fun _ => True := by
    rw [publish]
    split
    · apply honors_setReceived hQ (.inr rfl)
    · trivial
  apply honors_bind (honors_plain hQ (o := .declareCompletion) True.intro)
  intro sent _
  apply honors_bind (honors_plain hQ (o := .declareCompletion) True.intro)
  intro returned _
  apply honors_bind (honors_setReceived hQ (.inl rfl))
  intro _ _
  apply honors_bind hops.accept
  intro ret _
  cases ret with
  | error e => trivial
  | ok =>
      apply honors_bind (honors_submitTile hQ sent returned)
      intro ret _
      cases ret with
      | error e => trivial
      | ok =>
          apply honors_bind (honors_transferTile hQ hops sent returned)
          intro ret _
          cases ret with
          | error e => trivial
          | ok =>
              apply honors_bind (hops.finish _)
              intro ret _
              cases ret with
              | error e => trivial
              | ok =>
                  apply honors_bind hpublish
                  intro _ _
                  trivial

/-- A write of a tile with the lock held. -/
theorem honors_accelWrite {tile : List (BitVec 8)} (htile : tile.length = bytes)
    (hcopy : Q (.copyFromUser tile)) :
  (accelWrite ops tile).Honors S Q fun _ => True
  := by
  apply honors_bind (honors_perform hcopy)
  intro ok _
  split
  · trivial
  · rw [htile]
    apply honors_bind (honors_accelRunTile hQ hops)
    intro ret _
    cases ret with
    | error e => trivial
    | ok => trivial

end Transport

/-- What a file operation performs with the lock held. -/
theorem performs_body {ops : AccelOps π} {Q : KernelOp π → Prop}
    (hQ : ∀ o : KernelOp π, o.NoRegister → Q o) (hops : ops.Performs Q) (c : FileCall) :
  (c.body ops).Performs Q
  := by
  cases c with
  | write tile =>
      have hcarried : Carried (fun _ _ => True) Q tile.length := by
        constructor
        · intro o ho
          apply hQ o
          cases o <;> trivial
        · intro chan done
          apply hQ _ (by trivial)
        · intro chan done desc _
          apply hQ _ (by trivial)
        · intro data n _ _
          apply hQ _ (by trivial)
      have hanswers : ops.Answers (fun _ _ => True) Q := by
        constructor
        · apply honors_of_performs hops.accept
        · apply honors_of_performs hops.start
        · intro beats
          apply honors_of_performs (hops.finish beats)
      apply performs_of_honors
      apply honors_accelWrite hcarried hanswers rfl
      apply hQ _ (by trivial)
  | read dst count => apply hops.result

/-! ### The two layers -/

section Layers

/-- The Leaky ReLU's register layer observes, and enables the accelerator. -/
theorem Relu.performs_reluOps {Q : KernelOp Unit → Prop} (hQ : ∀ o : KernelOp Unit, o.Observes → Q o)
    (hstart : Q (.writel Relu.ctrlEn Relu.regCtrl)) :
  Relu.reluOps.Performs Q
  := by
  constructor
  · apply performs_refuseBusy (hQ _ (by trivial))
  · apply performs_perform hstart
  · intro beats
    apply performs_bind
    · apply performs_bind (performs_perform (hQ _ (by trivial)))
      intro polls
      apply performs_pollLoop (hQ _ (by trivial))
    · intro ret
      cases ret with
      | error e => apply performs_pure
      | ok =>
          apply performs_bind (performs_perform (hQ _ (by trivial)))
          intro count
          split
          · apply performs_pure
          · apply performs_pure
  · intro dst count
    apply (Relu.performs_reluResult dst count).mono hQ

/-- The sparse CNN's register layer observes, writes the driver's own data, and starts the
accelerator. -/
theorem SparseCnn.performs_sparseCnnOps {Q : KernelOp SparseCnn.Result → Prop}
    (hQ : ∀ o : KernelOp SparseCnn.Result, o.Observes → Q o) (hstore : ∀ data, Q (.store data))
    (hstart : Q (.writel (SparseCnn.ctrlEn ||| SparseCnn.ctrlStart) SparseCnn.regCtrl)) :
  SparseCnn.sparseCnnOps.Performs Q
  := by
  constructor
  · apply performs_refuseBusy (hQ _ (by trivial))
  · apply performs_perform hstart
  · intro beats
    apply performs_bind
    · apply performs_bind (performs_perform (hQ _ (by trivial)))
      intro polls
      apply performs_pollLoop (hQ _ (by trivial))
    · intro ret
      cases ret with
      | error e => apply performs_pure
      | ok =>
          apply performs_bind
          · apply performs_bind (performs_perform (hQ _ (by trivial)))
            intro acc
            apply performs_bind (performs_perform (hQ _ (by trivial)))
            intro data
            apply performs_bind (performs_perform (hstore _))
            intro _
            apply performs_bind (performs_perform (hQ _ (by trivial)))
            intro skip
            apply performs_bind (performs_perform (hQ _ (by trivial)))
            intro data
            apply performs_perform (hstore _)
          · intro _
            apply performs_pure
  · intro dst count
    apply (SparseCnn.performs_sparseCnnResult dst count).mono hQ

end Layers

end Driver
