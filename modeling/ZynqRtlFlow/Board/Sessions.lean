import ZynqRtlFlow.Board.Contract
import ZynqRtlFlow.Driver.Lifecycle
import ZynqRtlFlow.Program.Sessions

/-!
# Drivers come and go

A driver that probes an accelerator reads the ID first, and goes no further with one that
is not its own.  What it binds to is as the last driver left it: the registers keep their
values and the writes posted are still on their way; new are the channels, the buffers and
the driver's own data.
-/

open AxiLite Driver

namespace Driver

/-- `ACCEL_REG_ID`. -/
abbrev accelRegId : BitVec 8 := 0x00#8

/-- `ID_EXPECTED` of a register layer. -/
def LayerModule.idExpected : LayerModule → BitVec 32
  | .sparseCnn => 0x53500100#32
  | .relu => 0x524C0100#32

/-- What `accel_probe` looks for before it claims the channels. -/
def accelProbeId {π : Type} (l : LayerModule) : Kernel π Bool := do
  let id ← readl accelRegId
  return id == l.idExpected

theorem idExpected_inj {l l' : LayerModule} :
  (l.idExpected == l'.idExpected) = (l' == l)
  := by
  cases l <;> cases l' <;> decide

end Driver

namespace Board

variable {A : Accelerator} {π : Type}

/-- The board with a driver bound anew: the buffers are allocated, and its own data are as
it allocates them. -/
def rebind (priv : π) (buffers : (ℕ → BitVec 8) × (ℕ → BitVec 8)) (σ : State A π) : State A π :=
  { start σ.hw buffers.1 buffers.2 priv with bus := σ.bus }

/-- The drivers of the repository on an accelerator with the register layer `own`. -/
abbrev binding (A : Accelerator) (own : LayerModule) (priv : π) : Api.Binding (platform A π) where
  Prober := LayerModule
  own l := l == own
  probe := accelProbeId
  Fresh := (ℕ → BitVec 8) × (ℕ → BitVec 8)
  renew := rebind priv

/-- A driver probes the board, and has the rest of what it needs. -/
def probed {own : LayerModule} {priv : π} {Call : Type} (l : LayerModule) :
    List (Api.SessionEvent (binding A own priv) Call) :=
  [.probe l, .exec willing, .move (.cycle eager), .settle (some (fun _ => 0, fun _ => 0))]

/-- A board that keeps an assertion on the accelerator and the bus keeps it when a driver is
bound. -/
theorem at_rebind {t r : Channel} {m : Mem π} {I : A.State → Bus → Prop} {σ : State A π}
    (h : At t r m I σ) (priv : π) (buffers : (ℕ → BitVec 8) × (ℕ → BitVec 8)) :
  At .empty .empty ⟨buffers.1, buffers.2, ⟨0, priv⟩, [], 0⟩ I (rebind priv buffers σ)
  := ⟨rfl, rfl, rfl, h.holds⟩

theorem fresh_rebind (priv : π) (buffers : (ℕ → BitVec 8) × (ℕ → BitVec 8)) :
  Fresh (⟨buffers.1, buffers.2, ⟨0, priv⟩, [], 0⟩ : Mem π)
  := by
  intro c hc
  cases hc

/-- The probe of a driver finds its own accelerator, and changes nothing. -/
theorem wp_accelProbeId {own : LayerModule} {t r : Channel} {m : Mem π} {I : A.State → Bus → Prop}
    (hI : Undisturbed A I) (hq : Quiet t r)
    (hread : Reads A I accelRegId fun v hw bus => I hw bus ∧ v = own.idExpected)
    {σ : State A π} (h : At t r m I σ) (l : LayerModule) :
  (platform A π).wp (accelProbeId l) (fun found τ => found = (l == own) ∧ At t r m I τ) σ
  := by
  apply Platform.wp_seq (wp_readl hI hq h (fun _ => hI.and _) hread)
  rintro id τ ⟨htx, hrx, hmem, hholds, rfl⟩
  apply Platform.wp_mono (wp_pure_at hI hq ⟨htx, hrx, hmem, hholds⟩ _)
  rintro _ υ ⟨rfl, hυ⟩
  use idExpected_inj

end Board
