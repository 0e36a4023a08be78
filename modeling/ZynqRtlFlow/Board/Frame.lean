import ZynqRtlFlow.Board.System
import ZynqRtlFlow.Driver.Operations

/-!
# What an operation leaves alone

An operation of the driver that touches no register leaves the accelerator and the bus as
they are, and so does the report of a descriptor done; a register read is a clock cycle.
-/

open AxiLite Driver

namespace Board

variable {A : Accelerator} {π : Type}

theorem complete_hw_bus (c : Chan) (σ : State A π) :
  (complete c σ).hw = σ.hw ∧ (complete c σ).bus = σ.bus
  := by
  rw [complete]
  split
  · use rfl
  · split
    · use rfl
    · cases c with
      | tx => exact ⟨rfl, rfl⟩
      | rx => exact ⟨rfl, rfl⟩

theorem setChan_hw_bus (σ : State A π) (ch : Channel) (c : Chan) :
  (setChan σ ch c).hw = σ.hw ∧ (setChan σ ch c).bus = σ.bus
  := by
  cases c with
  | tx => exact ⟨rfl, rfl⟩
  | rx => exact ⟨rfl, rfl⟩

/-- An operation that touches no register. -/
theorem exec_hw_bus {o : KernelOp π} (ho : o.NoRegister) {c : Choice} {σ σ' : State A π}
    {x : o.Res} (hx : exec o c σ = some (x, σ')) :
  σ'.hw = σ.hw ∧ σ'.bus = σ.bus
  := by
  cases o with
  | readl reg => cases ho
  | writel word reg => cases ho
  | submit ch desc =>
      rw [exec] at hx
      split at hx
      · obtain ⟨-, rfl⟩ := Prod.mk.inj (Option.some.inj hx)
        apply setChan_hw_bus
      · obtain ⟨-, rfl⟩ := Prod.mk.inj (Option.some.inj hx)
        use rfl
  | issuePending ch =>
      obtain ⟨-, rfl⟩ := Prod.mk.inj (Option.some.inj hx)
      apply setChan_hw_bus
  | terminateSync ch =>
      obtain ⟨-, rfl⟩ := Prod.mk.inj (Option.some.inj hx)
      apply setChan_hw_bus
  | _ =>
      obtain ⟨-, rfl⟩ := Prod.mk.inj (Option.some.inj hx)
      exact ⟨rfl, rfl⟩

/-- A register read is a cycle. -/
theorem readRegister_some {reg : BitVec 8} {e : Env} {σ σ' : State A π} {v : BitVec 32}
    (hx : readRegister reg e σ = some (v, σ')) :
  (A.read σ.hw).arready = true ∧ σ' = cycle (readEnv e reg) σ ∧ v = (A.read σ'.hw).rdataQ
  := by
  rw [readRegister] at hx
  split at hx
  · rename_i hready
    obtain ⟨rfl, rfl⟩ := Prod.mk.inj (Option.some.inj hx)
    use hready, rfl
  · cases hx

/-- With the lock held it leaves no write posted. -/
theorem exec_readl {reg : BitVec 8} {c : Choice} {σ σ' : State A π} {v : BitVec 32}
    (hx : exec (.readl reg) c σ = some (v, σ')) :
  (A.read σ.hw).arready = true ∧ σ' = cycle (readEnv c.env reg) σ ∧ InOrder σ'
    ∧ v = (A.read σ'.hw).rdataQ
  := by
  obtain ⟨hread, horder⟩ := Option.filter_eq_some_iff.mp hx
  obtain ⟨hready, hcycle, hv⟩ := readRegister_some hread
  use hready, hcycle, of_decide_eq_true horder

/-- A read of a free channel behind which no write stays posted. -/
theorem exec_readl_of {reg : BitVec 8} {c : Choice} {σ : State A π}
    (hready : (A.read σ.hw).arready = true) (horder : InOrder (cycle (readEnv c.env reg) σ)) :
  exec (.readl reg) c σ
    = some ((A.read (cycle (readEnv c.env reg) σ).hw).rdataQ, cycle (readEnv c.env reg) σ)
  := by
  rw [exec, readRegister, if_pos hready]
  apply Option.filter_some_pos
  apply decide_eq_true horder

theorem exec_writel {reg : BitVec 8} {word : BitVec 32} {c : Choice} {σ σ' : State A π} {x : Unit}
    (hx : exec (.writel word reg) c σ = some (x, σ')) :
  σ' = { σ with bus := σ.bus.post reg word }
  := by
  obtain ⟨-, rfl⟩ := Prod.mk.inj (Option.some.inj hx)
  rfl

end Board
