import ZynqRtlFlow.Board.Serving
import ZynqRtlFlow.Board.Stranding

/-!
# Jammed accelerators

An accelerator whose tile was cut short waits for beats that do not come any more: the
register layer refuses every tile, so none is ever sent that could end the wait.  With the
lock free, a driver either can serve every tile, or serves none any more
(`ServesOrRefuses`).
-/

open AxiLite Driver

namespace Board

variable {A : Accelerator} {π : Type}

/-- While no beat moves the accelerator stays jammed, and the register layer refuses it. -/
structure Jams (A : Accelerator) (ops : AccelOps π) (Jam : A.State → Bus → Prop) : Prop where
  stays : Undisturbed A Jam
  refuses : ∀ (m : Mem π) (σ : State A π), At .empty .empty m Jam σ →
    (platform A π).wp ops.accept (fun ret => At .empty .empty m (Checked Jam (fun _ _ => False) ret)) σ

/-- The board with a jammed accelerator, between calls. -/
def Jammed (Jam : A.State → Bus → Prop) (σ : State A π) : Prop :=
  ∃ m, At .empty .empty m Jam σ

/-- The register layer looks for a busy accelerator, and finds one. -/
theorem wp_refuseBusy_of_busy {reg : BitVec 8} {mask : BitVec 32} {Jam : A.State → Bus → Prop}
    (hjam : Undisturbed A Jam) (hread : Reads A Jam reg fun v hw bus => Jam hw bus ∧ v &&& mask ≠ 0)
    {m : Mem π} {σ : State A π} (h : At .empty .empty m Jam σ) :
  (platform A π).wp (do
    let status ← readl reg
    if status &&& mask ≠ 0 then return .error .EBUSY
    return .ok ()) (fun ret => At .empty .empty m (Checked Jam (fun _ _ => False) ret)) σ
  := by
  apply wp_refuseBusy hjam (fun _ _ _ _ _ h => h) quiet_empty _ h
  intro hw bus e beat last h hready hvalid haddr hposted
  obtain ⟨hnext, hbusy⟩ := hread hw bus e beat last h hready hvalid haddr hposted
  use hnext
  intro hfree
  apply hfree hbusy

section Jams

variable {ops : AccelOps π} {Jam : A.State → Bus → Prop} (hjam : Jams A ops Jam)

include hjam

theorem stable_jammed :
  (platform A π).Stable (Jammed Jam)
  := by
  rintro e σ ⟨m, h⟩
  use m
  apply stable_at hjam.stays quiet_empty e σ h

theorem wp_runTile_jammed {m : Mem π} {σ : State A π} (h : At .empty .empty m Jam σ) (n : ℕ) :
  (platform A π).wp (runTile ops n) (fun exit τ => exit.Refused ∧ Jammed Jam τ) σ
  := by
  apply Platform.wp_seq (wp_declareCompletion hjam.stays quiet_empty h)
  rintro sent τ₁ ⟨-, hτ₁⟩
  apply Platform.wp_seq (wp_declareCompletion hjam.stays quiet_empty hτ₁)
  rintro returned τ₂ ⟨-, hτ₂⟩
  apply Platform.wp_seq (wp_setReceived hjam.stays quiet_empty hτ₂ 0)
  intro _ τ₃ hτ₃
  apply Platform.wp_seq (hjam.refuses _ τ₃ hτ₃)
  intro ret τ₄ hτ₄
  cases ret with
  | ok => cases hτ₄.holds
  | error e =>
      apply Platform.wp_ret
      · rintro e τ ⟨hexit, hτ⟩
        use hexit
        apply stable_jammed hjam e τ hτ
      · exact ⟨trivial, _, hτ₄⟩

/-- A write finds the accelerator jammed, and leaves it so. -/
theorem wp_writeTile_jammed {m : Mem π} {σ : State A π} (h : At .empty .empty m Jam σ)
    (bytes : List (BitVec 8)) :
  (platform A π).wp (writeTile ops bytes) (fun v τ =>
    (∀ exit ∈ FileCall.tileExit (.write bytes) v, exit.Refused) ∧ Jammed Jam τ) σ
  := by
  have hstable : ∀ v : WriteExit, (platform A π).Stable fun τ : State A π =>
      (∀ exit ∈ FileCall.tileExit (.write bytes) v, exit.Refused) ∧ Jammed Jam τ := by
    rintro v e τ ⟨hv, hτ⟩
    use hv
    apply stable_jammed hjam e τ hτ
  apply Platform.wp_seq (wp_copyFromUser hjam.stays quiet_empty h bytes)
  rintro ok τ ⟨buf, -, hτ⟩
  cases ok with
  | false =>
      apply Platform.wp_ret (hstable _)
      constructor
      · intro exit hexit
        cases hexit
      · exact ⟨_, hτ⟩
  | true =>
      apply Platform.wp_seq (wp_runTile_jammed hjam hτ bytes.length)
      rintro exit υ ⟨hexit, hυ⟩
      apply Platform.wp_ret (hstable _)
      constructor
      · rintro exit' ⟨⟩
        apply hexit
      · apply hυ

end Jams

/-! ### The dichotomy -/

section Calls

variable {Call : Type} {Val : Call → Type}

/-- The device that refuses every tile. -/
abbrev refusing (tileExit : (c : Call) → Val c → Option TileExit) : Device.{0, 0} Call Val where
  State := Unit
  init := ()
  step _ _ _ := ()
  Allows _ c v := ∀ exit ∈ tileExit c v, exit.Refused

/-- With the lock free, any tile that is not too long can be served next, or one got stuck
before and no tile is served any more. -/
def ServesOrRefuses (api : Api (KernelOp π) KernelOp.Res Call Val) (ops : AccelOps π)
    (write : List (BitVec 8) → Call) (tileExit : (c : Call) → Val c → Option TileExit)
    (x : Api.Config (platform A π) Val) : Prop :=
  (∀ bytes, accelWriteCheck ops bytes.length = none →
    ∃ (more : List (Api.Event (platform A π) Call)) (v : Val (write bytes)),
      (more.foldl api.next x).running = none
        ∧ (more.foldl api.next x).log = x.log ++ [⟨write bytes, v⟩]
        ∧ tileExit (write bytes) v = some .done)
  ∨ (∃ e ∈ x.log, ¬ Unstuck tileExit e.1 e.2)
    ∧ ∀ more : List (Api.Event (platform A π) Call), ∃ later,
      (more.foldl api.next x).log = x.log ++ later
        ∧ ∀ e ∈ later, ∀ exit ∈ tileExit e.1 e.2, exit.Refused

variable {api : Api (KernelOp π) KernelOp.Res Call Val} {ops : AccelOps π}
  {write : List (BitVec 8) → Call} {tileExit : (c : Call) → Val c → Option TileExit}
  {x : Api.Config (platform A π) Val}

/-- What a write can end as is served next. -/
theorem ServesOrRefuses.of_can (hfree : x.running = none)
    (hearly : ∀ bytes, accelWriteCheck ops bytes.length = none → api.early (write bytes) = none)
    (hcan : ∀ bytes, accelWriteCheck ops bytes.length = none →
      (platform A π).Can (api.body (write bytes)) (fun v _ => tileExit (write bytes) v = some .done)
        x.state) :
  ServesOrRefuses api ops write tileExit x
  := by
  left
  intro bytes hbytes
  obtain ⟨more, v, hrunning, hlog, hv⟩ :=
    Api.can_return (hearly bytes hbytes) hfree (hcan bytes hbytes)
  use more, v, hrunning, hlog

/-- A jammed accelerator refuses from now on. -/
theorem ServesOrRefuses.of_jammed {Jam : A.State → Bus → Prop} (hfree : x.running = none)
    (hwaiting : ∀ c ∈ x.waiting, api.early c = none)
    (hR : Api.Simulates (P := platform A π) api (refusing tileExit) fun _ => Jammed Jam)
    (hstuck : ¬ ∀ e ∈ x.log, Unstuck tileExit e.1 e.2) (hjammed : Jammed Jam x.state) :
  ServesOrRefuses api ops write tileExit x
  := by
  right
  constructor
  · by_contra hnone
    apply hstuck
    intro e he
    by_contra hunstuck
    apply hnone
    use e
  · intro more
    obtain ⟨later, hlog, hexplains⟩ := hR.explains_from hfree hwaiting hjammed more
    use later, hlog
    intro e he
    obtain ⟨past, rest, rfl⟩ := List.append_of_mem he
    apply hexplains past e rest rfl

end Calls

end Board
