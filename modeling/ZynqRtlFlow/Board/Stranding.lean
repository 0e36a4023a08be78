import ZynqRtlFlow.Program.Erase
import ZynqRtlFlow.Relu.Accounting
import ZynqRtlFlow.Relu.Calm
import ZynqRtlFlow.SparseCnn.Calm
import ZynqRtlFlow.SparseCnn.Status

/-!
# A failed submission never strands the accelerator

A call that leaves `accel_run_tile` before the transfers are issued leaves the accelerator
as it was, so no such call makes a later one find it busy: as long as every transfer that
was issued has completed and every tile finished, no tile is refused.
-/

open AxiLite Driver

namespace Board

/-! ### Calls that are not refused -/

section Patient

variable {Call : Type} {Val : Call → Type} (tileExit : (c : Call) → Val c → Option TileExit)

/-- No transfer that the call issued failed to complete, and its tile did not fail to
finish. -/
def Unstuck (c : Call) (v : Val c) : Prop :=
  ∀ exit ∈ tileExit c v, ¬ exit.Stuck

/-- The register layer did not refuse the call's tile. -/
def Accepted (c : Call) (v : Val c) : Prop :=
  ∀ exit ∈ tileExit c v, ¬ exit.Refused

/-- The device that accepts every tile until one gets stuck. -/
abbrev patient : Device.{0, 0} Call Val where
  State := Prop
  init := True
  step d c v := d ∧ Unstuck tileExit c v
  Allows d c v := d → Accepted tileExit c v

theorem patient_after (log : List (Σ c, Val c)) :
  (patient tileExit).after log ↔ ∀ e ∈ log, Unstuck tileExit e.1 e.2
  := by
  induction log using List.reverseRecOn with
  | nil => exact ⟨fun _ => List.forall_mem_nil _, fun _ => trivial⟩
  | append_singleton log e ih =>
      rw [Device.after_concat, List.forall_mem_append, List.forall_mem_singleton, ← ih]

variable {tileExit}

/-- A call that runs no tile is accepted, and changes nothing. -/
theorem patient_silent (d : Prop) {c : Call} {v : Val c} (h : tileExit c v = none) :
  (patient tileExit).Allows d c v ∧ (patient tileExit).step d c v = d
  := by
  have hnone : ∀ exit, exit ∉ tileExit c v := by
    intro exit hexit
    cases h.symm.trans hexit
  constructor
  · intro _ exit hexit
    cases hnone exit hexit
  · apply propext (and_iff_left _)
    intro exit hexit
    cases hnone exit hexit

end Patient

/-- What failed submissions leave in a configuration: with the lock free, a write that
returns before its transfers are issued posts no register write and moves no beat; as long
as no tile has got stuck, it leaves what `Kept` says as it was; and every call was accepted
unless a tile had got stuck before. -/
structure Unstranded {A : Accelerator} {π : Type} {Call : Type} {Val : Call → Type}
    (ops : AccelOps π) (tileExit : (c : Call) → Val c → Option TileExit)
    (Kept : State A π → State A π → Prop) (x : Api.Config (platform A π) Val) : Prop where
  untouched : x.running = none → ∀ bytes v τ,
    (platform A π).Runs (writeTile ops bytes) x.state v τ → v.BeforeIssue → Untouched x.state τ
  kept : x.running = none → (∀ e ∈ x.log, Unstuck tileExit e.1 e.2) → ∀ bytes v τ,
    (platform A π).Runs (writeTile ops bytes) x.state v τ → v.BeforeIssue → Kept x.state τ
  accepted : ∀ past e rest, x.log = past ++ e :: rest →
    (∀ e ∈ past, Unstuck tileExit e.1 e.2) → Accepted tileExit e.1 e.2

section Unstranded

variable {A : Accelerator} {π : Type} {Call : Type} {Val : Call → Type} {ops : AccelOps π}
  {tileExit : (c : Call) → Val c → Option TileExit} {Kept : State A π → State A π → Prop}
  {api : Api (KernelOp π) KernelOp.Res Call Val} {R : Prop → State A π → Prop}

/-- What the platform of the patient device guarantees of a schedule. -/
theorem unstranded_schedule (haccept : ops.accept.Performs KernelOp.Observes)
    (hR : Api.Simulates (P := platform A π) api (patient tileExit) R)
    (hempty : ∀ d σ, R d σ → σ.tx = .empty ∧ σ.rx = .empty)
    (hkept : ∀ σ τ, R True σ → Untouched σ τ → Kept σ τ) {σ : State A π} (hσ : R True σ)
    (es : List (Api.Event (platform A π) Call)) :
  Unstranded ops tileExit Kept (api.schedule σ es)
  := by
  have hx := hR.invariant hσ es
  have hserves : (api.schedule σ es).running = none →
      R ((patient tileExit).after (api.schedule σ es).log) (api.schedule σ es).state := by
    intro hnone
    have hserves := hx.serves
    rw [hnone] at hserves
    apply hserves
  have huntouched : (api.schedule σ es).running = none → ∀ bytes v τ,
      (platform A π).Runs (writeTile ops bytes) (api.schedule σ es).state v τ →
      v.BeforeIssue → Untouched (api.schedule σ es).state τ := by
    intro hnone bytes v τ hrun hv
    obtain ⟨htx, hrx⟩ := hempty _ _ (hserves hnone)
    apply untouched_of_runs haccept htx hrx hrun hv
  constructor
  · apply huntouched
  · intro hnone hlog bytes v τ hrun hv
    apply hkept
    · have hafter := hserves hnone
      rw [eq_true ((patient_after tileExit _).mpr hlog)] at hafter
      apply hafter
    · apply huntouched hnone bytes v τ hrun hv
  · intro past e rest hlog hpast
    apply hx.explains past e rest hlog
    apply (patient_after tileExit past).mpr hpast

end Unstranded

end Board

/-! ### The Leaky ReLU -/

namespace ReluAxi

open Board
open Driver.Relu (reluOps)

/-- The Leaky ReLU between two calls, calm if `d` says so. -/
def Waiting (d : Prop) (σ : Board.State accelerator Unit) : Prop :=
  ∃ slope, Between d (Rest slope) (Calm slope) σ

theorem stable_waiting (d : Prop) :
  (platform accelerator Unit).Stable (Waiting d)
  := by
  rintro e σ ⟨slope, hσ⟩
  use slope
  apply stable_between (undisturbed_rest slope) (undisturbed_calm slope) e σ hσ

theorem simulates_patient :
  Api.Simulates (P := platform accelerator Unit) Driver.Relu.exitApi
    (patient Driver.Relu.Call.tileExit) Waiting
  := by
  constructor
  · apply stable_waiting
  · intro d c v hv
    obtain (bytes | ⟨dst, count⟩) | e | word := c
    · obtain ⟨e, -, rfl⟩ := Option.map_eq_some_iff.mp hv
      apply patient_silent d rfl
    · cases hv
    · apply patient_silent d rfl
    · apply patient_silent d rfl
  · intro d c v hv
    obtain (bytes | ⟨dst, count⟩) | slope := c
    · obtain rfl := Option.some.inj hv
      apply patient_silent d rfl
    · apply patient_silent d rfl
    · cases hv
  · rintro d c σ hearly ⟨slope, m, hfresh, hσ⟩
    have hI := undisturbed_calmIf (d := d) (undisturbed_rest slope) (undisturbed_calm slope)
    have hreturn : ∀ (c : Driver.Relu.Call) (v : c.Exit) τ, c.tileExit v = none → Waiting d τ →
        Api.Answered (P := platform accelerator Unit) (patient Driver.Relu.Call.tileExit)
          Waiting d c v τ := by
      intro c v τ hv hτ
      obtain ⟨hallows, hstep⟩ := patient_silent d hv
      use hallows
      rw [hstep]
      apply hτ
    obtain (bytes | ⟨dst, count⟩) | e | word := c
    · obtain ⟨hpos, -, -⟩ := of_accelWriteCheck _ (Option.map_eq_none_iff.mp hearly)
      have hwrite := (calmContract slope (fill m.txBuf bytes) bytes.length hpos).wp_writeTile
        hfresh hσ
      apply Platform.wp_mono hwrite
      rintro v τ ⟨hallows, hτ⟩
      use hallows, slope
      apply hτ
    · apply Platform.wp_mono
        (wp_observes hI quiet_empty (Driver.Relu.performs_reluResult dst count) hσ)
      intro v τ hτ
      apply hreturn (.file (.read dst count)) v τ rfl
      use slope, m
    · cases hearly
    · have hpost : ∀ s b, CalmIf (A := accelerator) d (Rest slope) (Calm slope) s b →
          CalmIf (A := accelerator) d (Rest (word.setWidth 8)) (Calm (word.setWidth 8)) s
            (b.post Driver.Relu.regSlope word) := by
        intro s b h
        use h.1.post_slope word
        intro hd
        use h.1.post_slope word
        apply (h.2 hd).busy
      have hwrite := wp_writel hI quiet_empty hσ (undisturbed_calmIf (undisturbed_rest _)
        (undisturbed_calm _)) hpost
      apply Platform.wp_seq hwrite
      intro _ τ hτ
      apply Platform.wp_ret
      · rintro e τ ⟨hallows, hτ⟩
        use hallows
        apply stable_waiting _ e τ hτ
      · apply hreturn (.slopeStore (.ok word)) (.ok ()) τ rfl
        use word.setWidth 8, m

/-- No tile is under way and no half of a register write has been accepted. -/
structure IdleAtProbe (s : State) : Prop where
  awPend : s.write.awPend = false
  wPend : s.write.wPend = false
  busy : s.busyQ = false
  free : s.outValidQ = false
  beats : s.beatsQ = 0

theorem waiting_start {s : State} (h : IdleAtProbe s) (txBuf rxBuf : ℕ → BitVec 8) :
  Waiting True (start (A := accelerator) s txBuf rxBuf ())
  := by
  have hrest : Rest s.slopeReg s .empty := by
    use Bus.coherent_empty h.awPend h.wPend, rfl
    intro _
    use h.free, h.beats
  use s.slopeReg, ⟨txBuf, rxBuf, ⟨0, ()⟩, [], 0⟩
  constructor
  · intro c hc
    cases hc
  · use rfl, rfl, rfl, hrest
    intro _
    use hrest, h.busy

/-- On the Leaky ReLU, idle at probe, a failed submission strands nothing. -/
theorem unstranded {s : State} (h : IdleAtProbe s) (txBuf rxBuf : ℕ → BitVec 8)
    (es : List (Api.Event (platform accelerator Unit) Driver.Relu.Call)) :
  Unstranded reluOps Driver.Relu.Call.tileExit LeftAlone
    (Driver.Relu.exitApi.schedule (start (A := accelerator) s txBuf rxBuf ()) es)
  := by
  apply unstranded_schedule (Driver.performs_refuseBusy trivial _) simulates_patient
  · rintro d σ ⟨slope, m, -, hσ⟩
    use hσ.tx, hσ.rx
  · rintro σ τ ⟨slope, m, -, hσ⟩ huntouched
    apply kept_of_untouched huntouched hσ.holds.1.coherent
  · apply waiting_start h

end ReluAxi

/-! ### The sparse CNN -/

namespace SparseCnnAxi

open Board
open Driver.SparseCnn (Result sparseCnnOps)

theorem simulates_patient :
  Api.Simulates (P := platform accelerator Result) Driver.SparseCnn.exitApi
    (patient FileCall.tileExit) fun d => Between d Clean Ready
  := by
  constructor
  · intro d
    apply stable_between undisturbed_clean undisturbed_ready
  · intro d c v hv
    obtain bytes | ⟨dst, count⟩ := c
    · obtain ⟨e, -, rfl⟩ := Option.map_eq_some_iff.mp hv
      apply patient_silent d rfl
    · cases hv
  · intro d c v hv
    obtain bytes | ⟨dst, count⟩ := c
    · obtain rfl := Option.some.inj hv
      apply patient_silent d rfl
    · apply patient_silent d rfl
  · rintro d c σ hearly ⟨m, hfresh, hσ⟩
    have hI := undisturbed_calmIf (d := d) undisturbed_clean undisturbed_ready
    obtain bytes | ⟨dst, count⟩ := c
    · obtain ⟨hpos, hmod, -⟩ := of_accelWriteCheck _ (Option.map_eq_none_iff.mp hearly)
      change bytes.length % 2 = 0 at hmod
      have hN : bytes.length = bytes.length / 2 * 2 := by omega
      have hhalf : 0 < bytes.length / 2 := by omega
      apply (calmContract (fill m.txBuf bytes) hN hhalf).wp_writeTile hfresh hσ
    · apply Platform.wp_mono
        (wp_observes hI quiet_empty (Driver.SparseCnn.performs_sparseCnnResult dst count) hσ)
      intro v τ hτ
      obtain ⟨hallows, hstep⟩ : (patient FileCall.tileExit).Allows d (.read dst count) v
          ∧ (patient FileCall.tileExit).step d (.read dst count) v = d := patient_silent d rfl
      use hallows
      rw [hstep]
      use m

/-- No tile is in flight, neither pulse is up, and no half of a register write has been
accepted. -/
structure IdleAtProbe (s : State) : Prop where
  awPend : s.write.awPend = false
  wPend : s.write.wPend = false
  state : s.state = .idle
  start : startPulse s = false
  clear : clearPulse s = false

theorem between_start {s : State} (h : IdleAtProbe s) (txBuf rxBuf : ℕ → BitVec 8) (priv : Result) :
  Between True Clean Ready (start (A := accelerator) s txBuf rxBuf priv)
  := by
  have hclean : Clean s .empty := by
    constructor
    · apply Bus.coherent_empty h.awPend h.wPend
    · apply List.forall_mem_nil
    · apply h.clear
  use ⟨txBuf, rxBuf, ⟨0, priv⟩, [], 0⟩
  constructor
  · intro c hc
    cases hc
  · use rfl, rfl, rfl, hclean
    intro _
    use hclean, rfl, h.state, h.start

/-- On the sparse CNN, idle at probe, a failed submission strands nothing. -/
theorem unstranded {s : State} (h : IdleAtProbe s) (txBuf rxBuf : ℕ → BitVec 8) (priv : Result)
    (es : List (Api.Event (platform accelerator Result) FileCall)) :
  Unstranded sparseCnnOps FileCall.tileExit LeftAlone
    (Driver.SparseCnn.exitApi.schedule (start (A := accelerator) s txBuf rxBuf priv) es)
  := by
  apply unstranded_schedule (Driver.performs_refuseBusy trivial _) simulates_patient
  · rintro d σ ⟨m, -, hσ⟩
    use hσ.tx, hσ.rx
  · rintro σ τ ⟨m, -, hσ⟩ huntouched
    apply kept_of_untouched huntouched (hσ.holds.2 trivial)
  · apply between_start h

end SparseCnnAxi

/-! ### Either accelerator -/

namespace Board

/-- Whatever is called on either accelerator, idle at probe, and whatever fails: the
driver goes through the same schedule whether or not it says where its calls end, and a
call that fails before its transfers are issued strands nothing. -/
theorem failed_submission_never_strands :
  (∀ s, ReluAxi.IdleAtProbe s → ∀ txBuf rxBuf es,
    Driver.Relu.api.schedule (start (A := ReluAxi.accelerator) s txBuf rxBuf ()) es
        = (Driver.Relu.exitApi.schedule (start (A := ReluAxi.accelerator) s txBuf rxBuf ()) es).erase
          Driver.Relu.Call.ret
      ∧ Unstranded Driver.Relu.reluOps Driver.Relu.Call.tileExit ReluAxi.LeftAlone
        (Driver.Relu.exitApi.schedule (start (A := ReluAxi.accelerator) s txBuf rxBuf ()) es))
  ∧ ∀ s, SparseCnnAxi.IdleAtProbe s → ∀ txBuf rxBuf priv es,
    Driver.SparseCnn.api.schedule (start (A := SparseCnnAxi.accelerator) s txBuf rxBuf priv) es
        = (Driver.SparseCnn.exitApi.schedule
            (start (A := SparseCnnAxi.accelerator) s txBuf rxBuf priv) es).erase FileCall.ret
      ∧ Unstranded Driver.SparseCnn.sparseCnnOps FileCall.tileExit SparseCnnAxi.LeftAlone
        (Driver.SparseCnn.exitApi.schedule
          (start (A := SparseCnnAxi.accelerator) s txBuf rxBuf priv) es)
  := by
  constructor
  · intro s h txBuf rxBuf es
    use Driver.Relu.erases_exitApi.schedule_eq _ es
    apply ReluAxi.unstranded h
  · intro s h txBuf rxBuf priv es
    use Driver.SparseCnn.erases_exitApi.schedule_eq _ es
    apply SparseCnnAxi.unstranded h

/-- A call whose first transfer cannot be prepared, and then the same call on a board where
nothing fails. -/
def failedFirst {A : Accelerator} {π : Type} {Call : Type} (c : Call) :
    List (Api.Event (platform A π) Call) :=
  let failing : Choice :=
    ⟨⟨⟨0, true, 0, 0, true, true, 0, false, true⟩, true, true⟩, false, Errno.EIO, fun _ => 0, 0⟩
  promptly c 6 ++ [.exec failing, .release] ++ promptly c 40

/-- A tile on each accelerator, out of reset, that fails once before it is submitted. -/
theorem failed_first_strands_nothing :
  Unstranded Driver.Relu.reluOps Driver.Relu.Call.tileExit ReluAxi.LeftAlone
      (Driver.Relu.exitApi.schedule (start (A := ReluAxi.accelerator)
        (ReluAxi.reset ReluAxi.zero (ReluAxi.tileCycle false)) (fun _ => 0) (fun _ => 0) ())
        (failedFirst (.file (.write [3, 5]))))
    ∧ Unstranded Driver.SparseCnn.sparseCnnOps FileCall.tileExit SparseCnnAxi.LeftAlone
      (Driver.SparseCnn.exitApi.schedule (start (A := SparseCnnAxi.accelerator)
        (SparseCnnAxi.reset SparseCnnAxi.zero SparseCnnAxi.quiet) (fun _ => 0) (fun _ => 0) ⟨0, 0⟩)
        (failedFirst (.write [3, 5])))
  := by
  constructor
  · apply (failed_submission_never_strands.1 _ ⟨rfl, rfl, rfl, rfl, rfl⟩ _ _ _).2
  · apply (failed_submission_never_strands.2 _ ⟨rfl, rfl, rfl, rfl, rfl⟩ _ _ _ _).2

/-- The first call fails to be submitted, and the second is done. -/
example :
  (Driver.SparseCnn.exitApi.schedule (start (A := SparseCnnAxi.accelerator)
      (SparseCnnAxi.reset SparseCnnAxi.zero SparseCnnAxi.quiet) (fun _ => 0) (fun _ => 0) ⟨0, 0⟩)
      (failedFirst (.write [3, 5]))).log.map (fun e => e.1.tileExit e.2)
    = [some (.notSubmitted Errno.EIO), some .done]
  := by
  decide +kernel

end Board
