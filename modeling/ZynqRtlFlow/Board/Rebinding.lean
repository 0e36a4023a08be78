import ZynqRtlFlow.Board.Service
import ZynqRtlFlow.Relu.Sessions
import ZynqRtlFlow.SparseCnn.Sessions

/-!
# Unbinding a driver frees no accelerator

A tile that got stuck leaves the accelerator waiting for beats that do not come, and no
driver bound later sends them or resets it: whatever is bound and unbound, and by whom the
accelerator is probed, in a session with the lock free either every tile can be served next,
or a tile of some session got stuck and none is served any more.
-/

open AxiLite Driver

namespace Board

variable {A : Accelerator} {π : Type} {Call : Type} {Val : Call → Type} {ops : AccelOps π}
  {own : LayerModule} {priv : π} {tileExit : (c : Call) → Val c → Option TileExit}
  {api : Api (KernelOp π) KernelOp.Res Call Val} {write : List (BitVec 8) → Call}

/-- With the lock of the session free, any tile that is not too long can be served next, or
one got stuck before, in this session or another, and no tile is served any more, in this
session or another. -/
def SessionsServeOrRefuse (api : Api (KernelOp π) KernelOp.Res Call Val) (ops : AccelOps π)
    (write : List (BitVec 8) → Call) (tileExit : (c : Call) → Val c → Option TileExit)
    (x : Api.Sessions (binding A own priv) Val) (y : Api.Config (platform A π) Val) : Prop :=
  (∀ bytes, accelWriteCheck ops bytes.length = none →
    ∃ (more : List (Api.SessionEvent (binding A own priv) Call))
      (z : Api.Config (platform A π) Val) (v : Val (write bytes)),
      more.foldl (Api.Sessions.next api) x = { x with phase := .bound z } ∧ z.running = none
        ∧ z.log = y.log ++ [⟨write bytes, v⟩] ∧ tileExit (write bytes) v = some .done)
  ∨ (∃ e ∈ x.logs.flatten, ¬ Unstuck tileExit e.1 e.2)
    ∧ ∀ more : List (Api.SessionEvent (binding A own priv) Call), ∃ later,
      (more.foldl (Api.Sessions.next api) x).logs.flatten = x.logs.flatten ++ later
        ∧ ∀ e ∈ later, ∀ exit ∈ tileExit e.1 e.2, exit.Refused

/-- A jammed accelerator stays so, whoever probes it and is bound to it. -/
theorem binds_jammed {Jam : A.State → Bus → Prop} (hjam : Undisturbed A Jam)
    (hread : Reads A Jam accelRegId fun v hw bus => Jam hw bus ∧ v = own.idExpected) :
  Api.Binds (P := platform A π) (refusing tileExit) (fun _ => Jammed Jam) id (binding A own priv)
  := by
  constructor
  · rintro d l σ ⟨m, hσ⟩
    apply Platform.wp_mono (wp_accelProbeId hjam quiet_empty hread hσ l)
    rintro found τ ⟨hfound, hτ⟩
    use hfound
    exact ⟨m, hτ⟩
  · rintro d buffers σ ⟨m, hσ⟩
    exact ⟨_, at_rebind hσ priv buffers⟩

/-- A probe leaves the accelerator as it is between calls, with its control registers. -/
theorem wp_probe_between {d : Prop} {Rest Calm Control : A.State → Bus → Prop}
    (hI : Undisturbed A (CalmIf d Rest Calm))
    (hread : Reads A (CalmIf d Rest Calm) accelRegId fun v hw bus =>
      CalmIf d Rest Calm hw bus ∧ v = own.idExpected)
    (hcontrol : Controls A Control) {σ : State A π} (h : Between d Rest Calm σ)
    (hctrl : Under Control σ) (l : LayerModule) :
  (platform A π).wp (accelProbeId l) (fun found τ =>
    found = (l == own) ∧ Between d Rest Calm τ ∧ Under Control τ) σ
  := by
  obtain ⟨m, hfresh, hσ⟩ := h
  have hkeeps : (accelProbeId l : Kernel π Bool).Performs (Keeps Control) := by
    apply Prog.performs_bind (Prog.performs_perform trivial)
    intro id
    trivial
  have hunder := Platform.wp_of_performs (stable_under hcontrol) (upholds_under hcontrol) hkeeps hctrl
  apply Platform.wp_mono (Platform.wp_and (wp_accelProbeId hI quiet_empty hread hσ l) hunder)
  rintro found τ ⟨⟨hfound, hτ⟩, hctrl'⟩
  exact ⟨hfound, ⟨m, hfresh, hτ⟩, hctrl'⟩

theorem between_rebind {d : Prop} {Rest Calm : A.State → Bus → Prop} {σ : State A π}
    (h : Between d Rest Calm σ) (priv : π) (buffers : (ℕ → BitVec 8) × (ℕ → BitVec 8)) :
  Between d Rest Calm (rebind priv buffers σ)
  := by
  obtain ⟨m, -, hσ⟩ := h
  exact ⟨_, fresh_rebind priv buffers, at_rebind hσ priv buffers⟩

/-- In sessions in which the accelerator can serve every tile until it is jammed, the driver
serves every tile or none any more. -/
theorem sessions_serve_or_refuse {x : Api.Sessions (binding A own priv) Val}
    {y : Api.Config (platform A π) Val} {R : Prop → State A π → Prop} {Jam : A.State → Bus → Prop}
    (hx : x.Invariant api (patient tileExit) R id) (hy : x.phase = .bound y)
    (hfree : y.running = none)
    (hearly : ∀ bytes, accelWriteCheck ops bytes.length = none → api.early (write bytes) = none)
    (hserves : ∀ d σ, R d σ → (∀ bytes, accelWriteCheck ops bytes.length = none →
      (platform A π).Can (api.body (write bytes)) (fun v _ => tileExit (write bytes) v = some .done) σ)
      ∨ ¬ d ∧ Jammed Jam σ)
    (hR : Api.Simulates (P := platform A π) api (refusing tileExit) fun _ => Jammed Jam)
    (hB : Api.Binds (P := platform A π) (refusing tileExit) (fun _ => Jammed Jam) id
      (binding A own priv)) :
  SessionsServeOrRefuse api ops write tileExit x y
  := by
  have hfollows := hx.follows
  rw [hy] at hfollows
  have hinvariant : Api.Invariant api ((patient tileExit).startingAt ((patient tileExit).kept id x.past))
      R y := hfollows
  have hat := hinvariant.serves
  rw [hfree, Device.after_kept_id] at hat
  obtain hcan | ⟨hstuck, hjammed⟩ := hserves _ _ hat
  · left
    intro bytes hbytes
    obtain ⟨es, v, hrunning, hlog, hv⟩ :=
      Api.can_return (hearly bytes hbytes) hfree (hcan bytes hbytes)
    use es.map .call, es.foldl api.next y, v, Api.foldl_calls hy es
  · right
    have hlogs : x.logs.flatten = x.past.flatten ++ y.log := by
      simp [Api.Sessions.logs, hy, Api.Phase.logs]
    constructor
    · by_contra hnone
      apply hstuck
      rw [patient_after]
      intro e he
      by_contra hunstuck
      apply hnone
      use e
      rw [hlogs]
      use he
    · intro more
      apply hR.later_of_steady hB (fun _ _ _ => rfl) more
      rw [hy]
      use Device.explains_nil, hinvariant.waiting
      change Api.Serves _ _ _ _ y.running
      rw [hfree]
      apply hjammed

end Board

namespace ReluAxi

open AxiLite Driver Board

theorem binds_enabled :
  Api.Binds (P := platform accelerator Unit) (patient Driver.Relu.Call.tileExit)
    (fun d σ => Waiting d σ ∧ Under Enabled σ) id (binding accelerator .relu ())
  := by
  constructor
  · rintro d l σ ⟨⟨slope, hσ⟩, hctrl⟩
    have hI : Undisturbed accelerator (CalmIf d (Rest slope) (Calm slope)) :=
      undisturbed_calmIf (undisturbed_rest slope) (undisturbed_calm slope)
    apply Platform.wp_mono (wp_probe_between hI (reads_id hI) controls_enabled hσ hctrl l)
    rintro found τ ⟨hfound, hτ, hctrl'⟩
    exact ⟨hfound, ⟨slope, hτ⟩, hctrl'⟩
  · rintro d buffers σ ⟨⟨slope, hσ⟩, hctrl⟩
    exact ⟨⟨slope, between_rebind hσ () buffers⟩, hctrl⟩

theorem sessions_serve_or_refuse {σ : Board.State accelerator Unit} (hwaiting : Waiting True σ)
    (henabled : Under Enabled σ)
    (es : List (Api.SessionEvent (binding accelerator .relu ()) Driver.Relu.Call))
    {y : Api.Config (platform accelerator Unit) Driver.Relu.Call.Exit}
    (hy : (Driver.Relu.exitApi.sessions σ es).phase = .bound y) (hfree : y.running = none) :
  SessionsServeOrRefuse Driver.Relu.exitApi Driver.Relu.reluOps (fun bytes => .file (.write bytes))
    Driver.Relu.Call.tileExit (Driver.Relu.exitApi.sessions σ es) y
  := by
  apply Board.sessions_serve_or_refuse
    (Api.sessions_invariant simulates_enabled binds_enabled ⟨hwaiting, henabled⟩ es) hy hfree
  · intro bytes hbytes
    apply Option.map_eq_none_iff.mpr hbytes
  · intro d τ hτ
    apply serves_or_jammed hτ
  · apply simulates_refusing
  · apply binds_jammed undisturbed_busy (reads_id undisturbed_busy)

end ReluAxi

namespace SparseCnnAxi

open AxiLite Driver Board

theorem binds_enabled :
  Api.Binds (P := platform accelerator Driver.SparseCnn.Result) (patient FileCall.tileExit)
    (fun d σ => Between d Clean Ready σ ∧ Under Enabled σ) id (binding accelerator .sparseCnn ⟨0, 0⟩)
  := by
  constructor
  · rintro d l σ ⟨hσ, hctrl⟩
    have hI : Undisturbed accelerator (CalmIf d Clean Ready) :=
      undisturbed_calmIf undisturbed_clean undisturbed_ready
    apply wp_probe_between hI (reads_id hI) controls_enabled hσ hctrl l
  · rintro d buffers σ ⟨hσ, hctrl⟩
    exact ⟨between_rebind hσ ⟨0, 0⟩ buffers, hctrl⟩

theorem sessions_serve_or_refuse {σ : Board.State accelerator Driver.SparseCnn.Result}
    (hbetween : Between True Clean Ready σ) (henabled : Under Enabled σ)
    (es : List (Api.SessionEvent (binding accelerator .sparseCnn ⟨0, 0⟩) FileCall))
    {y : Api.Config (platform accelerator Driver.SparseCnn.Result) FileCall.Exit}
    (hy : (Driver.SparseCnn.exitApi.sessions σ es).phase = .bound y) (hfree : y.running = none) :
  SessionsServeOrRefuse Driver.SparseCnn.exitApi Driver.SparseCnn.sparseCnnOps FileCall.write
    FileCall.tileExit (Driver.SparseCnn.exitApi.sessions σ es) y
  := by
  apply Board.sessions_serve_or_refuse
    (Api.sessions_invariant simulates_enabled binds_enabled ⟨hbetween, henabled⟩ es) hy hfree
  · intro bytes hbytes
    apply Option.map_eq_none_iff.mpr hbytes
  · intro d τ hτ
    apply serves_or_jammed hτ
  · apply simulates_refusing
  · apply binds_jammed undisturbed_occupied (reads_id undisturbed_occupied)

end SparseCnnAxi

/-! ### The two drivers -/

namespace Board

/-- Whatever is bound and unbound, and whoever probes: a driver's own probe finds its
accelerator and no other does; reads of the Leaky ReLU give the golden tile of their session
or nothing, at the last slope stored in any session; reads of the sparse CNN give the golden
pair of the last successful write of their session. -/
theorem drivers_follow_devices_in_sessions :
  (∀ s i txBuf rxBuf (es : List (Api.SessionEvent (binding ReluAxi.accelerator .relu ())
      Driver.Relu.Call)),
    let x := Driver.Relu.api.sessions
      (start (A := ReluAxi.accelerator) (ReluAxi.reset s i) txBuf rxBuf ()) es
    (∀ v ∈ x.verdicts, v.2 = (v.1 == .relu))
      ∧ ∀ earlier log later, x.logs = earlier ++ log :: later →
        Driver.Relu.GoldenOrNothing (Driver.Relu.slopeStores earlier ++ log))
  ∧ ∀ s i txBuf rxBuf (es : List (Api.SessionEvent
      (binding SparseCnnAxi.accelerator .sparseCnn ⟨0, 0⟩) FileCall)),
    let x := Driver.SparseCnn.api.sessions
      (start (A := SparseCnnAxi.accelerator) (SparseCnnAxi.reset s i) txBuf rxBuf ⟨0, 0⟩) es
    (∀ v ∈ x.verdicts, v.2 = (v.1 == .sparseCnn))
      ∧ ∀ log ∈ x.logs, Driver.SparseCnn.LastSuccessfulTile log
  := by
  constructor
  · intro s i txBuf rxBuf es
    apply ReluAxi.relu_sessions
  · intro s i txBuf rxBuf es
    apply SparseCnnAxi.sparse_cnn_sessions

/-- A driver that is bound again serves every tile, or finds the accelerator jammed by an
earlier session and serves none. -/
theorem rebinding_serves_or_refuses :
  (∀ s, ReluAxi.IdleAtProbe s → ReluAxi.enReg s = true → ∀ txBuf rxBuf
      (es : List (Api.SessionEvent (binding ReluAxi.accelerator .relu ()) Driver.Relu.Call)),
    let x := Driver.Relu.exitApi.sessions (start (A := ReluAxi.accelerator) s txBuf rxBuf ()) es
    Driver.Relu.api.sessions (start (A := ReluAxi.accelerator) s txBuf rxBuf ()) es
        = x.erase Driver.Relu.Call.ret
      ∧ ∀ y, x.phase = .bound y → y.running = none →
        SessionsServeOrRefuse Driver.Relu.exitApi Driver.Relu.reluOps
          (fun bytes => .file (.write bytes)) Driver.Relu.Call.tileExit x y)
  ∧ ∀ s, SparseCnnAxi.IdleAtProbe s → SparseCnnAxi.enReg s = true → ∀ txBuf rxBuf priv
      (es : List (Api.SessionEvent (binding SparseCnnAxi.accelerator .sparseCnn ⟨0, 0⟩) FileCall)),
    let x := Driver.SparseCnn.exitApi.sessions
      (start (A := SparseCnnAxi.accelerator) s txBuf rxBuf priv) es
    Driver.SparseCnn.api.sessions (start (A := SparseCnnAxi.accelerator) s txBuf rxBuf priv) es
        = x.erase FileCall.ret
      ∧ ∀ y, x.phase = .bound y → y.running = none →
        SessionsServeOrRefuse Driver.SparseCnn.exitApi Driver.SparseCnn.sparseCnnOps
          FileCall.write FileCall.tileExit x y
  := by
  constructor
  · intro s h hen txBuf rxBuf es
    use Driver.Relu.erases_exitApi.sessions_eq _ es
    intro y hy hfree
    apply ReluAxi.sessions_serve_or_refuse (ReluAxi.waiting_start h txBuf rxBuf)
      (ReluAxi.under_start h hen txBuf rxBuf) es hy hfree
  · intro s h hen txBuf rxBuf priv es
    use Driver.SparseCnn.erases_exitApi.sessions_eq _ es
    intro y hy hfree
    apply SparseCnnAxi.sessions_serve_or_refuse (SparseCnnAxi.between_start h txBuf rxBuf priv)
      (SparseCnnAxi.under_start h hen txBuf rxBuf priv) es hy hfree

/-- The Leaky ReLU bound again after a tile that failed before it was submitted. -/
def reluRebound : Api.Sessions (binding ReluAxi.accelerator .relu ()) Driver.Relu.Call.Exit :=
  Driver.Relu.exitApi.sessions
    (start (A := ReluAxi.accelerator) (ReluAxi.reset ReluAxi.zero (ReluAxi.tileCycle false))
      (fun _ => 0) (fun _ => 0) ())
    (probed .relu ++ (failedFirst (.file (.write [3, 5]))).map .call ++ [.unbind] ++ probed .relu)

/-- The sparse CNN bound again after a tile that was cut short, and written to. -/
def sparseCnnRebound :
    Api.Sessions (binding SparseCnnAxi.accelerator .sparseCnn (⟨0, 0⟩ : Driver.SparseCnn.Result))
      FileCall.Exit :=
  Driver.SparseCnn.exitApi.sessions
    (start (A := SparseCnnAxi.accelerator) (SparseCnnAxi.reset SparseCnnAxi.zero SparseCnnAxi.quiet)
      (fun _ => 0) (fun _ => 0) ⟨0, 0⟩)
    (probed .sparseCnn ++ (cutShortFirst [3, 5]).map .call ++ [.unbind] ++ probed .relu
      ++ probed .sparseCnn ++ (promptly (.write [3, 5]) 8).map .call)

/-- Out of reset. -/
theorem rebinding_serves_or_refuses_after_reset :
  (∃ y, reluRebound.phase = .bound y ∧ SessionsServeOrRefuse Driver.Relu.exitApi
    Driver.Relu.reluOps (fun bytes => .file (.write bytes)) Driver.Relu.Call.tileExit reluRebound y)
  ∧ ∃ y, sparseCnnRebound.phase = .bound y ∧ SessionsServeOrRefuse Driver.SparseCnn.exitApi
    Driver.SparseCnn.sparseCnnOps FileCall.write FileCall.tileExit sparseCnnRebound y
  := by
  have hrelu : reluRebound.phase.resting = true := by decide +kernel
  have hsparse : sparseCnnRebound.phase.resting = true := by decide +kernel
  constructor
  · obtain ⟨y, hy, hfree⟩ := Api.Phase.bound_of_resting hrelu
    use y, hy
    apply (rebinding_serves_or_refuses.1 (ReluAxi.reset ReluAxi.zero (ReluAxi.tileCycle false))
      ⟨rfl, rfl, rfl, rfl, rfl⟩ rfl _ _ _).2 y hy hfree
  · obtain ⟨y, hy, hfree⟩ := Api.Phase.bound_of_resting hsparse
    use y, hy
    apply (rebinding_serves_or_refuses.2 (SparseCnnAxi.reset SparseCnnAxi.zero SparseCnnAxi.quiet)
      ⟨rfl, rfl, rfl, rfl, rfl⟩ rfl _ _ _ _).2 y hy hfree

/-- The tile cut short is not transferred, and the next is refused, in that session and in
the one after it. -/
example :
  sparseCnnRebound.logs.map (List.map fun e => e.1.tileExit e.2)
    = [[some (.notTransferred .ETIMEDOUT), some (.refused .EBUSY)], [some (.refused .EBUSY)]]
  := by
  decide +kernel

end Board
