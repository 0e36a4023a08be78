import ZynqRtlFlow.Board.Sessions
import ZynqRtlFlow.SparseCnn.EndToEnd

/-!
# Sessions of `/dev/sparse_cnn`

Between two sessions of the driver nothing that its readers could see is kept: each session
is, to them, the first.
-/

namespace SparseCnnAxi

open AxiLite Driver Board
open Driver.SparseCnn

/-- Every session begins with zeros. -/
def renewed (_ : ℤ × ℕ) : ℤ × ℕ :=
  (0, 0)

theorem reads_id {I : State → Bus → Prop} (hI : Undisturbed accelerator I) :
  Reads accelerator I accelRegId fun v s b => I s b ∧ v = LayerModule.idExpected .sparseCnn
  := by
  intro s b e beat last h hready hvalid haddr hposted
  have hword : Reads accelerator I accelRegId fun v _ _ => v = LayerModule.idExpected .sparseCnn := by
    apply reads_of
    intro s b e i _ _ _ _
    rfl
  use hI _ _ _ _ _ h
  apply hword s b e beat last h hready hvalid haddr hposted

theorem binds_device :
  Api.Binds (P := platform accelerator Result) device Idle renewed
    (binding accelerator .sparseCnn ⟨0, 0⟩)
  := by
  constructor
  · rintro d l σ ⟨m, hfresh, hσ, hdata⟩
    have hprobe := wp_accelProbeId undisturbed_clean quiet_empty
      (reads_id undisturbed_clean) hσ l
    apply Platform.wp_mono hprobe
    rintro found τ ⟨hfound, hτ⟩
    use hfound
    exact ⟨m, hfresh, hτ, hdata⟩
  · rintro d buffers σ ⟨m, hfresh, hσ, hdata⟩
    exact ⟨_, fresh_rebind ⟨0, 0⟩ buffers, at_rebind hσ ⟨0, 0⟩ buffers, rfl, rfl⟩

/-- Whoever probes the sparse CNN, whenever the driver is bound and unbound, and whatever is
called in the sessions: its own probe finds it and no other, and reads give the golden pair of
the last successful write of the session. -/
theorem sparse_cnn_sessions (s : State) (i : Inputs) (txBuf rxBuf : ℕ → BitVec 8)
    (es : List (Api.SessionEvent (binding accelerator .sparseCnn ⟨0, 0⟩) FileCall)) :
  (∀ v ∈ (Driver.SparseCnn.api.sessions
      (start (A := accelerator) (reset s i) txBuf rxBuf ⟨0, 0⟩) es).verdicts,
    v.2 = (v.1 == .sparseCnn))
  ∧ ∀ log ∈ (Driver.SparseCnn.api.sessions
      (start (A := accelerator) (reset s i) txBuf rxBuf ⟨0, 0⟩) es).logs, LastSuccessfulTile log
  := by
  have hinvariant := Api.sessions_invariant simulates_device binds_device
    (idle_start s i txBuf rxBuf) es
  use hinvariant.verdicts
  intro log hlog
  obtain ⟨earlier, later, hsplit⟩ := List.append_of_mem hlog
  apply lastSuccessfulTile_of_explains
  apply hinvariant.explains earlier log later hsplit

end SparseCnnAxi
