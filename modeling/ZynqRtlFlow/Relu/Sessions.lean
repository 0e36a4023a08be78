import ZynqRtlFlow.Board.Sessions
import ZynqRtlFlow.Relu.EndToEnd

/-!
# Sessions of `/dev/relu`

Between two sessions of the driver the accelerator keeps its slope and the driver forgets
its results.  So a session is, to its readers, one on an accelerator out of reset on which
the slopes stored in the sessions before have been stored again.
-/

namespace Driver.Relu

/-- What is left of a session when the driver is bound anew. -/
def Kept.renewed (d : Kept) : Kept :=
  { d with result := [] }

/-- The call is a store to the slope. -/
def isSlopeStore : (Σ c : Call, c.Val) → Bool
  | ⟨.slopeStore _, _⟩ => true
  | _ => false

/-- The slopes stored in sessions. -/
def slopeStores (past : List (List (Σ c : Call, c.Val))) : List (Σ c : Call, c.Val) :=
  past.flatten.filter isSlopeStore

/-- A call that stores no slope leaves what a binding keeps. -/
theorem renewed_step_of_not_isSlopeStore (d : Kept) {e : Σ c : Call, c.Val}
    (he : isSlopeStore e = false) :
  (d.step e.1 e.2).renewed = d.renewed
  := by
  obtain ⟨(bytes | ⟨dst, count⟩) | slope, v⟩ := e
  · obtain e | e | n := v
    · rfl
    · rfl
    · rfl
  · rfl
  · cases he

/-- A store does to the slope what it does whatever the result. -/
theorem renewed_step_of_isSlopeStore (d : Kept) {e : Σ c : Call, c.Val}
    (he : isSlopeStore e = true) :
  (d.step e.1 e.2).renewed = d.renewed.step e.1 e.2
  := by
  obtain ⟨(bytes | ⟨dst, count⟩) | e | word, v⟩ := e
  · cases he
  · cases he
  · rfl
  · obtain e | _ := v
    · rfl
    · rfl

/-- What a store may return does not depend on what is kept. -/
theorem allows_of_isSlopeStore {d : Kept} {e : Σ c : Call, c.Val} (he : isSlopeStore e = true)
    (h : d.Allows e.1 e.2) (d' : Kept) :
  d'.Allows e.1 e.2
  := by
  obtain ⟨(bytes | ⟨dst, count⟩) | slope, v⟩ := e
  · cases he
  · cases he
  · obtain e | _ := v
    · trivial
    · apply h

/-- Of a log the stores alone make up what a binding keeps. -/
theorem renewed_after (d : Kept) (log : List (Σ c : Call, c.Val)) :
  ((device.startingAt d).after log).renewed
    = (device.startingAt d.renewed).after (log.filter isSlopeStore)
  := by
  induction log generalizing d with
  | nil => rfl
  | cons e log ih =>
      apply (ih (d.step e.1 e.2)).trans
      cases he : isSlopeStore e with
      | true =>
          rw [List.filter_cons_of_pos he, renewed_step_of_isSlopeStore d he]
          rfl
      | false =>
          rw [List.filter_cons_of_neg (Bool.eq_false_iff.mp he),
            renewed_step_of_not_isSlopeStore d he]

theorem after_slopeStores (past : List (List (Σ c : Call, c.Val))) :
  device.after (slopeStores past) = Kept.renewed (device.kept Kept.renewed past)
  := by
  induction past using List.reverseRecOn with
  | nil => rfl
  | append_singleton past log ih =>
      have hsplit : slopeStores (past ++ [log]) = slopeStores past ++ log.filter isSlopeStore := by
        rw [slopeStores, List.flatten_append, List.filter_append]
        simp [slopeStores]
      have hkept := Device.kept_concat (D := device) Kept.renewed past log
      have hstores : device.after (slopeStores (past ++ [log]))
          = (device.startingAt (device.after (slopeStores past))).after (log.filter isSlopeStore) := by
        rw [hsplit]
        apply List.foldl_append
      have hrenewed := renewed_after (Kept.renewed (device.kept Kept.renewed past)) log
      apply hstores.trans
      apply (congrArg (fun d => (device.startingAt d).after _) ih).trans
      apply Eq.trans hrenewed.symm
      apply (congrArg Kept.renewed hkept).symm

/-- The stores of sessions that the device explains can be made one after another. -/
theorem explains_slopeStores {past : List (List (Σ c : Call, c.Val))}
    (hpast : ∀ earlier log later, past = earlier ++ log :: later →
      (device.startingAt (Kept.renewed (device.kept Kept.renewed earlier))).Explains log) :
  device.Explains (slopeStores past)
  := by
  intro before e after hsplit
  have he : e ∈ slopeStores past := by
    rw [hsplit]
    simp
  obtain ⟨hmem, hstore⟩ := List.mem_filter.mp he
  obtain ⟨log, hlog, helog⟩ := List.mem_flatten.mp hmem
  obtain ⟨earlier, later, hpast'⟩ := List.append_of_mem hlog
  obtain ⟨first, rest, hlog'⟩ := List.append_of_mem helog
  apply allows_of_isSlopeStore hstore (hpast earlier log later hpast' first e rest hlog')

/-- A session is, to its readers, one in which the slopes stored in the sessions before have
been stored first. -/
theorem explains_session {logs earlier later : List (List (Σ c : Call, c.Val))}
    (hlogs : ∀ earlier log later, logs = earlier ++ log :: later →
      (device.startingAt (Kept.renewed (device.kept Kept.renewed earlier))).Explains log)
    {log : List (Σ c : Call, c.Val)} (hsplit : logs = earlier ++ log :: later) :
  device.Explains (slopeStores earlier ++ log)
  := by
  have hearlier : device.Explains (slopeStores earlier) := by
    apply explains_slopeStores
    intro first log' rest hfirst
    apply hlogs first log' (rest ++ log :: later)
    rw [hsplit, hfirst, List.append_assoc]
    rfl
  apply hearlier.append
  rw [after_slopeStores]
  apply hlogs earlier log later hsplit

end Driver.Relu

namespace ReluAxi

open AxiLite Driver Board
open Driver.Relu

theorem reads_id {I : State → Bus → Prop} (hI : Undisturbed accelerator I) :
  Reads accelerator I accelRegId fun v s b => I s b ∧ v = LayerModule.idExpected .relu
  := by
  apply reads_known hI
  intro s b _
  rfl

theorem binds_device :
  Api.Binds (P := platform accelerator Unit) device Idle Kept.renewed (binding accelerator .relu ())
  := by
  constructor
  · rintro d l σ ⟨m, slope, hfresh, hσ, hrest⟩
    have hprobe := wp_accelProbeId (undisturbed_rest slope) quiet_empty
      (reads_id (undisturbed_rest slope)) hσ l
    apply Platform.wp_mono hprobe
    rintro found τ ⟨hfound, hτ⟩
    use hfound
    exact ⟨m, slope, hfresh, hτ, hrest⟩
  · rintro d buffers σ ⟨m, slope, hfresh, hσ, hslope, hresult⟩
    exact ⟨_, slope, fresh_rebind () buffers, at_rebind hσ () buffers, hslope, rfl⟩

/-- Whoever probes the Leaky ReLU, whenever the driver is bound and unbound, and whatever is
called in the sessions: its own probe finds it and no other, and reads give the golden tile of
the session or nothing, at the last slope stored in any session. -/
theorem relu_sessions (s : State) (i : Inputs) (txBuf rxBuf : ℕ → BitVec 8)
    (es : List (Api.SessionEvent (binding accelerator .relu ()) Call)) :
  (∀ v ∈ (Driver.Relu.api.sessions
      (start (A := accelerator) (reset s i) txBuf rxBuf ()) es).verdicts, v.2 = (v.1 == .relu))
  ∧ ∀ earlier log later, (Driver.Relu.api.sessions
      (start (A := accelerator) (reset s i) txBuf rxBuf ()) es).logs = earlier ++ log :: later →
    GoldenOrNothing (slopeStores earlier ++ log)
  := by
  have hinvariant := Api.sessions_invariant simulates_device binds_device
    (idle_start s i txBuf rxBuf) es
  use hinvariant.verdicts
  intro earlier log later hsplit
  apply goldenOrNothing_of_explains
  apply explains_session hinvariant.explains hsplit

/-- The sparse CNN's driver is turned away; the slope stored in the first session counts in the
second, and the result of the first does not. -/
example :
  let serve (c : Call) (n : ℕ) :
      List (Api.SessionEvent (binding accelerator .relu ()) Call) := (promptly c n).map .call
  let x := Driver.Relu.api.sessions (B := binding accelerator .relu ())
    (start (A := accelerator) (reset zero (tileCycle false)) (fun _ => 0) (fun _ => 0) ())
    (probed .sparseCnn ++ probed .relu ++ serve (.slopeStore (.ok 128)) 1
      ++ serve (.file (.write [0x80])) 20 ++ serve (.file (.read 2 2)) 2 ++ [.unbind]
      ++ probed .relu ++ serve (.file (.read 2 2)) 2
      ++ serve (.file (.write [0x80])) 20 ++ serve (.file (.read 2 2)) 2)
  x.verdicts = [(LayerModule.sparseCnn, false), (.relu, true), (.relu, true)]
    ∧ x.logs.map (List.filterMap
        fun | ⟨.file (.read _ _), .ok bytes⟩ => some (bytes.map BitVec.toInt) | _ => none)
      = [[[-64]], [[], [-64]]]
  := by
  decide +kernel

end ReluAxi
