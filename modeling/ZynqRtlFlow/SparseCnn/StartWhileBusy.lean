import ZynqRtlFlow.AxiLite.Agreement
import ZynqRtlFlow.SparseCnn.Status

/-!
# START with a tile in flight

The register map says that START is ignored while `BUSY` is up.  A START acts one cycle
after its write commits, so it is ignored when it commits with the state machine clearing
or running, and begins another tile when it commits in the latching cycle: `BUSY` is up
in that cycle, and the state machine idle in the next (`start_ignored_iff`).
-/

namespace SparseCnnAxi

open AxiLite

/-! ### Two runs -/

/-- A word with the START bit set or clear. -/
def setStart (b : Bool) (word : BitVec 32) : BitVec 32 :=
  if b then word ||| (1#32 <<< ctrlStart) else word &&& ~~~(1#32 <<< ctrlStart)

/-- The state of a cycle, with START set or clear in the data of the write it commits,
when they were accepted in an earlier cycle. -/
def startState (b : Bool) (s : State) : State :=
  if s.write.wPend then { s with write.wDataQ := setStart b s.write.wDataQ } else s

/-- The inputs of a cycle, with START set or clear in the data presented, when none are
pending. -/
def startInputs (b : Bool) (s : State) (i : Inputs) : Inputs :=
  if s.write.wPend then i else { i with axil.wdata := setStart b i.axil.wdata }

/-- What a cycle shows: stream ready, `ACC` and `SKIP`, and, once the tile has completed,
`STATUS`. -/
structure Observation where
  ready : Bool
  acc : BitVec 32
  skip : BitVec 16
  status : Option (BitVec 32)
  deriving DecidableEq, Repr

/-- What the cycles of a run show, `completed` telling whether the tile has completed. -/
def observations (completed : Bool) : List Cycle → List Observation
  | [] => []
  | (s, i) :: rest =>
      ⟨tready s, s.accQ, s.skipQ, if completed then some (statusWord s i) else none⟩
        :: observations (completed || s.state == .latch) rest

/-- What the run from a cycle shows when the data of the write that commits in it have
START set or clear. -/
def shows (b : Bool) (s : State) (i : Inputs) (ks : List Inputs) : List Observation :=
  observations false (machine.history (startState b s) (startInputs b s i :: ks))

/-! ### Twin states -/

/-- Two states that differ at most in what no run can show: the payloads of no pending
write, the word of an earlier read, and a START pulse with a tile in flight. -/
structure Twin (s t : State) : Prop where
  write : s.write.Agree t.write
  state : s.state = t.state
  doneQ : s.doneQ = t.doneQ
  accQ : s.accQ = t.accQ
  skipQ : s.skipQ = t.skipQ
  pe : s.pe = t.pe
  en : enReg s = enReg t
  clear : clearPulse s = clearPulse t
  start : t.state = .idle → startPulse s = startPulse t

namespace Twin

variable {s t : State} (h : Twin s t) (i : Inputs)

include h

theorem ctrlLands_eq :
  ctrlLands s i = ctrlLands t i
  := by
  rw [ctrlLands, ctrlLands, ctrlWr, ctrlWr, h.write.wrCommit_eq (.refl _), h.write.wrAddr_eq,
    h.write.wrStrb_eq]

theorem startCommit_eq :
  startCommit s i = startCommit t i
  := by
  rw [startCommit, startCommit, h.ctrlLands_eq, h.write.wrData_eq]

theorem tready_eq :
  tready s = tready t
  := by
  rw [tready, tready, h.state, h.en, h.clear]

theorem beat_eq :
  beat s i = beat t i
  := by
  rw [beat, beat, h.tready_eq]

theorem peInputs_eq :
  peInputs s i = peInputs t i
  := by
  simp only [peInputs, peEn, peClear, h.beat_eq, h.state, h.clear]

theorem stateNext_eq :
  stateNext s i = stateNext t i
  := by
  rw [stateNext, stateNext, h.state, h.beat_eq]
  cases hst : t.state with
  | idle => rw [h.start hst]
  | clear => rfl
  | run => rfl
  | latch => rfl

theorem doneNext_eq :
  doneNext s = doneNext t
  := by
  rw [doneNext, doneNext, h.state, h.doneQ]
  cases hst : t.state with
  | idle => rw [h.start hst]
  | clear => rfl
  | run => rfl
  | latch => rfl

theorem edge :
  Twin (posedge s i true) (posedge t i true)
  := by
  constructor
  · apply h.write.edge i.axil true
  · apply h.stateNext_eq
  · apply h.doneNext_eq
  · simp only [posedge_accQ, accNext, h.clear, h.state, h.pe, h.accQ]
  · simp only [posedge_skipQ, skipNext, h.clear, h.state, h.pe, h.skipQ]
  · rw [posedge_pe, posedge_pe, h.peInputs_eq, h.pe]
  · rw [enReg_posedge, enReg_posedge, h.ctrlLands_eq, h.write.wrData_eq, h.en]
  · rw [clearPulse_posedge, clearPulse_posedge, clearCommit, clearCommit, h.ctrlLands_eq,
      h.write.wrData_eq]
  · intro _
    rw [startPulse_posedge, startPulse_posedge, h.startCommit_eq]

theorem statusWord_eq (hs : Exclusive t) :
  statusWord s i = statusWord t i
  := by
  have hs' : Exclusive s := by
    intro hne
    rw [h.doneQ]
    apply hs
    rw [← h.state]
    apply hne
  by_cases hst : t.state = .idle
  · have htaken : startTaken s i = startTaken t i := by
      rw [startTaken_eq, startTaken_eq, h.start hst, h.startCommit_eq]
    simp only [statusWord, statusBusyBit, statusDoneBit, htaken, h.state, h.doneQ]
  · rw [statusWord_of_busy i hs, statusWord_of_busy i hs']
    · intro hidle
      rw [h.state] at hidle
      exact absurd hidle hst
    · intro hidle
      exact absurd hidle hst

theorem observations_eq (hs : Exclusive t) (ks : List Inputs) (completed : Bool) :
  observations completed (machine.history s ks) = observations completed (machine.history t ks)
  := by
  induction ks generalizing s t completed with
  | nil => rfl
  | cons k ks ih =>
      simp only [Machine.history_cons, observations, machine_next]
      rw [h.tready_eq, h.accQ, h.skipQ, h.statusWord_eq k hs, h.state,
        ih (h.edge k) (hs.edge k)]

end Twin

/-! ### The cycle of the write -/

theorem getLsbD_setStart (b : Bool) (word : BitVec 32) {k : ℕ} (hk : k < 32) :
  (setStart b word).getLsbD k = if k = ctrlStart then b else word.getLsbD k
  := by
  have hone : (1#32 <<< ctrlStart).getLsbD k = decide (k = ctrlStart) := by
    simp
  cases b
  · rw [setStart, if_neg (by decide), BitVec.getLsbD_and, BitVec.getLsbD_not, hone]
    by_cases hz : k = ctrlStart <;> simp [hk, hz]
  · rw [setStart, if_pos rfl, BitVec.getLsbD_or, hone]
    by_cases hz : k = ctrlStart <;> simp [hz]

section Write

variable (b : Bool) (s : State) (i : Inputs)

theorem wrData_start :
  (startState b s).write.wrData (startInputs b s i).axil = setStart b (s.write.wrData i.axil)
  := by
  cases hp : s.write.wPend <;> simp [startState, startInputs, WriteChannel.wrData, hp]

theorem wrCommit_start :
  (startState b s).write.wrCommit (startInputs b s i).axil = s.write.wrCommit i.axil
  := by
  by_cases hp : s.write.wPend = true
  · rw [startState, startInputs, if_pos hp, if_pos hp]
    rfl
  · rw [startState, startInputs, if_neg hp, if_neg hp]
    rfl

theorem ctrlLands_start :
  ctrlLands (startState b s) (startInputs b s i) = ctrlLands s i
  := by
  by_cases hp : s.write.wPend = true
  · rw [startState, startInputs, if_pos hp, if_pos hp]
    rfl
  · rw [startState, startInputs, if_neg hp, if_neg hp]
    rfl

theorem startState_eq :
  startState b s = { s with write := (startState b s).write }
  := by
  cases hp : s.write.wPend <;> simp [startState, hp]

theorem startInputs_eq :
  startInputs b s i = { i with axil := (startInputs b s i).axil }
  := by
  cases hp : s.write.wPend <;> simp [startInputs, hp]

/-- The data written decide nothing but the write channel and the control register. -/
theorem posedge_start :
  (posedge (startState b s) (startInputs b s i) true).state = stateNext s i
    ∧ (posedge (startState b s) (startInputs b s i) true).doneQ = doneNext s
    ∧ (posedge (startState b s) (startInputs b s i) true).accQ = accNext s
    ∧ (posedge (startState b s) (startInputs b s i) true).skipQ = skipNext s
    ∧ (posedge (startState b s) (startInputs b s i) true).pe
      = SparseMacPe.posedge true (peInputs s i) s.pe
  := by
  rw [startState_eq, startInputs_eq]
  and_intros <;> rfl

/-- A committing write leaves the write channel with nothing pending but its response. -/
theorem write_start (hwr : s.write.wrCommit i.axil = true) :
  (posedge (startState b s) (startInputs b s i) true).write.awPend = false
    ∧ (posedge (startState b s) (startInputs b s i) true).write.wPend = false
    ∧ (posedge (startState b s) (startInputs b s i) true).write.bvalidQ
      = !(s.write.bvalidQ && i.axil.bready)
  := by
  have hb : (startState b s).write.bvalidQ = s.write.bvalidQ := by
    rw [startState]
    split <;> rfl
  have hr : (startInputs b s i).axil.bready = i.axil.bready := by
    rw [startInputs]
    split <;> rfl
  rw [posedge_write, WriteChannel.awPend_posedge, WriteChannel.wPend_posedge,
    WriteChannel.bvalidQ_posedge, wrCommit_start, hwr, hb, hr]
  cases s.write.bvalidQ && i.axil.bready <;> simp

theorem startPulse_start :
  startPulse (posedge (startState b s) (startInputs b s i) true) = (ctrlLands s i && b)
  := by
  rw [startPulse_posedge, startCommit, ctrlLands_start, wrData_start,
    getLsbD_setStart b _ (by decide), if_pos rfl]

end Write

/-- After the cycle of the write the two runs are in twin states, unless the pulse falls
in an idle cycle. -/
theorem twin_start {s : State} {i : Inputs} (hwr : s.write.wrCommit i.axil = true)
    (hidle : stateNext s i = .idle → ctrlLands s i = false) :
  Twin (posedge (startState true s) (startInputs true s i) true)
    (posedge (startState false s) (startInputs false s i) true)
  := by
  have hbit : ∀ (b : Bool) (k : ℕ), k < 32 → k ≠ ctrlStart →
      ((startState b s).write.wrData (startInputs b s i).axil).getLsbD k
        = (s.write.wrData i.axil).getLsbD k := by
    intro b k hk hne
    rw [wrData_start, getLsbD_setStart b _ hk, if_neg hne]
  have hen : ∀ b : Bool, enReg (startState b s) = enReg s := by
    intro b
    rw [startState_eq]
    rfl
  obtain ⟨hstate, hdone, hacc, hskip, hpe⟩ := posedge_start true s i
  obtain ⟨hstate', hdone', hacc', hskip', hpe'⟩ := posedge_start false s i
  obtain ⟨haw, hw, hb⟩ := write_start true s i hwr
  obtain ⟨haw', hw', hb'⟩ := write_start false s i hwr
  constructor
  · apply WriteChannel.Agree.of_free
    · use haw, hw
    · use haw', hw'
    · rw [hb, hb']
  · rw [hstate, hstate']
  · rw [hdone, hdone']
  · rw [hacc, hacc']
  · rw [hskip, hskip']
  · rw [hpe, hpe']
  · rw [enReg_posedge, enReg_posedge, ctrlLands_start, ctrlLands_start, hen, hen,
      hbit _ _ (by decide) (by decide), hbit _ _ (by decide) (by decide)]
  · rw [clearPulse_posedge, clearPulse_posedge, clearCommit, clearCommit, ctrlLands_start,
      ctrlLands_start, hbit _ _ (by decide) (by decide), hbit _ _ (by decide) (by decide)]
  · intro hst
    rw [hstate'] at hst
    rw [startPulse_start, startPulse_start, hidle hst, Bool.false_and, Bool.false_and]

/-! ### When START is ignored -/

theorem shows_cons (b : Bool) (s : State) (i : Inputs) (ks : List Inputs) :
  shows b s i ks
    = ⟨tready s, s.accQ, s.skipQ, none⟩
      :: observations (s.state == .latch)
        (machine.history (posedge (startState b s) (startInputs b s i) true) ks)
  := by
  rw [shows, Machine.history_cons, observations, machine_next, startState_eq]
  rfl

/-- A START that commits in the latching cycle shows in `STATUS` one cycle later. -/
theorem status_after_latch {s : State} {i : Inputs} (hl : s.state = .latch)
    (hwr : s.write.wrCommit i.axil = true) (hlands : ctrlLands s i = true) (b : Bool) :
  statusWord (posedge (startState b s) (startInputs b s i) true) quiet = if b then 1#32 else 2#32
  := by
  have hstate : (posedge (startState b s) (startInputs b s i) true).state = .idle := by
    rw [(posedge_start b s i).1, stateNext, hl]
  have hpulse : startPulse (posedge (startState b s) (startInputs b s i) true) = b := by
    rw [startPulse_start, hlands, Bool.true_and]
  cases b
  · apply Settled.statusWord
    · constructor
      · apply hstate
      · rw [(posedge_start false s i).2.1, doneNext, hl]
      · apply hpulse
    · have haw := (write_start false s i hwr).1
      simp only [startCommit, ctrlLands, ctrlWr, WriteChannel.wrCommit, haw]
      rfl
  · apply statusWord_of_busy
    · intro hne
      exact absurd hstate hne
    · intro _
      rw [startTaken_eq, hpulse, Bool.true_or]

/-- With a tile in flight, whether the data of a committing write to `CTRL` have START set
makes no difference to what any later run shows exactly when the write does not commit in
the latching cycle or does not strobe byte lane 0. -/
theorem start_ignored_iff (s : State) (i₀ : Inputs) (is : List Inputs) (i : Inputs)
    (hbusy : (machine.run (reset s i₀) is).state ≠ .idle)
    (hwr : ctrlWr (machine.run (reset s i₀) is) i = true) :
  (∀ ks, shows true (machine.run (reset s i₀) is) i ks
      = shows false (machine.run (reset s i₀) is) i ks)
    ↔ (machine.run (reset s i₀) is).state ≠ .latch
      ∨ ((machine.run (reset s i₀) is).write.wrStrb i.axil).getLsbD 0 = false
  := by
  have hex := exclusive_run s i₀ is
  generalize machine.run (reset s i₀) is = t at hbusy hwr hex ⊢
  have hc : t.write.wrCommit i.axil = true := by
    rw [ctrlWr, Bool.and_eq_true] at hwr
    apply hwr.1
  have hlands : ctrlLands t i = (t.write.wrStrb i.axil).getLsbD 0 := by
    rw [ctrlLands, hwr, Bool.true_and]
  constructor
  · intro heq
    by_contra hnot
    push Not at hnot
    obtain ⟨hl, hstrb⟩ := hnot
    rw [← hlands, ne_eq, Bool.not_eq_false] at hstrb
    have hstatus := status_after_latch hl hc hstrb
    have hshow := heq [quiet]
    rw [shows_cons, shows_cons, hl] at hshow
    simp [observations, hstatus] at hshow
  · intro hcond ks
    have htwin : Twin (posedge (startState true t) (startInputs true t i) true)
        (posedge (startState false t) (startInputs false t i) true) := by
      apply twin_start hc
      intro hidle
      rw [hlands]
      rcases hcond with hl | hstrb
      · cases hst : t.state with
        | idle => exact absurd hst hbusy
        | clear => simp [stateNext, hst] at hidle
        | run =>
            rw [stateNext, hst] at hidle
            dsimp only at hidle
            split at hidle <;> cases hidle
        | latch => exact absurd hst hl
      · apply hstrb
    have hex' : Exclusive (posedge (startState false t) (startInputs false t i) true) := by
      apply Exclusive.edge
      rw [startState_eq]
      apply hex
    rw [shows_cons, shows_cons, htwin.observations_eq hex']

/-- A START that commits in the first running cycle of a tile. -/
theorem start_ignored_running :
  shows true (machine.run (reset zero quiet) [ctrlCycle 5, quiet, quiet]) (ctrlCycle 5)
      [lastBeatCycle 0x0302, quiet, statusCycle]
    = shows false (machine.run (reset zero quiet) [ctrlCycle 5, quiet, quiet]) (ctrlCycle 5)
      [lastBeatCycle 0x0302, quiet, statusCycle]
  :=
  (start_ignored_iff zero quiet [ctrlCycle 5, quiet, quiet] (ctrlCycle 5) (by decide)
    (by decide)).mpr (by decide) _

/-- A START that commits in the latching cycle of a one-beat tile: `BUSY` is up in that
cycle, the next cycle hides the completion, and two cycles later the stream is ready for
the beats of another tile. -/
theorem start_taken_in_latching_cycle :
  statusWord (machine.run (reset zero quiet) [ctrlCycle 5, quiet, quiet, lastBeatCycle 0x0302])
      (ctrlCycle 5) = 1#32
    ∧ ctrlWr (machine.run (reset zero quiet)
        [ctrlCycle 5, quiet, quiet, lastBeatCycle 0x0302]) (ctrlCycle 5) = true
    ∧ (shows true (machine.run (reset zero quiet)
        [ctrlCycle 5, quiet, quiet, lastBeatCycle 0x0302]) (ctrlCycle 5) [quiet, quiet, quiet])
      = [⟨false, 0, 0, none⟩, ⟨false, 6, 0, some 1⟩, ⟨false, 6, 0, some 1⟩, ⟨true, 6, 0, some 1⟩]
    ∧ (shows false (machine.run (reset zero quiet)
        [ctrlCycle 5, quiet, quiet, lastBeatCycle 0x0302]) (ctrlCycle 5) [quiet, quiet, quiet])
      = [⟨false, 0, 0, none⟩, ⟨false, 6, 0, some 2⟩, ⟨false, 6, 0, some 2⟩, ⟨false, 6, 0, some 2⟩]
  := by
  decide

end SparseCnnAxi
