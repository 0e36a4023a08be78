import ZynqRtlFlow.Rtl.SparseCnnAxi

/-!
# Control and status of the sparse CNN

A write to `CTRL` that strobes byte lane 0 sets the enable, and raises the START and
CLEAR pulses for the one cycle that follows.  `STATUS` follows the state machine, except
that a START hides a completed tile from the cycle its write commits.
-/

namespace SparseCnnAxi

open AxiLite

variable (s : State) (i : Inputs)

/-! ### The control register -/

/-- A write to `CTRL` with byte lane 0 strobed commits in this cycle. -/
def ctrlLands : Bool := ctrlWr s i && (s.write.wrStrb i.axil).getLsbD 0

/-- A START commits in this cycle. -/
def startCommit : Bool := ctrlLands s i && (s.write.wrData i.axil).getLsbD ctrlStart

/-- A CLEAR commits in this cycle. -/
def clearCommit : Bool := ctrlLands s i && (s.write.wrData i.axil).getLsbD ctrlClear

theorem startTaken_eq :
  startTaken s i = (startPulse s || startCommit s i)
  := rfl

/-- A bit of the first byte of `CTRL` after an edge: the written bit under the mask, or
the old bit with the pulses fallen. -/
theorem getLsbD_ctrlNext {k : ℕ} (hk : k < 8) :
  (ctrlNext s i).getLsbD k
    = if ctrlLands s i then (s.write.wrData i.axil).getLsbD k && ctrlMask.getLsbD k
      else s.ctrlReg.getLsbD k
        && !((1#32 <<< ctrlStart) ||| (1#32 <<< ctrlClear)).getLsbD k
  := by
  have hk32 : k < 32 := by omega
  have hbyte : k / 8 = 0 := by omega
  have hfallen : ∀ pulses : BitVec 32, (s.ctrlReg &&& ~~~pulses).getLsbD k
      = (s.ctrlReg.getLsbD k && !pulses.getLsbD k) := by
    intro pulses
    simp only [BitVec.getLsbD_and, BitVec.getLsbD_not, hk32, decide_true, Bool.true_and]
  rw [ctrlNext, ctrlLands]
  cases ctrlWr s i
  · apply hfallen
  · simp only [if_true, Bool.true_and]
    rw [getLsbD_writeBytes _ _ _ _ hk32, hbyte, hfallen]

/-- The START pulse is up in the cycle after a START commits, and in no other. -/
theorem startPulse_posedge :
  startPulse (posedge s i true) = startCommit s i
  := by
  rw [startPulse, posedge_ctrlReg, getLsbD_ctrlNext s i (by decide), startCommit]
  cases ctrlLands s i <;> simp [ctrlMask]

/-- The CLEAR pulse is up in the cycle after a CLEAR commits, and in no other. -/
theorem clearPulse_posedge :
  clearPulse (posedge s i true) = clearCommit s i
  := by
  rw [clearPulse, posedge_ctrlReg, getLsbD_ctrlNext s i (by decide), clearCommit]
  cases ctrlLands s i <;> simp [ctrlMask, ctrlClear]

/-- The enable is the one of the last write to land. -/
theorem enReg_posedge :
  enReg (posedge s i true)
    = if ctrlLands s i then (s.write.wrData i.axil).getLsbD ctrlEn else enReg s
  := by
  rw [enReg, posedge_ctrlReg, getLsbD_ctrlNext s i (by decide), enReg]
  cases ctrlLands s i <;> simp [ctrlMask, ctrlEn]

/-! ### `STATUS` -/

theorem statusWord_busy :
  (statusWord s i).getLsbD statusBusy = statusBusyBit s i
  := by
  cases hb : statusBusyBit s i <;> cases hd : statusDoneBit s i <;> simp [statusWord, hb, hd]

theorem statusWord_done :
  (statusWord s i).getLsbD statusDone = statusDoneBit s i
  := by
  cases hb : statusBusyBit s i <;> cases hd : statusDoneBit s i <;>
    simp [statusWord, statusDone, hb, hd]

/-- The completion flag is down while a tile is in flight. -/
def Exclusive (s : State) : Prop :=
  s.state ≠ .idle → s.doneQ = false

variable {s}

theorem Exclusive.edge (hs : Exclusive s) :
  Exclusive (posedge s i true)
  := by
  intro hne
  rw [posedge_state, stateNext] at hne
  rw [posedge_doneQ, doneNext]
  cases hst : s.state with
  | idle =>
      cases hp : startPulse s
      · simp [hst, hp] at hne
      · simp
  | clear => apply hs (by simp [hst])
  | run => apply hs (by simp [hst])
  | latch => simp [hst] at hne

theorem exclusive_run (s : State) (i : Inputs) (is : List Inputs) :
  Exclusive (machine.run (reset s i) is)
  := by
  apply machine.run_invariant
  · intro hne
    exact absurd rfl hne
  · intro t j ht
    apply ht.edge

/-- A tile is in flight, or about to be: a START pulse is up with none in flight. -/
def Armed (s : State) : Prop :=
  s.state = .idle → startPulse s = true

/-- No tile is in flight or about to be, and the last one completed. -/
structure Settled (s : State) : Prop where
  state : s.state = .idle
  done : s.doneQ = true
  quiet : startPulse s = false

/-- From the cycle a START commits with a tile in flight, or about to be, `STATUS` shows
the tile in flight. -/
theorem statusWord_of_busy (hs : Exclusive s) (ha : s.state = .idle → startTaken s i = true) :
  statusWord s i = 1#32
  := by
  have hbusy : statusBusyBit s i = true := by
    by_cases hst : s.state = .idle
    · simp [statusBusyBit, ha hst]
    · simp [statusBusyBit, hst]
  have hdone : statusDoneBit s i = false := by
    by_cases hst : s.state = .idle
    · simp [statusDoneBit, ha hst]
    · simp [statusDoneBit, hs hst]
  rw [statusWord, hbusy, hdone]
  rfl

theorem Settled.statusWord (hs : Settled s) (hc : startCommit s i = false) :
  statusWord s i = 2#32
  := by
  have htaken : startTaken s i = false := by
    rw [startTaken_eq, hs.quiet, hc]
    rfl
  have hbusy : statusBusyBit s i = false := by simp [statusBusyBit, hs.state, htaken]
  have hdone : statusDoneBit s i = true := by simp [statusDoneBit, hs.done, htaken]
  rw [SparseCnnAxi.statusWord, hbusy, hdone]
  rfl

/-- A START that commits with no tile in flight arms one. -/
theorem armed_of_startCommit (hc : startCommit s i = true) :
  Armed (posedge s i true)
  := by
  intro _
  rw [startPulse_posedge, hc]

/-- An armed tile stays in flight until it is latched. -/
theorem Armed.edge (ha : Armed s) (hl : s.state ≠ .latch) :
  Armed (posedge s i true)
  := by
  intro hidle
  rw [posedge_state, stateNext] at hidle
  cases hst : s.state with
  | idle => simp [hst, ha hst] at hidle
  | clear => simp [hst] at hidle
  | run =>
      simp only [hst] at hidle
      split at hidle <;> cases hidle
  | latch => exact absurd hst hl

/-- The latching cycle settles the tile, unless a START commits in it. -/
theorem settled_of_latch (hl : s.state = .latch) (hc : startCommit s i = false) :
  Settled (posedge s i true)
  := by
  constructor
  · simp [stateNext, hl]
  · simp [doneNext, hl]
  · rw [startPulse_posedge, hc]

theorem Settled.edge (hs : Settled s) (hc : startCommit s i = false) :
  Settled (posedge s i true)
  := by
  constructor
  · simp [stateNext, hs.state, hs.quiet]
  · simp [doneNext, hs.state, hs.quiet, hs.done]
  · rw [startPulse_posedge, hc]

end SparseCnnAxi
