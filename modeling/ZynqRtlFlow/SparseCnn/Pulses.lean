import ZynqRtlFlow.SparseCnn.Status

/-!
# What software reads of the pulses

The register map says that START and CLEAR read back as 0 and that CLEAR zeroes `ACC` and
`SKIP` immediately.  A pulse is a bit of `CTRL` in the one cycle after its write commits,
and a CLEAR reaches the results at the end of that cycle.  A read accepted in that cycle
returns the pulse (`ctrl_reads_level_iff`), and the results of before the CLEAR
(`clear_reads_zero_iff`); a read accepted in any other cycle returns what the register
map says.
-/

namespace SparseCnnAxi

open AxiLite

/-- An accepted read returns the word its address selects, and no other. -/
theorem readReturns_iff {s : State} {i : Inputs} {addr : BitVec 8}
    (hfire : s.read.arFire i.axil = true) (haddr : i.axil.araddr = addr) (word : BitVec 32) :
  ReadReturns s i addr word ↔ rdMux s i addr = word
  := by
  have hmux := readReturns_rdMux s i addr
  constructor
  · intro h
    have hw := (hmux hfire haddr [] (by simp)).symm.trans (h hfire haddr [] (by simp))
    injection hw
  · rintro rfl
    apply hmux

/-! ### `CTRL` -/

/-- A START or a CLEAR commits in this cycle. -/
def pulseCommit (s : State) (i : Inputs) : Bool :=
  startCommit s i || clearCommit s i

/-- The word with the enable bit set or clear, as a read-modify-write of EN gives it. -/
def setEn (en : Bool) (word : BitVec 32) : BitVec 32 :=
  if en then word ||| (1#32 <<< ctrlEn) else word &&& ~~~(1#32 <<< ctrlEn)

/-- What the register map says of a word read from `CTRL`: START, CLEAR and the reserved
bits are 0, EN is the level, and writing the word back, with EN changed or not, triggers
nothing. -/
structure ReadsLevel (en : Bool) (word : BitVec 32) : Prop where
  start : word.getLsbD ctrlStart = false
  clear : word.getLsbD ctrlClear = false
  enable : word.getLsbD ctrlEn = en
  reserved : ∀ k, 3 ≤ k → word.getLsbD k = false
  rewrite : ∀ (t : State) (j : Inputs) (b : Bool), t.write.wrData j.axil = setEn b word →
    pulseCommit t j = false

theorem getLsbD_setEn {k : ℕ} (hk : k < 2) (b : Bool) (word : BitVec 32) :
  (setEn b word).getLsbD k = word.getLsbD k
  := by
  have hbit : (1#32 <<< ctrlEn).getLsbD k = false := by
    have h01 : k = 0 ∨ k = 1 := by omega
    obtain rfl | rfl := h01
    · rfl
    · rfl
  have hk32 : k < 32 := by omega
  cases b with
  | false =>
      rw [setEn, if_neg (by decide), BitVec.getLsbD_and, BitVec.getLsbD_not, hbit]
      simp [hk32]
  | true => rw [setEn, if_pos rfl, BitVec.getLsbD_or, hbit, Bool.or_false]

/-- A write whose data have both pulses low triggers nothing. -/
theorem pulseCommit_of_low {t : State} {j : Inputs}
    (hstart : (t.write.wrData j.axil).getLsbD ctrlStart = false)
    (hclear : (t.write.wrData j.axil).getLsbD ctrlClear = false) :
  pulseCommit t j = false
  := by
  rw [pulseCommit, startCommit, clearCommit, hstart, hclear, Bool.and_false]
  rfl

theorem ReadsLevel.of_bits {en : Bool} {word : BitVec 32}
    (hstart : word.getLsbD ctrlStart = false) (hclear : word.getLsbD ctrlClear = false)
    (hen : word.getLsbD ctrlEn = en) (hrest : ∀ k, 3 ≤ k → word.getLsbD k = false) :
  ReadsLevel en word
  := by
  constructor
  · apply hstart
  · apply hclear
  · apply hen
  · apply hrest
  · intro t j b hdata
    apply pulseCommit_of_low
    · rw [hdata, getLsbD_setEn (by decide), hstart]
    · rw [hdata, getLsbD_setEn (by decide), hclear]

/-- The reserved bits of `CTRL` are 0 after every run from reset. -/
theorem ctrlReg_reserved (s : State) (i₀ : Inputs) (is : List Inputs) {k : ℕ} (hk : 3 ≤ k) :
  (machine.run (reset s i₀) is).ctrlReg.getLsbD k = false
  := by
  obtain hlarge | hsmall := Nat.lt_or_ge 31 k
  · apply BitVec.getLsbD_of_ge
    apply hlarge
  · have hmask : ctrlMask.getLsbD k = false := by
      have hall : ∀ k < 32, 3 ≤ k → ctrlMask.getLsbD k = false := by decide
      apply hall k _ hk
      omega
    have hreset : ctrlReset.getLsbD k = false := by
      have hall : ∀ k < 32, 3 ≤ k → ctrlReset.getLsbD k = false := by decide
      apply hall k _ hk
      omega
    apply machine.run_invariant (P := fun t => t.ctrlReg.getLsbD k = false)
    · apply hreset
    · intro t i ht
      rw [machine_next, posedge_ctrlReg, ctrlNext]
      split
      · rw [getLsbD_writeBytes _ _ _ _ (by omega), hmask, Bool.and_false, BitVec.getLsbD_and, ht]
        simp
      · rw [BitVec.getLsbD_and, ht, Bool.false_and]

/-- A pulse is up exactly when the cycle before committed it. -/
theorem pulses_low_iff (s : State) (i₀ : Inputs) (is : List Inputs) :
  (startPulse (machine.run (reset s i₀) is) = false
      ∧ clearPulse (machine.run (reset s i₀) is) = false)
    ↔ ∀ c, (machine.history (reset s i₀) is).getLast? = some c → pulseCommit c.1 c.2 = false
  := by
  induction is using List.reverseRecOn with
  | nil =>
      constructor
      · rintro - c hc
        cases hc
      · rintro -
        change ctrlReset.getLsbD ctrlStart = false ∧ ctrlReset.getLsbD ctrlClear = false
        decide
  | append_singleton is i _ =>
      rw [Machine.run_concat, Machine.history_concat, machine_next, startPulse_posedge,
        clearPulse_posedge, List.getLast?_concat]
      simp [pulseCommit]

/-- In every run from reset, an accepted read of `CTRL` returns the word the register map
promises exactly when the cycle before committed neither a START nor a CLEAR. -/
theorem ctrl_reads_level_iff (s : State) (i₀ : Inputs) (is : List Inputs) (i : Inputs)
    (hfire : (machine.run (reset s i₀) is).read.arFire i.axil = true)
    (haddr : i.axil.araddr = regCtrl) :
  (∃ word, ReadReturns (machine.run (reset s i₀) is) i regCtrl word
      ∧ ReadsLevel (enReg (machine.run (reset s i₀) is)) word)
    ↔ ∀ c, (machine.history (reset s i₀) is).getLast? = some c → pulseCommit c.1 c.2 = false
  := by
  have hword : rdMux (machine.run (reset s i₀) is) i regCtrl
      = (machine.run (reset s i₀) is).ctrlReg := rfl
  rw [← pulses_low_iff]
  constructor
  · rintro ⟨word, hret, hlevel⟩
    rw [readReturns_iff hfire haddr, hword] at hret
    rw [startPulse, clearPulse, hret]
    use hlevel.start, hlevel.clear
  · rintro ⟨hstart, hclear⟩
    use (machine.run (reset s i₀) is).ctrlReg
    rw [readReturns_iff hfire haddr]
    use hword
    apply ReadsLevel.of_bits hstart hclear rfl
    intro k hk
    apply ctrlReg_reserved s i₀ is hk

/-- A cycle that presents a read of `addr`. -/
def readCycle (addr : BitVec 8) : Inputs :=
  { quiet with axil := ⟨0, false, 0, 0, false, true, addr, true, true⟩ }

/-- `CTRL` read after a START has been answered. -/
theorem ctrl_level_after_start :
  ∃ word, ReadReturns (machine.run (reset zero quiet) [ctrlCycle 5, quiet]) (readCycle regCtrl)
      regCtrl word
    ∧ ReadsLevel (enReg (machine.run (reset zero quiet) [ctrlCycle 5, quiet])) word
  :=
  (ctrl_reads_level_iff zero quiet [ctrlCycle 5, quiet] (readCycle regCtrl) (by decide)
    (by decide)).mpr (by decide)

/-- A read of `CTRL` accepted in the cycle after a START and a CLEAR commit returns
both. -/
theorem ctrl_shows_pulses :
  ¬ ∀ (s : State) (i₀ : Inputs) (is : List Inputs) (i : Inputs),
    (machine.run (reset s i₀) is).read.arFire i.axil = true → i.axil.araddr = regCtrl →
    ∃ word, ReadReturns (machine.run (reset s i₀) is) i regCtrl word
      ∧ ReadsLevel (enReg (machine.run (reset s i₀) is)) word
  := by
  intro h
  obtain ⟨word, hret, hlevel⟩ := h zero quiet [ctrlCycle 7] (readCycle regCtrl) (by decide)
    (by decide)
  rw [readReturns_iff (by decide) (by decide)] at hret
  have hstart := hlevel.start
  rw [← hret] at hstart
  revert hstart
  decide

/-! ### `ACC` and `SKIP` -/

/-- The result register at an offset, as software reads it: `ACC`, or else `SKIP`. -/
def result (s : State) (addr : BitVec 8) : BitVec 32 :=
  if addr = regAcc then s.accQ else s.skipQ.setWidth 32

/-- The result a tile would leave if it were latched now. -/
def peResult (s : State) (addr : BitVec 8) : BitVec 32 :=
  if addr = regAcc then s.pe.acc else s.pe.skipCount.setWidth 32

/-- No result stands or is coming in this cycle: an earlier CLEAR is being pulsed, or a
result of 0 is being latched, or the result register holds 0 and nothing is latched. -/
def ResultEmpty (s : State) (addr : BitVec 8) : Prop :=
  clearPulse s = true ∨ (if s.state = .latch then peResult s addr else result s addr) = 0

instance (s : State) (addr : BitVec 8) : Decidable (ResultEmpty s addr) :=
  inferInstanceAs (Decidable (_ ∨ _))

theorem rdMux_result (s : State) (i : Inputs) {addr : BitVec 8}
    (haddr : addr = regAcc ∨ addr = regSkip) :
  rdMux s i addr = result s addr
  := by
  obtain rfl | rfl := haddr
  · rfl
  · rfl

theorem result_posedge (s : State) (i : Inputs) (addr : BitVec 8) :
  result (posedge s i true) addr
    = if clearPulse s then 0 else if s.state = .latch then peResult s addr else result s addr
  := by
  rw [result, result, peResult, posedge_accQ, posedge_skipQ, accNext, skipNext]
  split
  · rfl
  · split
    · rfl
    · split
      · rfl
      · rfl

/-- The result register is empty after a cycle exactly when the cycle leaves none. -/
theorem result_posedge_eq_zero_iff (s : State) (i : Inputs) (addr : BitVec 8) :
  result (posedge s i true) addr = 0 ↔ ResultEmpty s addr
  := by
  rw [result_posedge, ResultEmpty]
  cases clearPulse s
  · simp
  · simp

/-- An empty result register stays empty until a tile is latched. -/
theorem result_run_eq_zero {s : State} {addr : BitVec 8} (hz : result s addr = 0)
    (ks : List Inputs) (hl : ∀ c ∈ machine.history s ks, c.1.state ≠ .latch) :
  result (machine.run s ks) addr = 0
  := by
  induction ks generalizing s with
  | nil => apply hz
  | cons k ks ih =>
      rw [Machine.history_cons, List.forall_mem_cons] at hl
      apply ih _ hl.2
      rw [machine_next, result_posedge_eq_zero_iff, ResultEmpty, if_neg hl.1]
      right
      apply hz

/-- A CLEAR empties the results at the end of the cycle after its commit, and they stay
empty until a later tile is latched. -/
theorem result_after_clear {s : State} {i : Inputs} (hc : clearCommit s i = true)
    (k : Inputs) (ks : List Inputs) (addr : BitVec 8)
    (hl : ∀ c ∈ (machine.history s (i :: k :: ks)).drop 2, c.1.state ≠ .latch) :
  result (machine.run s (i :: k :: ks)) addr = 0
  := by
  rw [Machine.run_cons, Machine.run_cons]
  apply result_run_eq_zero _ ks hl
  rw [machine_next, machine_next, result_posedge_eq_zero_iff]
  left
  rw [clearPulse_posedge, hc]

/-- In every run from reset, take a CLEAR that commits with inputs `i` and a read of `ACC`
or `SKIP` accepted with inputs `r` after the cycles `ks` that follow, no tile being latched
in a cycle after the CLEAR's pulse and before the read.  The read returns 0 exactly when it
is not accepted in the cycle of the pulse, or no result stood or was coming in the cycle of
the commit. -/
theorem clear_reads_zero_iff (s : State) (i₀ : Inputs) (is : List Inputs) (i : Inputs)
    (ks : List Inputs) (r : Inputs) (addr : BitVec 8) (haddr : addr = regAcc ∨ addr = regSkip)
    (hc : clearCommit (machine.run (reset s i₀) is) i = true)
    (hl : ∀ c ∈ (machine.history (machine.run (reset s i₀) is) (i :: ks)).drop 2,
      c.1.state ≠ .latch)
    (hfire : (machine.run (machine.run (reset s i₀) is) (i :: ks)).read.arFire r.axil = true)
    (hr : r.axil.araddr = addr) :
  ReadReturns (machine.run (machine.run (reset s i₀) is) (i :: ks)) r addr 0
    ↔ (ks ≠ [] ∨ ResultEmpty (machine.run (reset s i₀) is) addr)
  := by
  rw [readReturns_iff hfire hr, rdMux_result _ _ haddr]
  cases ks with
  | nil =>
      rw [Machine.run_cons, Machine.run_nil, machine_next, result_posedge_eq_zero_iff]
      simp
  | cons k ks =>
      rw [result_after_clear hc k ks addr hl]
      simp

/-- A CLEAR while a tile's last beat is accepted: the tile's results do not reappear. -/
theorem clear_with_last_beat :
  ReadReturns
    (machine.run (machine.run (reset zero quiet) [ctrlCycle 5, quiet, quiet])
      [{ ctrlCycle 6 with tdata := 0x0302, tvalid := true, tlast := true }, quiet, quiet])
    (readCycle regAcc) regAcc 0
  :=
  (clear_reads_zero_iff zero quiet [ctrlCycle 5, quiet, quiet]
    { ctrlCycle 6 with tdata := 0x0302, tvalid := true, tlast := true } [quiet, quiet]
    (readCycle regAcc) regAcc (by decide) (by decide) (by decide) (by decide)
    (by decide)).mpr (Or.inl (by decide))

/-- A read of `ACC` accepted in the cycle after a CLEAR commits returns the result of the
tile before it. -/
theorem clear_leaves_result_one_cycle :
  ¬ ∀ (s : State) (i₀ : Inputs) (is : List Inputs) (i : Inputs) (ks : List Inputs)
    (r : Inputs) (addr : BitVec 8), (addr = regAcc ∨ addr = regSkip) →
    clearCommit (machine.run (reset s i₀) is) i = true →
    (∀ c ∈ (machine.history (machine.run (reset s i₀) is) (i :: ks)).drop 2,
      c.1.state ≠ .latch) →
    (machine.run (machine.run (reset s i₀) is) (i :: ks)).read.arFire r.axil = true →
    r.axil.araddr = addr →
    ReadReturns (machine.run (machine.run (reset s i₀) is) (i :: ks)) r addr 0
  := by
  intro h
  have hret := h zero quiet [ctrlCycle 5, quiet, quiet, lastBeatCycle 0x0302, quiet]
    (ctrlCycle 6) [] (readCycle regAcc) regAcc (by decide) (by decide) (by decide) (by decide)
    (by decide)
  rw [readReturns_iff (by decide) (by decide)] at hret
  revert hret
  decide

end SparseCnnAxi
