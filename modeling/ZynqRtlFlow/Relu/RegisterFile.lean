import ZynqRtlFlow.AxiLite.Pairing
import ZynqRtlFlow.AxiLite.Reading
import ZynqRtlFlow.Relu.Stream

/-!
# The register file of the Leaky ReLU

Software sees the registers as one sequential register file: a list of writes, each
applied whole, and reads that see the writes committed in earlier cycles and no other.
Only writes to `CTRL` and `SLOPE` that strobe byte lane 0 have an effect
(`register_file_is_atomic`).
-/

namespace ReluAxi

open AxiLite

/-! ### The register file -/

/-- A committed write: its address, its data and its strobes. -/
abbrev Write : Type := BitVec 8 × BitVec 32 × BitVec 4

/-- The data a write brings to the register `reg`, if it strobes its byte lane 0. -/
def landsOn (reg : BitVec 8) (w : Write) : Option (BitVec 32) :=
  if w.1 == reg && w.2.2.getLsbD 0 then some w.2.1 else none

/-- The low bits of the last of the writes `ws` to land on `reg`, `initial` if there is
none. -/
def lastLanded (reg : BitVec 8) {width : ℕ} (initial : BitVec width) (ws : List Write) :
    BitVec width :=
  ((ws.filterMap (landsOn reg)).getLast?.map (BitVec.setWidth width)).getD initial

/-- The word a read of `addr` gives after the writes `ws`, with the status and the count
of the stream being `status` and `count`. -/
def fileWord (ws : List Write) (status : BitVec 32) (count : BitVec 16) (addr : BitVec 8) :
    BitVec 32 :=
  if addr = regId then idValue
  else if addr = regCtrl then (lastLanded regCtrl 1#1 ws).setWidth 32
  else if addr = regStatus then status
  else if addr = regSlope then (lastLanded regSlope 25#8 ws).setWidth 32
  else if addr = regCount then count.setWidth 32
  else 0

/-- A write has an effect when it strobes byte lane 0 of `CTRL` or of `SLOPE`. -/
def effective (w : Write) : Bool :=
  (w.1 == regCtrl || w.1 == regSlope) && w.2.2.getLsbD 0

theorem lastLanded_concat (reg : BitVec 8) {width : ℕ} (initial : BitVec width)
    (ws : List Write) (o : Option Write) :
  lastLanded reg initial (ws ++ o.toList)
    = ((o.bind (landsOn reg)).map (BitVec.setWidth width)).getD (lastLanded reg initial ws)
  := by
  cases o with
  | none => simp [lastLanded]
  | some w => cases hw : landsOn reg w <;> simp [lastLanded, hw]

/-- A write without effect lands on no register. -/
theorem landsOn_of_ineffective {reg : BitVec 8} (hreg : reg = regCtrl ∨ reg = regSlope)
    {w : Write} (hw : effective w = false) :
  landsOn reg w = none
  := by
  have hboth : (w.1 == reg && w.2.2.getLsbD 0) = false := by
    rw [effective] at hw
    obtain rfl | rfl := hreg
    · cases ha : w.1 == regCtrl <;> simp_all
    · cases ha : w.1 == regSlope <;> simp_all
  rw [landsOn, hboth]
  rfl

theorem bind_filter_landsOn {reg : BitVec 8} (hreg : reg = regCtrl ∨ reg = regSlope)
    (o : Option Write) :
  (o.filter effective).bind (landsOn reg) = o.bind (landsOn reg)
  := by
  cases o with
  | none => rfl
  | some w =>
      cases hw : effective w
      · rw [Option.filter_some_neg (by simp [hw]), Option.bind_some,
          landsOn_of_ineffective hreg hw]
        rfl
      · rw [Option.filter_some_pos hw]

/-! ### Traffic along a history -/

/-- The write that commits in a cycle. -/
def writeOf (s : State) (i : Inputs) : Option Write :=
  if s.write.wrCommit i.axil then
    some (s.write.wrAddr i.axil, s.write.wrData i.axil, s.write.wrStrb i.axil)
  else
    none

/-- The writes committed, in order. -/
def writes (h : List Cycle) : List Write :=
  WriteChannel.commits (h.map writeCycle)

/-- The read channel of a cycle. -/
def readCycle (c : Cycle) : ReadChannel.Cycle :=
  (c.1.read, c.2.axil, rdMux c.1 c.2.axil.araddr)

/-- What the register file gives for every read address accepted, after the writes
committed in earlier cycles. -/
def answers (h : List Cycle) : List (BitVec 32) :=
  (withPast h).filterMap fun p =>
    if p.2.1.read.arFire p.2.2.axil then
      some (fileWord (writes p.1) (statusWord p.2.1) p.2.1.countQ p.2.2.axil.araddr)
    else
      none

/-- The words handed over on the read channel, in order. -/
def rBeats (h : List Cycle) : List (BitVec 32) :=
  ReadChannel.handedOver (h.map readCycle)

theorem writes_concat (h : List Cycle) (s : State) (i : Inputs) :
  writes (h ++ [(s, i)]) = writes h ++ (writeOf s i).toList
  := by
  rw [writes, List.map_append, List.map_singleton, writeCycle, Prod.map_apply,
    WriteChannel.commits_concat, writeOf, writes, writeCycle]
  split
  · rfl
  · rfl

theorem answers_concat (h : List Cycle) (s : State) (i : Inputs) :
  answers (h ++ [(s, i)])
    = answers h ++ if s.read.arFire i.axil
      then [fileWord (writes h) (statusWord s) s.countQ i.axil.araddr] else []
  := by
  cases hf : s.read.arFire i.axil <;> simp [answers, hf]

/-! ### The registers follow the file -/

/-- The reserved bits of `CTRL` are 0. -/
def Reserved (s : State) : Prop :=
  ∀ k, 1 ≤ k → s.ctrlReg.getLsbD k = false

/-- A strobed update of `CTRL` takes bit 0 of the data if byte lane 0 is strobed, and
changes nothing otherwise. -/
theorem writeBytes_ctrlMask {word : BitVec 32} (hw : ∀ k, 1 ≤ k → word.getLsbD k = false)
    (strb : BitVec 4) (data : BitVec 32) :
  writeBytes ctrlMask strb data word
    = if strb.getLsbD 0 then (data.setWidth 1).setWidth 32 else word
  := by
  have hmask : ∀ k < 32, ctrlMask.getLsbD k = decide (k < 1) := by decide
  apply BitVec.eq_of_getLsbD_eq
  intro k hk
  rw [getLsbD_writeBytes _ _ _ _ hk, hmask k hk]
  obtain rfl | hpos := Nat.eq_zero_or_pos k
  · cases hstrb : strb.getLsbD 0 <;> simp
  · have hdata : ((data.setWidth 1).setWidth 32).getLsbD k = false := by
      rw [BitVec.getLsbD_setWidth, BitVec.getLsbD_setWidth]
      simp
      omega
    have hlt : ¬ k < 1 := by omega
    cases hstrb : strb.getLsbD 0 <;> simp [hw k hpos, hdata, hlt]

/-- `CTRL` after an edge: bit 0 of the write that lands on it in the cycle, or the old
word. -/
theorem ctrlReg_posedge {s : State} (hs : Reserved s) (i : Inputs) :
  (posedge s i true).ctrlReg
    = (((writeOf s i).bind (landsOn regCtrl)).map fun data => (data.setWidth 1).setWidth 32).getD
        s.ctrlReg
  := by
  rw [posedge_ctrlReg, ctrlNext, ctrlWr, writeOf, writeBytes_ctrlMask hs]
  cases hc : s.write.wrCommit i.axil
  · rfl
  · rw [if_pos rfl, Option.bind_some, landsOn, Bool.true_and]
    cases ha : s.write.wrAddr i.axil == regCtrl
    · rfl
    · cases hstrb : (s.write.wrStrb i.axil).getLsbD 0
      · rfl
      · rfl

/-- `SLOPE` after an edge: the low bits of the write that lands on it in the cycle, or the
old value. -/
theorem slopeReg_posedge_landsOn (s : State) (i : Inputs) :
  (posedge s i true).slopeReg
    = (((writeOf s i).bind (landsOn regSlope)).map (BitVec.setWidth 8)).getD s.slopeReg
  := by
  rw [slopeReg_posedge, slopeLands, slopeWr, writeOf]
  cases hc : s.write.wrCommit i.axil
  · rfl
  · rw [if_pos rfl, Option.bind_some, landsOn, Bool.true_and]
    cases ha : s.write.wrAddr i.axil == regSlope
    · rfl
    · cases hstrb : (s.write.wrStrb i.axil).getLsbD 0
      · rfl
      · rfl

/-- The registers hold what the file holds after the writes of the history, and the reads
have been answered from the file. -/
structure Follows (h : List Cycle) (s : State) : Prop where
  ctrl : s.ctrlReg = (lastLanded regCtrl 1#1 (writes h)).setWidth 32
  slope : s.slopeReg = lastLanded regSlope 25#8 (writes h)
  reads : answers h = rBeats h ++ ReadChannel.outstanding s.read

theorem Follows.reserved {h : List Cycle} {s : State} (hs : Follows h s) :
  Reserved s
  := by
  intro k hk
  rw [hs.ctrl, BitVec.getLsbD_setWidth, BitVec.getLsbD_of_ge _ _ hk, Bool.and_false]

/-- A read sees the writes committed in earlier cycles. -/
theorem Follows.rdMux_eq {h : List Cycle} {s : State} (hs : Follows h s) (addr : BitVec 8) :
  rdMux s addr = fileWord (writes h) (statusWord s) s.countQ addr
  := by
  rw [rdMux, fileWord, hs.ctrl, hs.slope]

theorem Follows.edge {h : List Cycle} {s : State} (hs : Follows h s) (i : Inputs) :
  Follows (h ++ [(s, i)]) (posedge s i true)
  := by
  constructor
  · rw [ctrlReg_posedge hs.reserved, writes_concat, lastLanded_concat, hs.ctrl]
    cases (writeOf s i).bind (landsOn regCtrl) with
    | none => rfl
    | some data => rfl
  · rw [slopeReg_posedge_landsOn, writes_concat, lastLanded_concat, hs.slope]
  · have hedge := ReadChannel.outstanding_edge s.read i.axil (rdMux s i.axil.araddr)
    rw [answers_concat, hs.reads, ← hs.rdMux_eq, List.append_assoc, hedge, posedge_read,
      rBeats, rBeats, List.map_append, List.map_singleton, readCycle,
      ReadChannel.handedOver_concat, List.append_assoc]

theorem follows_run (s : State) (i : Inputs) (is : List Inputs) :
  Follows (machine.history (reset s i) is) (machine.run (reset s i) is)
  := by
  apply machine.history_induction (P := Follows)
  · constructor
    · rfl
    · rfl
    · rfl
  · intro h t j hs
    apply hs.edge

/-! ### Writes without effect -/

/-- What a cycle brings to the registers and to the stream: the write with an effect that
commits in it, and the inputs of both streams. -/
def influence (c : Cycle) : Option Write × BitVec 8 × Bool × Bool × Bool :=
  ((writeOf c.1 c.2).filter effective, c.2.sTdata, c.2.sTvalid, c.2.sTlast, c.2.mTready)

/-- What a cycle shows on both streams: ready, and the beat presented. -/
def streamOut (c : Cycle) : Bool × Bool × Beat :=
  (sTready c.1 c.2, c.1.outValidQ, beatOut c.1)

/-- Two states that differ at most in the two channels of the register port. -/
def SameRegisters (s t : State) : Prop :=
  s = { t with write := s.write, read := s.read }

theorem landsOn_eq_of_influence {s t : State} {i j : Inputs}
    (hij : influence (s, i) = influence (t, j)) {reg : BitVec 8}
    (hreg : reg = regCtrl ∨ reg = regSlope) :
  (writeOf s i).bind (landsOn reg) = (writeOf t j).bind (landsOn reg)
  := by
  simp only [influence, Prod.mk.injEq] at hij
  rw [← bind_filter_landsOn hreg (writeOf s i), hij.1, bind_filter_landsOn hreg]

namespace SameRegisters

variable {s t : State} (h : SameRegisters s t) {i j : Inputs}
  (hij : influence (s, i) = influence (t, j))

include h hij

theorem sTready_eq :
  sTready s i = sTready t j
  := by
  simp only [influence, Prod.mk.injEq] at hij
  rw [h, sTready, sTready, hij.2.2.2.2]
  rfl

theorem streamOut_eq :
  streamOut (s, i) = streamOut (t, j)
  := by
  rw [streamOut, streamOut, h.sTready_eq hij, h]
  rfl

theorem inFire_eq :
  inFire s i = inFire t j
  := by
  have hready := h.sTready_eq hij
  simp only [influence, Prod.mk.injEq] at hij
  rw [inFire, inFire, hready, hij.2.2.1]

theorem outFire_eq :
  outFire s i = outFire t j
  := by
  simp only [influence, Prod.mk.injEq] at hij
  rw [h, outFire, outFire, hij.2.2.2.2]

theorem tileDone_eq :
  tileDone s i = tileDone t j
  := by
  rw [tileDone, tileDone, h.outFire_eq hij, h]

theorem activated_eq :
  activated s i = activated t j
  := by
  simp only [influence, Prod.mk.injEq] at hij
  rw [activated, activated, hij.2.1, h]

theorem edge (hs : Reserved s) (ht : Reserved t) :
  SameRegisters (posedge s i true) (posedge t j true)
  := by
  have hctrl : ctrlNext s i = ctrlNext t j := by
    rw [← posedge_ctrlReg, ← posedge_ctrlReg, ctrlReg_posedge hs, ctrlReg_posedge ht,
      landsOn_eq_of_influence hij (Or.inl rfl), h]
  have hslope : slopeNext s i = slopeNext t j := by
    rw [← posedge_slopeReg, ← posedge_slopeReg, slopeReg_posedge_landsOn,
      slopeReg_posedge_landsOn, landsOn_eq_of_influence hij (Or.inr rfl), h]
  have hin := h.inFire_eq hij
  have hout := h.outFire_eq hij
  have hdone := h.tileDone_eq hij
  have hact := h.activated_eq hij
  have hlast : i.sTlast = j.sTlast := by
    simp only [influence, Prod.mk.injEq] at hij
    apply hij.2.2.2.1
  rw [SameRegisters, posedge, posedge]
  simp only [outValidNext, outLastNext, outDataNext, busyNext, doneNext, countNext, beatsNext,
    hctrl, hslope, hin, hout, hdone, hact, hlast]
  rw [h]

end SameRegisters

/-- Two runs in which the same writes with an effect commit in the same cycles, with the
same stream inputs, go through the same registers and show the same streams. -/
theorem streamOut_eq_of_influence {h₁ h₂ : List Cycle} {s t : State} (hs : Follows h₁ s)
    (ht : Follows h₂ t) (h : SameRegisters s t) (is js : List Inputs)
    (hi : (machine.history s is).map influence = (machine.history t js).map influence) :
  SameRegisters (machine.run s is) (machine.run t js)
    ∧ (machine.history s is).map streamOut = (machine.history t js).map streamOut
  := by
  induction is generalizing h₁ h₂ s t js with
  | nil =>
      cases js with
      | nil => exact ⟨h, rfl⟩
      | cons j js => cases hi
  | cons i is ih =>
      cases js with
      | nil => cases hi
      | cons j js =>
          simp only [Machine.history_cons, List.map_cons, List.cons.injEq] at hi ⊢
          have hnext := h.edge hi.1 hs.reserved ht.reserved
          obtain ⟨hrun, hout⟩ := ih (hs.edge i) (ht.edge j) hnext js hi.2
          use hrun, h.streamOut_eq hi.1, hout

/-! ### The claim of the register map -/

/-- What a history `h` that ends in the state `t` says of the register port: the committed
writes pair addresses and data once each; every address accepted on the read channel is
answered by one word, in order, and with what the register file holds after the writes
committed in earlier cycles; the word comes in the next cycle, is held unchanged until it
is taken, and is then gone; and writes without effect are never noticed. -/
structure AtomicFile (h : List Cycle) (t : State) : Prop where
  paired : WriteChannel.PairsOnce (h.map writeCycle) t.write
  answered : answers h = rBeats h ++ ReadChannel.outstanding t.read
  one : (ReadChannel.outstanding t.read).length ≤ 1
  prompt : ∀ j : Inputs, t.read.arFire j.axil = true →
    (posedge t j true).read
      = ⟨true, fileWord (writes h) (statusWord t) t.countQ j.axil.araddr⟩
  held : ∀ j : Inputs, t.read.rvalidQ = true → j.axil.rready = false →
    (posedge t j true).read = t.read
  taken : ∀ j : Inputs, t.read.rvalidQ = true → j.axil.rready = true →
    (posedge t j true).read.rvalidQ = false
  ignored : ∀ (j : Inputs) (w : Write), writeOf t j = some w → effective w = false →
    (posedge t j true).ctrlReg = t.ctrlReg ∧ (posedge t j true).slopeReg = t.slopeReg
  unnoticed : ∀ (s : State) (i : Inputs) (is : List Inputs),
    h.map influence = (machine.history (reset s i) is).map influence →
    SameRegisters t (machine.run (reset s i) is)
      ∧ h.map streamOut = (machine.history (reset s i) is).map streamOut

/-- After every run from reset the registers have behaved as one atomic register file. -/
theorem register_file_is_atomic (s : State) (i : Inputs) (is : List Inputs) :
  AtomicFile (machine.history (reset s i) is) (machine.run (reset s i) is)
  := by
  have hf := follows_run s i is
  constructor
  · apply (ledger s i is).pairsOnce
  · apply hf.reads
  · apply ReadChannel.length_outstanding
  · intro j hj
    rw [← hf.rdMux_eq]
    apply ReadChannel.posedge_of_arFire hj
  · intro j hv hr
    apply ReadChannel.posedge_of_waiting hv hr
  · intro j hv hr
    apply ReadChannel.posedge_of_taken hv hr
  · intro j w hw heff
    rw [ctrlReg_posedge hf.reserved, slopeReg_posedge_landsOn, hw, Option.bind_some,
      Option.bind_some, landsOn_of_ineffective (Or.inl rfl) heff,
      landsOn_of_ineffective (Or.inr rfl) heff]
    constructor
    · rfl
    · rfl
  · intro s' i' is' hi
    apply streamOut_eq_of_influence (follows_run s i []) (follows_run s' i' []) rfl is is' hi

end ReluAxi
