import ZynqRtlFlow.AxiLite.Effects
import ZynqRtlFlow.AxiLite.Reading
import ZynqRtlFlow.Rtl.Reset

/-!
# The accelerator contract

What every accelerator presents on its register port, whatever its registers are: each
read is answered once, in order, with `OKAY`; offset 0 reads as the design's ID and an
offset without a register as zero; and of the writes nothing is noticed but what they
bring to the fields that software can write, so writes to any other offset are ignored.
Nothing else is asked of a register map, and both accelerators keep it
(`accelerators_keep_contract`).
-/

open AxiLite WriteChannel

namespace Design

variable (D : Design)

/-- The read channel in a cycle. -/
def readCycle (c : D.State × D.Inputs) : ReadChannel.Cycle :=
  (D.read c.1, D.axil c.2, D.word c.1 c.2 (D.axil c.2).araddr)

/-- The addresses accepted on the read channel, each with the word of its cycle. -/
def requests (h : List (D.State × D.Inputs)) : List (BitVec 8 × BitVec 32) :=
  h.filterMap fun c =>
    if (D.read c.1).arFire (D.axil c.2) then
      some ((D.axil c.2).araddr, D.word c.1 c.2 (D.axil c.2).araddr)
    else
      none

/-- The words handed over on the read channel. -/
def answers (h : List (D.State × D.Inputs)) : List (BitVec 32) :=
  ReadChannel.handedOver (h.map D.readCycle)

/-- Two cycles in which the same is driven but for what the writes say, and in which the
same lands. -/
structure Alike (fields : Fields) (c d : D.State × D.Inputs × Bool) : Prop where
  axil : (D.axil c.2.1).Alike (D.axil d.2.1)
  stream : D.stream c.2.1 = D.stream d.2.1
  aresetn : c.2.2 = d.2.2
  landing : c.2.2 = true → (D.write c.1).landing fields (D.axil c.2.1)
    = (D.write d.1).landing fields (D.axil d.2.1)

/-- The contract of the register port, with the design's ID, the fields that software can
write and the offsets of the registers. -/
structure KeepsContract (id : BitVec 32) (fields : Fields) (registers : List (BitVec 8)) : Prop where
  okay : ∀ s i, (D.port (D.outputs s i)).bresp = 0 ∧ (D.port (D.outputs s i)).rresp = 0
  answered : ∀ s i is, (D.requests (D.machine.history (D.posedge s i false) is)).map Prod.snd
    = D.answers (D.machine.history (D.posedge s i false) is)
      ++ (D.read (D.machine.run (D.posedge s i false) is)).outstanding
  identified : ∀ s i is x, x ∈ D.requests (D.machine.history (D.posedge s i false) is) →
    x.1 = 0 → x.2 = id
  unmapped : ∀ s i is x, x ∈ D.requests (D.machine.history (D.posedge s i false) is) →
    x.1 ∉ registers → x.2 = 0
  unnoticed : ∀ s i s' i' cs cs',
    List.Forall₂ (D.Alike fields) (D.resettable.history (D.posedge s i false) cs)
      (D.resettable.history (D.posedge s' i' false) cs') →
    D.ports (D.posedge s i false) cs = D.ports (D.posedge s' i' false) cs'

variable {D}

theorem map_snd_requests (h : List (D.State × D.Inputs)) :
  (D.requests h).map Prod.snd = ReadChannel.accepted (h.map D.readCycle)
  := by
  rw [requests, ReadChannel.accepted, List.map_filterMap, List.filterMap_map]
  apply List.filterMap_congr
  intro c _
  cases hf : (D.read c.1).arFire (D.axil c.2) <;> simp [readCycle, hf]

/-- The words of a read channel that takes the word of its cycle are the answers. -/
theorem answered_of (hread : ∀ s i, D.read (D.posedge s i true)
      = (D.read s).posedge (D.axil i) true (D.word s i (D.axil i).araddr))
    {s : D.State} (hs : (D.read s).rvalidQ = false) (is : List D.Inputs) :
  (D.requests (D.machine.history s is)).map Prod.snd
    = D.answers (D.machine.history s is) ++ (D.read (D.machine.run s is)).outstanding
  := by
  rw [map_snd_requests]
  apply ReadChannel.answered_run (m := D.machine) hread hs

/-- What holds of every word holds of the words requested. -/
theorem requests_of {P : BitVec 8 → BitVec 32 → Prop} (hP : ∀ s i addr, P addr (D.word s i addr))
    (h : List (D.State × D.Inputs)) {x : BitVec 8 × BitVec 32} (hx : x ∈ D.requests h) :
  P x.1 x.2
  := by
  obtain ⟨c, -, hc⟩ := List.mem_filterMap.mp hx
  split at hc
  · obtain rfl := Option.some.inj hc
    apply hP
  · cases hc

/-- Two states, one of them as `I` says, that are the same but for the payloads of the
pending writes. -/
structure Shadows (D : Design) (I : D.State → Prop) (s t : D.State) : Prop
    extends D.Same InStep s t where
  kept : I t

/-- After a reset two states are the same but for payloads. -/
theorem Resets.shadows (hD : D.Resets) {I : D.State → Prop} (hI : ∀ s i, I (D.posedge s i false))
    (s t : D.State) (i j : D.Inputs) :
  D.Shadows I (D.posedge s i false) (D.posedge t j false)
  := by
  obtain ⟨hwrite, hrest⟩ := hD.indistinct s t i j
  exact ⟨⟨hwrite.toInStep, hrest⟩, hI t j⟩

/-- A module keeps the contract if it answers with the word of the cycle, and if what it
drives is determined by what is alike in two runs. -/
theorem keepsContract_of {id : BitVec 32} {fields : Fields} {registers : List (BitVec 8)}
    {I : D.State → Prop} (hD : D.Resets)
    (hport : ∀ s i, D.port (D.outputs s i) = AxiLite.outputs (D.write s) (D.read s))
    (hread : ∀ s i, D.read (D.posedge s i true)
      = (D.read s).posedge (D.axil i) true (D.word s i (D.axil i).araddr))
    (hstart : ∀ s i, (D.read (D.posedge s i false)).rvalidQ = false)
    (hid : ∀ s i, D.word s i 0 = id)
    (hunmapped : ∀ s i addr, addr ∉ registers → D.word s i addr = 0)
    (hI : ∀ s i aresetn, (aresetn = true → I s) → I (D.posedge s i aresetn))
    (hedge : ∀ s t i j, D.Shadows I s t → D.Alike fields (s, i, true) (t, j, true) →
      D.posedge s i true = D.withWrite (D.posedge t j true) (D.write (D.posedge s i true)))
    (houtputs : ∀ s t i j, D.Shadows I s t → D.stream i = D.stream j →
      D.outputs s i = D.outputs t j) :
  D.KeepsContract id fields registers
  := by
  have hreset : ∀ s i t j, D.Shadows I (D.posedge s i false) (D.posedge t j false) := by
    intro s i t j
    apply hD.shadows
    intro s i
    apply hI s i false
    rintro ⟨⟩
  constructor
  · intro s i
    rw [hport]
    exact ⟨rfl, rfl⟩
  · intro s i is
    apply answered_of hread (hstart s i)
  · intro s i is x hx
    apply requests_of (D := D) (P := fun addr word => addr = 0 → word = id) _ _ hx
    rintro s i _ rfl
    apply hid
  · intro s i is x hx
    apply requests_of (D := D) (P := fun addr word => addr ∉ registers → word = 0) _ _ hx
    apply hunmapped
  · intro s i s' i' cs cs' halike
    refine D.resettable.outputs_eq_of_alike (R := D.Shadows I) ?_ ?_ (hreset s i s' i') halike
    · rintro s t ⟨i, r⟩ ⟨j, r'⟩ h hcd
      obtain rfl : r = r' := hcd.aresetn
      cases r with
      | true =>
          refine ⟨⟨?_, hedge s t i j h hcd⟩, hI t j true fun _ => h.kept⟩
          change InStep (D.write (D.posedge s i true)) (D.write (D.posedge t j true))
          rw [hD.write, hD.write]
          apply h.write.edge hcd.axil
      | false => apply hreset
    · intro s t c d h hcd
      apply houtputs s t c.1 d.1 h hcd.stream

/-- What lands on a register, in two cycles that are alike. -/
theorem Alike.landsOn_eq {fields : Fields} {s t : D.State} {i j : D.Inputs}
    (h : D.Alike fields (s, i, true) (t, j, true)) (addr : BitVec 8) :
  (D.write s).landsOn fields (D.axil i) addr = (D.write t).landsOn fields (D.axil j) addr
  := congrArg (fun o => o.bind fun x => if x.1 = addr then some x.2 else none) (h.landing rfl)

end Design

/-! ### The sparse CNN -/

namespace SparseCnnAxi

/-- START, CLEAR and the enable. -/
def fields : Fields := fun addr => if addr = regCtrl then ctrlMask else 0

/-- The offsets of the registers. -/
def registers : List (BitVec 8) := [regId, regCtrl, regStatus, regAcc, regSkip]

theorem fields_ctrl :
  fields regCtrl = ctrlMask
  := rfl

theorem ctrlNext_eq {s : State} (hs : InLane s.ctrlReg) (i : Inputs) :
  ctrlNext s i = (s.write.landsOn fields i.axil regCtrl).getD
    (s.ctrlReg &&& ~~~((1#32 <<< ctrlStart) ||| (1#32 <<< ctrlClear)))
  := by
  have hfallen : InLane (s.ctrlReg &&& ~~~((1#32 <<< ctrlStart) ||| (1#32 <<< ctrlClear))) := by
    rw [BitVec.and_comm]
    apply hs.and
  rw [← s.write.writeBytes_eq i.axil (by decide) (by decide) hfallen]
  rfl

theorem startTaken_landsOn (s : State) (i : Inputs) :
  startTaken s i = (startPulse s
    || (s.write.landsOn fields i.axil regCtrl).any fun data => data.getLsbD ctrlStart)
  := by
  rw [startTaken, ctrlWr, s.write.landsOn_eq i.axil (by decide), fields_ctrl]
  cases s.write.wrCommit i.axil && s.write.wrAddr i.axil == regCtrl
  · rfl
  · cases hstrb : (s.write.wrStrb i.axil).getLsbD 0 <;> simp [ctrlMask]

/-- `CTRL` has nothing but in byte lane 0. -/
def Lane (s : State) : Prop :=
  InLane s.ctrlReg

theorem lane_posedge (s : State) (i : Inputs) (aresetn : Bool) (hs : aresetn = true → Lane s) :
  Lane (posedge s i aresetn)
  := by
  cases aresetn with
  | false => apply (by decide : InLane ctrlReset)
  | true =>
      have hlane : InLane s.ctrlReg := hs rfl
      have hfallen : InLane (s.ctrlReg &&& ~~~((1#32 <<< ctrlStart) ||| (1#32 <<< ctrlClear))) := by
        rw [BitVec.and_comm]
        apply hlane.and
      rw [Lane, posedge_ctrlReg, ctrlNext_eq hlane]
      apply s.write.inLane_landsOn i.axil (by decide) (by decide) hfallen

section Shadows

variable {s t : State} (hrest : s = { t with write := s.write }) {i j : Inputs}

include hrest

theorem outputs_eq (hwrite : s.write.InStep t.write) :
  outputs s i = outputs t j
  := by
  have hread : s.read = t.read := by rw [hrest]
  have hready : tready s = tready t := by
    rw [hrest]
    rfl
  rw [outputs, outputs, hwrite.outputs_eq, hread, hready]

variable (hlands : s.write.landsOn fields i.axil regCtrl = t.write.landsOn fields j.axil regCtrl)

include hlands

theorem rdMux_eq (haddr : i.axil.araddr = j.axil.araddr) :
  rdMux s i i.axil.araddr = rdMux t j j.axil.araddr
  := by
  have hctrl : s.ctrlReg = t.ctrlReg := by rw [hrest]
  have hstart : startPulse s = startPulse t := congrArg (BitVec.getLsbD · ctrlStart) hctrl
  have htaken : startTaken s i = startTaken t j := by
    rw [startTaken_landsOn, startTaken_landsOn, hlands, hstart]
  have hstate : s.state = t.state := by rw [hrest]
  have hdone : s.doneQ = t.doneQ := by rw [hrest]
  have hacc : s.accQ = t.accQ := by rw [hrest]
  have hskip : s.skipQ = t.skipQ := by rw [hrest]
  rw [rdMux, rdMux, statusWord, statusWord, statusBusyBit, statusBusyBit, statusDoneBit,
    statusDoneBit, htaken, hstate, hdone, hacc, hskip, hctrl, haddr]

theorem ctrlNext_shadow (hlane : Lane t) :
  ctrlNext s i = ctrlNext t j
  := by
  have hctrl : s.ctrlReg = t.ctrlReg := by rw [hrest]
  have hlane' : InLane s.ctrlReg := by
    rw [hctrl]
    apply hlane
  rw [ctrlNext_eq hlane', ctrlNext_eq hlane, hlands, hctrl]

theorem posedge_shadow (hlane : Lane t) (haxil : i.axil.Alike j.axil)
    (hstream : (i.tdata, i.tvalid, i.tlast) = (j.tdata, j.tvalid, j.tlast)) :
  posedge s i true = { posedge t j true with write := (posedge s i true).write }
  := by
  obtain ⟨hdata, hstream⟩ := Prod.mk.inj hstream
  obtain ⟨hvalid, hlast⟩ := Prod.mk.inj hstream
  have hbeat : beat s i = beat t j := by
    rw [beat, beat, hvalid, hrest]
    rfl
  have hread : (posedge s i true).read = (posedge t j true).read := by
    rw [posedge_read, posedge_read, rdMux_eq hrest hlands haxil.araddr, s.read.posedge_alike haxil,
      hrest]
  have hstate : stateNext s i = stateNext t j := by
    rw [stateNext, stateNext, hbeat, hlast, hrest]
    rfl
  have hpe : peInputs s i = peInputs t j := by
    rw [peInputs, peInputs, peEn, peEn, hbeat, weight, weight, act, act, hdata, hrest]
    rfl
  rw [State.mk.injEq]
  refine ⟨rfl, hread, ctrlNext_shadow hrest hlands hlane, hstate, ?_, ?_, ?_, ?_⟩
  · rw [posedge_doneQ, posedge_doneQ, hrest]
    rfl
  · rw [posedge_accQ, posedge_accQ, hrest]
    rfl
  · rw [posedge_skipQ, posedge_skipQ, hrest]
    rfl
  · rw [posedge_pe, posedge_pe, hpe, hrest]

end Shadows

theorem rdMux_unmapped (s : State) (i : Inputs) {addr : BitVec 8} (h : addr ∉ registers) :
  rdMux s i addr = 0
  := by
  simp only [registers, List.mem_cons, List.not_mem_nil, or_false, not_or] at h
  obtain ⟨hid, hctrl, hstatus, hacc, hskip⟩ := h
  rw [rdMux, if_neg hid, if_neg hctrl, if_neg hstatus, if_neg hacc, if_neg hskip]

/-- The sparse CNN keeps the contract. -/
theorem keepsContract :
  design.KeepsContract idValue fields registers
  := by
  apply Design.keepsContract_of (D := design) (I := Lane) resets
  · intro s i
    rfl
  · intro s i
    rfl
  · intro s i
    rfl
  · intro s i
    rfl
  · intro s i addr
    apply rdMux_unmapped
  · apply lane_posedge
  · intro s t i j h hij
    apply posedge_shadow h.rest (hij.landsOn_eq regCtrl) h.kept hij.axil hij.stream
  · intro s t i j h _
    apply outputs_eq (i := i) (j := j) h.rest h.write

end SparseCnnAxi

/-! ### The Leaky ReLU -/

namespace ReluAxi

/-- The enable, and the slope. -/
def fields : Fields := fun addr =>
  if addr = regCtrl then ctrlMask else if addr = regSlope then slopeMask else 0

/-- The offsets of the registers. -/
def registers : List (BitVec 8) := [regId, regCtrl, regStatus, regSlope, regCount]

theorem fields_slope :
  fields regSlope = slopeMask
  := rfl

theorem ctrlNext_eq {s : State} (hs : InLane s.ctrlReg) (i : Inputs) :
  ctrlNext s i = (s.write.landsOn fields i.axil regCtrl).getD s.ctrlReg
  := by
  rw [← s.write.writeBytes_eq i.axil (by decide) (by decide) hs]
  rfl

theorem slopeNext_landsOn (s : State) (i : Inputs) :
  slopeNext s i = ((s.write.landsOn fields i.axil regSlope).map (BitVec.setWidth 8)).getD s.slopeReg
  := by
  rw [slopeNext, slopeWr, s.write.landsOn_eq i.axil (by decide), fields_slope]
  split
  · rfl
  · rfl

/-- `CTRL` has nothing but in byte lane 0. -/
def Lane (s : State) : Prop :=
  InLane s.ctrlReg

theorem lane_posedge (s : State) (i : Inputs) (aresetn : Bool) (hs : aresetn = true → Lane s) :
  Lane (posedge s i aresetn)
  := by
  cases aresetn with
  | false => apply (by decide : InLane ctrlReset)
  | true =>
      have hlane : InLane s.ctrlReg := hs rfl
      rw [Lane, posedge_ctrlReg, ctrlNext_eq hlane]
      apply s.write.inLane_landsOn i.axil (by decide) (by decide) hlane

section Shadows

variable {s t : State} (hrest : s = { t with write := s.write }) {i j : Inputs}

include hrest

theorem outputs_eq (hwrite : s.write.InStep t.write) (hready : i.mTready = j.mTready) :
  outputs s i = outputs t j
  := by
  have hread : s.read = t.read := by rw [hrest]
  have htready : sTready s i = sTready t j := by
    rw [sTready, sTready, hready, hrest]
    rfl
  rw [outputs, outputs, hwrite.outputs_eq, hread, htready, hrest]

theorem ctrlNext_shadow (hlane : Lane t)
    (hlands : s.write.landsOn fields i.axil regCtrl = t.write.landsOn fields j.axil regCtrl) :
  ctrlNext s i = ctrlNext t j
  := by
  have hctrl : s.ctrlReg = t.ctrlReg := by rw [hrest]
  have hlane' : InLane s.ctrlReg := by
    rw [hctrl]
    apply hlane
  rw [ctrlNext_eq hlane', ctrlNext_eq hlane, hlands, hctrl]

theorem posedge_shadow (hlane : Lane t) (haxil : i.axil.Alike j.axil)
    (hstream : (i.sTdata, i.sTvalid, i.sTlast, i.mTready)
      = (j.sTdata, j.sTvalid, j.sTlast, j.mTready))
    (hctrl : s.write.landsOn fields i.axil regCtrl = t.write.landsOn fields j.axil regCtrl)
    (hslope : s.write.landsOn fields i.axil regSlope = t.write.landsOn fields j.axil regSlope) :
  posedge s i true = { posedge t j true with write := (posedge s i true).write }
  := by
  obtain ⟨hdata, hstream⟩ := Prod.mk.inj hstream
  obtain ⟨hvalid, hstream⟩ := Prod.mk.inj hstream
  obtain ⟨hlast, hready⟩ := Prod.mk.inj hstream
  have hslope : slopeNext s i = slopeNext t j := by
    rw [slopeNext_landsOn, slopeNext_landsOn, hslope, hrest]
  have hread : (posedge s i true).read = (posedge t j true).read := by
    rw [posedge_read, posedge_read, s.read.posedge_alike haxil, haxil.araddr, hrest]
    rfl
  have hin : inFire s i = inFire t j := by
    rw [inFire, inFire, sTready, sTready, hvalid, hready, hrest]
    rfl
  have hout : outFire s i = outFire t j := by
    rw [outFire, outFire, hready, hrest]
  have hdone : tileDone s i = tileDone t j := by
    rw [tileDone, tileDone, hout, hrest]
  have hactivated : activated s i = activated t j := by
    rw [activated, activated, hdata, hrest]
  rw [State.mk.injEq]
  refine ⟨rfl, hread, ctrlNext_shadow hrest hlane hctrl, hslope, ?_, ?_, ?_, ?_, ?_, ?_, ?_⟩
  · rw [posedge_outValidQ, posedge_outValidQ, outValidNext, outValidNext, hin, hout, hrest]
  · rw [posedge_outLastQ, posedge_outLastQ, outLastNext, outLastNext, hin, hout, hlast, hrest]
  · rw [posedge_outDataQ, posedge_outDataQ, outDataNext, outDataNext, hin, hactivated, hrest]
  · rw [posedge_busyQ, posedge_busyQ, busyNext, busyNext, hin, hdone, hrest]
  · rw [posedge_doneQ, posedge_doneQ, doneNext, doneNext, hin, hdone, hrest]
  · rw [posedge_beatsQ, posedge_beatsQ, beatsNext, beatsNext, hin, hdone, hrest]
  · rw [posedge_countQ, posedge_countQ, countNext, countNext, hin, hdone, hrest]

end Shadows

theorem rdMux_unmapped (s : State) {addr : BitVec 8} (h : addr ∉ registers) :
  rdMux s addr = 0
  := by
  simp only [registers, List.mem_cons, List.not_mem_nil, or_false, not_or] at h
  obtain ⟨hid, hctrl, hstatus, hslope, hcount⟩ := h
  rw [rdMux, if_neg hid, if_neg hctrl, if_neg hstatus, if_neg hslope, if_neg hcount]

/-- The Leaky ReLU keeps the contract. -/
theorem keepsContract :
  design.KeepsContract idValue fields registers
  := by
  apply Design.keepsContract_of (D := design) (I := Lane) resets
  · intro s i
    rfl
  · intro s i
    rfl
  · intro s i
    rfl
  · intro s i
    rfl
  · intro s i addr
    apply rdMux_unmapped
  · apply lane_posedge
  · intro s t i j h hij
    apply posedge_shadow h.rest h.kept hij.axil hij.stream (hij.landsOn_eq regCtrl)
      (hij.landsOn_eq regSlope)
  · intro s t i j h hstream
    apply outputs_eq h.rest h.write
    apply congrArg (fun x => x.2.2.2) hstream

end ReluAxi

/-- Both accelerators keep the contract, each with its ID, its fields and its registers. -/
theorem accelerators_keep_contract :
  SparseCnnAxi.design.KeepsContract SparseCnnAxi.idValue SparseCnnAxi.fields SparseCnnAxi.registers
    ∧ ReluAxi.design.KeepsContract ReluAxi.idValue ReluAxi.fields ReluAxi.registers
  := ⟨SparseCnnAxi.keepsContract, ReluAxi.keepsContract⟩
