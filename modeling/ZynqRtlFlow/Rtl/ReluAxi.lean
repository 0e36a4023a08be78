import ZynqRtlFlow.Rtl.AxiLite
import ZynqRtlFlow.Rtl.ReluUnit
import ZynqRtlFlow.Synchronous.Machine

/-!
# `relu_axi`

The Leaky ReLU accelerator: the AXI4-Lite slave with the enable and the slope, the stream
slave and master with one output register between them, and the tile accounting behind
`STATUS` and `COUNT`.

The wires of the module are functions of the state and the inputs of a cycle, under the
names of the source; `posedge` gives the registers after a clock edge.
-/

namespace ReluAxi

open AxiLite

/-! ### Register map -/

/-- Offset of `ID`. -/
abbrev regId : BitVec 8 := 0x00#8

/-- Offset of `CTRL`. -/
abbrev regCtrl : BitVec 8 := 0x04#8

/-- Offset of `STATUS`. -/
abbrev regStatus : BitVec 8 := 0x08#8

/-- Offset of `SLOPE`. -/
abbrev regSlope : BitVec 8 := 0x0C#8

/-- Offset of `COUNT`. -/
abbrev regCount : BitVec 8 := 0x10#8

/-- Bit EN of `CTRL`. -/
abbrev ctrlEn : ℕ := 0

/-- Bit BUSY of `STATUS`. -/
abbrev statusBusy : ℕ := 0

/-- Bit DONE of `STATUS`. -/
abbrev statusDone : ℕ := 1

/-- The tag of this design, then its major and minor version. -/
def idValue : BitVec 32 := 0x524C0100#32

/-- `CTRL` after reset: enabled. -/
def ctrlReset : BitVec 32 := 1#32 <<< ctrlEn

/-- The bits of `CTRL` that software can write. -/
def ctrlMask : BitVec 32 := 1#32 <<< ctrlEn

/-- The bits of `SLOPE` that software can write. -/
def slopeMask : BitVec 32 := (1#32 <<< 8) - 1#32

/-- The slope the register holds after reset. -/
def slopeReset : BitVec 8 := 25#8

/-! ### State and inputs -/

/-- The inputs of one cycle. -/
structure Inputs where
  axil : AxiLite.Inputs
  sTdata : BitVec 8
  sTvalid : Bool
  sTlast : Bool
  mTready : Bool
  deriving DecidableEq, Repr

/-- The registers of the module. -/
structure State where
  write : WriteChannel
  read : ReadChannel
  ctrlReg : BitVec 32
  slopeReg : BitVec 8
  outValidQ : Bool
  outLastQ : Bool
  outDataQ : BitVec 8
  busyQ : Bool
  doneQ : Bool
  beatsQ : BitVec 16
  countQ : BitVec 16
  deriving DecidableEq, Repr

/-! ### Wires -/

variable (s : State) (i : Inputs)

/-- The accelerator is enabled. -/
def enReg : Bool := s.ctrlReg.getLsbD ctrlEn

/-- A write to `CTRL` commits. -/
def ctrlWr : Bool := s.write.wrCommit i.axil && s.write.wrAddr i.axil == regCtrl

/-- A write to `SLOPE` commits. -/
def slopeWr : Bool := s.write.wrCommit i.axil && s.write.wrAddr i.axil == regSlope

/-- A beat can be accepted: the register behind the unit is free, or is being emptied. -/
def sTready : Bool := enReg s && (!s.outValidQ || i.mTready)

/-- A beat is accepted. -/
def inFire : Bool := i.sTvalid && sTready s i

/-- A beat leaves. -/
def outFire : Bool := s.outValidQ && i.mTready

/-- The output of the unit for the beat presented. -/
def activated : BitVec 8 := ReluUnit.y i.sTdata s.slopeReg

/-- The last beat of a tile leaves. -/
def tileDone : Bool := outFire s i && s.outLastQ

/-- The word of `STATUS`. -/
def statusWord : BitVec 32 :=
  ((BitVec.ofBool s.busyQ).setWidth 32 <<< statusBusy)
    ||| ((BitVec.ofBool s.doneQ).setWidth 32 <<< statusDone)

/-- The word a read of address `addr` gives in this cycle. -/
def rdMux (addr : BitVec 8) : BitVec 32 :=
  if addr = regId then idValue
  else if addr = regCtrl then s.ctrlReg
  else if addr = regStatus then statusWord s
  else if addr = regSlope then s.slopeReg.setWidth 32
  else if addr = regCount then s.countQ.setWidth 32
  else 0

/-! ### The clock edge -/

/-- `CTRL` after an edge without reset. -/
def ctrlNext : BitVec 32 :=
  if ctrlWr s i then
    writeBytes ctrlMask (s.write.wrStrb i.axil) (s.write.wrData i.axil) s.ctrlReg
  else
    s.ctrlReg

/-- The slope after an edge without reset. -/
def slopeNext : BitVec 8 :=
  if slopeWr s i && (s.write.wrStrb i.axil).getLsbD 0 then
    (s.write.wrData i.axil &&& slopeMask).setWidth 8
  else
    s.slopeReg

/-- Whether a beat is held after the edge. -/
def outValidNext : Bool :=
  if inFire s i then true else if outFire s i then false else s.outValidQ

/-- Whether it is the last of its tile. -/
def outLastNext : Bool :=
  if inFire s i then i.sTlast else if outFire s i then false else s.outLastQ

/-- The beat held after the edge. -/
def outDataNext : BitVec 8 :=
  if inFire s i then activated s i else s.outDataQ

/-- BUSY after the edge: a tile that finishes wins over one that begins. -/
def busyNext : Bool :=
  if tileDone s i then false else if inFire s i && !s.busyQ then true else s.busyQ

/-- DONE after the edge, with the same precedence. -/
def doneNext : Bool :=
  if tileDone s i then true else if inFire s i && !s.busyQ then false else s.doneQ

/-- `COUNT` after the edge: it takes the beats counted when a tile finishes. -/
def countNext : BitVec 16 :=
  if tileDone s i then (if inFire s i then s.beatsQ + 1#16 else s.beatsQ) else s.countQ

/-- The beats counted after the edge. -/
def beatsNext : BitVec 16 :=
  if tileDone s i then 0 else if inFire s i then s.beatsQ + 1#16 else s.beatsQ

/-- The registers after a clock edge. -/
def posedge (aresetn : Bool) : State where
  write := s.write.posedge i.axil aresetn
  read := s.read.posedge i.axil aresetn (rdMux s i.axil.araddr)
  ctrlReg := if !aresetn then ctrlReset else ctrlNext s i
  slopeReg := if !aresetn then slopeReset else slopeNext s i
  outValidQ := if !aresetn then false else outValidNext s i
  outLastQ := if !aresetn then false else outLastNext s i
  outDataQ := if !aresetn then 0 else outDataNext s i
  busyQ := if !aresetn then false else busyNext s i
  doneQ := if !aresetn then false else doneNext s i
  beatsQ := if !aresetn then 0 else beatsNext s i
  countQ := if !aresetn then 0 else countNext s i

/-- The registers after an edge with `aresetn` low. -/
def reset : State := posedge s i false

/-! ### The registers out of reset -/

@[simp]
theorem posedge_write :
  (posedge s i true).write = s.write.posedge i.axil true
  := rfl

@[simp]
theorem posedge_read :
  (posedge s i true).read = s.read.posedge i.axil true (rdMux s i.axil.araddr)
  := rfl

@[simp]
theorem posedge_ctrlReg :
  (posedge s i true).ctrlReg = ctrlNext s i
  := rfl

@[simp]
theorem posedge_slopeReg :
  (posedge s i true).slopeReg = slopeNext s i
  := rfl

@[simp]
theorem posedge_outValidQ :
  (posedge s i true).outValidQ = outValidNext s i
  := rfl

@[simp]
theorem posedge_outLastQ :
  (posedge s i true).outLastQ = outLastNext s i
  := rfl

@[simp]
theorem posedge_outDataQ :
  (posedge s i true).outDataQ = outDataNext s i
  := rfl

@[simp]
theorem posedge_busyQ :
  (posedge s i true).busyQ = busyNext s i
  := rfl

@[simp]
theorem posedge_doneQ :
  (posedge s i true).doneQ = doneNext s i
  := rfl

@[simp]
theorem posedge_beatsQ :
  (posedge s i true).beatsQ = beatsNext s i
  := rfl

@[simp]
theorem posedge_countQ :
  (posedge s i true).countQ = countNext s i
  := rfl

/-- The module out of reset. -/
def machine : Machine State Inputs where
  next s i := posedge s i true

theorem machine_next :
  machine.next s i = posedge s i true
  := rfl

end ReluAxi
