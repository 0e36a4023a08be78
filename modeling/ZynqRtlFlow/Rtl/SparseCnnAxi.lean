import ZynqRtlFlow.Rtl.AxiLite
import ZynqRtlFlow.Rtl.SparseMacPe
import ZynqRtlFlow.Synchronous.Machine

/-!
# `sparse_cnn_axi`

The AXI wrapper of the processing element: the AXI4-Lite slave, the control register
with its START and CLEAR pulses, the tile state machine, the result registers and the
stream slave.  A stream beat carries the activation in bits 15:8 and the weight in bits
7:0.

The wires of the module are functions of the state and the inputs of a cycle, under the
names of the source; `posedge` gives the registers after a clock edge.
-/

namespace SparseCnnAxi

open AxiLite

/-! ### Register map -/

/-- Offset of `ID`. -/
abbrev regId : BitVec 8 := 0x00#8

/-- Offset of `CTRL`. -/
abbrev regCtrl : BitVec 8 := 0x04#8

/-- Offset of `STATUS`. -/
abbrev regStatus : BitVec 8 := 0x08#8

/-- Offset of `ACC`. -/
abbrev regAcc : BitVec 8 := 0x0C#8

/-- Offset of `SKIP`. -/
abbrev regSkip : BitVec 8 := 0x10#8

/-- Bit START of `CTRL`. -/
abbrev ctrlStart : ℕ := 0

/-- Bit CLEAR of `CTRL`. -/
abbrev ctrlClear : ℕ := 1

/-- Bit EN of `CTRL`. -/
abbrev ctrlEn : ℕ := 2

/-- Bit BUSY of `STATUS`. -/
abbrev statusBusy : ℕ := 0

/-- Bit DONE of `STATUS`. -/
abbrev statusDone : ℕ := 1

/-- The tag of this design, then its major and minor version. -/
def idValue : BitVec 32 := 0x53500100#32

/-- `CTRL` after reset: enabled. -/
def ctrlReset : BitVec 32 := 1#32 <<< ctrlEn

/-- The three defined bits of `CTRL`. -/
def ctrlMask : BitVec 32 :=
  (1#32 <<< ctrlStart) ||| (1#32 <<< ctrlClear) ||| (1#32 <<< ctrlEn)

/-! ### State and inputs -/

/-- The tile state machine: no tile in flight; one cycle clearing the processing element;
consuming beats; sampling the processing element into the results. -/
inductive TileState where
  | idle
  | clear
  | run
  | latch
  deriving DecidableEq, Repr

/-- The inputs of one cycle. -/
structure Inputs where
  axil : AxiLite.Inputs
  tdata : BitVec 16
  tvalid : Bool
  tlast : Bool
  deriving DecidableEq, Repr

/-- The registers of the module and of the processing element it instantiates. -/
structure State where
  write : WriteChannel
  read : ReadChannel
  ctrlReg : BitVec 32
  state : TileState
  doneQ : Bool
  accQ : BitVec 32
  skipQ : BitVec 16
  pe : SparseMacPe.State 32 16
  deriving DecidableEq, Repr

/-! ### Wires -/

variable (s : State) (i : Inputs)

/-- The START written in the cycle before. -/
def startPulse : Bool := s.ctrlReg.getLsbD ctrlStart

/-- The CLEAR written in the cycle before. -/
def clearPulse : Bool := s.ctrlReg.getLsbD ctrlClear

/-- The accelerator is enabled. -/
def enReg : Bool := s.ctrlReg.getLsbD ctrlEn

/-- A write to `CTRL` commits. -/
def ctrlWr : Bool := s.write.wrCommit i.axil && s.write.wrAddr i.axil == regCtrl

/-- A START is visible to software from the cycle its write commits. -/
def startTaken : Bool :=
  startPulse s || (ctrlWr s i && (s.write.wrStrb i.axil).getLsbD (ctrlStart / 8)
    && (s.write.wrData i.axil).getLsbD ctrlStart)

/-- BUSY as software sees it. -/
def statusBusyBit : Bool := s.state != .idle || startTaken s i

/-- DONE as software sees it. -/
def statusDoneBit : Bool := s.doneQ && !startTaken s i

/-- The word of `STATUS`. -/
def statusWord : BitVec 32 :=
  ((BitVec.ofBool (statusBusyBit s i)).setWidth 32 <<< statusBusy)
    ||| ((BitVec.ofBool (statusDoneBit s i)).setWidth 32 <<< statusDone)

/-- The word a read of address `addr` gives in this cycle. -/
def rdMux (addr : BitVec 8) : BitVec 32 :=
  if addr = regId then idValue
  else if addr = regCtrl then s.ctrlReg
  else if addr = regStatus then statusWord s i
  else if addr = regAcc then s.accQ
  else if addr = regSkip then s.skipQ.setWidth 32
  else 0

/-- A beat can be accepted. -/
def tready : Bool := s.state == .run && enReg s && !clearPulse s

/-- A beat is accepted. -/
def beat : Bool := i.tvalid && tready s

/-- The processing element is cleared. -/
def peClear : Bool := s.state == .clear || clearPulse s

/-- The processing element takes an edge. -/
def peEn : Bool := beat s i || peClear s

/-- The weight in a beat. -/
def weight : BitVec 8 := i.tdata.extractLsb' 0 8

/-- The activation in a beat. -/
def act : BitVec 8 := i.tdata.extractLsb' 8 8

/-- The inputs of the processing element. -/
def peInputs : SparseMacPe.Inputs 8 where
  en := peEn s i
  clearAcc := peClear s
  validIn := beat s i
  weight := weight i
  act := act i

/-! ### The clock edge -/

/-- The control register after an edge without reset: both pulses fall, then a write to
`CTRL` lands. -/
def ctrlNext : BitVec 32 :=
  let fallen := s.ctrlReg &&& ~~~((1#32 <<< ctrlStart) ||| (1#32 <<< ctrlClear))
  if ctrlWr s i then
    writeBytes ctrlMask (s.write.wrStrb i.axil) (s.write.wrData i.axil) fallen
  else
    fallen

/-- The tile state after an edge without reset. -/
def stateNext : TileState :=
  match s.state with
  | .idle => if startPulse s then .clear else .idle
  | .clear => .run
  | .run => if beat s i && i.tlast then .latch else .run
  | .latch => .idle

/-- DONE after an edge without reset. -/
def doneNext : Bool :=
  match s.state with
  | .idle => if startPulse s then false else s.doneQ
  | .latch => true
  | _ => s.doneQ

/-- The accumulator result after an edge without reset.  An explicit clear wins over a
latch in the same cycle. -/
def accNext : BitVec 32 :=
  if clearPulse s then 0
  else if s.state = .latch then s.pe.acc
  else s.accQ

/-- The skip count after an edge without reset, as the accumulator result. -/
def skipNext : BitVec 16 :=
  if clearPulse s then 0
  else if s.state = .latch then s.pe.skipCount
  else s.skipQ

/-- The registers after a clock edge. -/
def posedge (aresetn : Bool) : State where
  write := s.write.posedge i.axil aresetn
  read := s.read.posedge i.axil aresetn (rdMux s i i.axil.araddr)
  ctrlReg := if !aresetn then ctrlReset else ctrlNext s i
  state := if !aresetn then .idle else stateNext s i
  doneQ := if !aresetn then false else doneNext s
  accQ := if !aresetn then 0 else accNext s
  skipQ := if !aresetn then 0 else skipNext s
  pe := SparseMacPe.posedge aresetn (peInputs s i) s.pe

/-- The registers after an edge with `aresetn` low. -/
def reset : State := posedge s i false

/-! ### The registers out of reset -/

@[simp]
theorem posedge_write :
  (posedge s i true).write = s.write.posedge i.axil true
  := rfl

@[simp]
theorem posedge_read :
  (posedge s i true).read = s.read.posedge i.axil true (rdMux s i i.axil.araddr)
  := rfl

@[simp]
theorem posedge_ctrlReg :
  (posedge s i true).ctrlReg = ctrlNext s i
  := rfl

@[simp]
theorem posedge_state :
  (posedge s i true).state = stateNext s i
  := rfl

@[simp]
theorem posedge_doneQ :
  (posedge s i true).doneQ = doneNext s
  := rfl

@[simp]
theorem posedge_accQ :
  (posedge s i true).accQ = accNext s
  := rfl

@[simp]
theorem posedge_skipQ :
  (posedge s i true).skipQ = skipNext s
  := rfl

@[simp]
theorem posedge_pe :
  (posedge s i true).pe = SparseMacPe.posedge true (peInputs s i) s.pe
  := rfl

/-- The module out of reset. -/
def machine : Machine State Inputs where
  next s i := posedge s i true

theorem machine_next :
  machine.next s i = posedge s i true
  := rfl

end SparseCnnAxi
