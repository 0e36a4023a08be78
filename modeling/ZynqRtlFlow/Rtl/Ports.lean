import ZynqRtlFlow.Rtl.ReluAxi
import ZynqRtlFlow.Rtl.SparseCnnAxi

/-!
# Output ports and resets

A design is a module behind the AXI4-Lite slave.  As a machine it has its reset among its
inputs: a cycle presents inputs together with the level of `aresetn`, low in as many cycles
of a run as the board likes.  Both accelerators are designs.

A block fresh from configuration and reset holds the reset value in every register that
has one, and anything in the others.
-/

namespace AxiLite

/-- The outputs of the AXI4-Lite port in one cycle. -/
structure Outputs where
  awready : Bool
  wready : Bool
  bresp : BitVec 2
  bvalid : Bool
  arready : Bool
  rdata : BitVec 32
  rresp : BitVec 2
  rvalid : Bool
  deriving DecidableEq, Repr

/-- What the two channels drive onto the port. -/
def outputs (w : WriteChannel) (r : ReadChannel) : Outputs where
  awready := w.awready
  wready := w.wready
  bresp := 0
  bvalid := w.bvalidQ
  arready := r.arready
  rdata := r.rdataQ
  rresp := 0
  rvalid := r.rvalidQ

/-- A write channel with nothing pending and no response to give, its payload registers
holding an address, a word and a strobe. -/
def WriteChannel.clear (addr : BitVec 8) (data : BitVec 32) (strb : BitVec 4) :
    WriteChannel where
  awPend := false
  wPend := false
  bvalidQ := false
  awAddrQ := addr
  wDataQ := data
  wStrbQ := strb

end AxiLite

open AxiLite

/-- A module behind the AXI4-Lite slave: its registers after an edge with the level of
`aresetn`, what it drives and is driven with, and the word a read gives. -/
structure Design where
  State : Type
  Inputs : Type
  Outputs : Type
  Stream : Type
  posedge : State → Inputs → Bool → State
  outputs : State → Inputs → Outputs
  port : Outputs → AxiLite.Outputs
  axil : Inputs → AxiLite.Inputs
  stream : Inputs → Stream
  write : State → WriteChannel
  /-- The state with another write channel. -/
  withWrite : State → WriteChannel → State
  read : State → ReadChannel
  word : State → Inputs → BitVec 8 → BitVec 32

namespace Design

variable (D : Design)

/-- The module out of reset. -/
def machine : Machine D.State D.Inputs where
  next s i := D.posedge s i true

/-- The module with the level of `aresetn` among its inputs. -/
def resettable : Machine D.State (D.Inputs × Bool) where
  next s c := D.posedge s c.1 c.2

/-- The output ports along a run with the inputs and reset levels `cs`. -/
def ports (s : D.State) (cs : List (D.Inputs × Bool)) : List D.Outputs :=
  D.resettable.outputs (fun s c => D.outputs s c.1) s cs

end Design

namespace SparseCnnAxi

/-- The output ports in one cycle. -/
structure Outputs where
  axil : AxiLite.Outputs
  tready : Bool
  deriving DecidableEq, Repr

/-- What the ports are driven with in a cycle. -/
def outputs (s : State) (_ : Inputs) : Outputs where
  axil := AxiLite.outputs s.write s.read
  tready := tready s

/-- The block fresh from configuration and reset, with anything in its payload
registers. -/
def fresh (addr : BitVec 8) (data : BitVec 32) (strb : BitVec 4) : State where
  write := .clear addr data strb
  read := { rvalidQ := false, rdataQ := 0 }
  ctrlReg := ctrlReset
  state := .idle
  doneQ := false
  accQ := 0
  skipQ := 0
  pe := { acc := 0, skipCount := 0, validOut := false }

/-- The sparse CNN with its ports. -/
def design : Design where
  State := State
  Inputs := Inputs
  Outputs := Outputs
  Stream := BitVec 16 × Bool × Bool
  posedge := posedge
  outputs := outputs
  port := Outputs.axil
  axil := Inputs.axil
  stream i := (i.tdata, i.tvalid, i.tlast)
  write := State.write
  withWrite s w := { s with write := w }
  read := State.read
  word := rdMux

/-- The output ports along a run with the inputs and reset levels `cs`. -/
def ports (s : State) (cs : List (Inputs × Bool)) : List Outputs :=
  design.ports s cs

end SparseCnnAxi

namespace ReluAxi

/-- The output ports in one cycle. -/
structure Outputs where
  axil : AxiLite.Outputs
  sTready : Bool
  mTdata : BitVec 8
  mTvalid : Bool
  mTlast : Bool
  deriving DecidableEq, Repr

/-- What the ports are driven with in a cycle. -/
def outputs (s : State) (i : Inputs) : Outputs where
  axil := AxiLite.outputs s.write s.read
  sTready := sTready s i
  mTdata := s.outDataQ
  mTvalid := s.outValidQ
  mTlast := s.outLastQ

/-- The block fresh from configuration and reset, with anything in its payload
registers. -/
def fresh (addr : BitVec 8) (data : BitVec 32) (strb : BitVec 4) : State where
  write := .clear addr data strb
  read := { rvalidQ := false, rdataQ := 0 }
  ctrlReg := ctrlReset
  slopeReg := slopeReset
  outValidQ := false
  outLastQ := false
  outDataQ := 0
  busyQ := false
  doneQ := false
  beatsQ := 0
  countQ := 0

/-- The Leaky ReLU with its ports. -/
def design : Design where
  State := State
  Inputs := Inputs
  Outputs := Outputs
  Stream := BitVec 8 × Bool × Bool × Bool
  posedge := posedge
  outputs := outputs
  port := Outputs.axil
  axil := Inputs.axil
  stream i := (i.sTdata, i.sTvalid, i.sTlast, i.mTready)
  write := State.write
  withWrite s w := { s with write := w }
  read := State.read
  word s _ := rdMux s

/-- The output ports along a run with the inputs and reset levels `cs`. -/
def ports (s : State) (cs : List (Inputs × Bool)) : List Outputs :=
  design.ports s cs

end ReluAxi
