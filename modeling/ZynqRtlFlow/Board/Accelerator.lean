import ZynqRtlFlow.Board.Bus
import ZynqRtlFlow.Rtl.ReluAxi
import ZynqRtlFlow.Rtl.SparseCnnAxi

/-!
# Accelerators on the board

What the board sees of an accelerator: its AXI4-Lite port, the beats it accepts on
`s_axis` and the beats it hands over on `m_axis`.  A beat is the list of its bytes, byte
lane 0 first.
-/

open AxiLite

/-- What a cycle does: whether the beat presented was accepted, the beat handed over with
its `tlast`, and the state after the edge. -/
structure Outcome (σ : Type) where
  accepted : Bool
  handed : Option (BitVec 8 × Bool)
  next : σ

/-- An accelerator: a cycle takes the inputs of the AXI4-Lite port, `tvalid`, the beat and
`tlast` on `s_axis`, and `tready` on `m_axis`. -/
structure Accelerator where
  State : Type
  beatBytes : ℕ
  write : State → WriteChannel
  read : State → ReadChannel
  cycle : AxiLite.Inputs → Bool → List (BitVec 8) → Bool → Bool → State → Outcome State
  /-- The write channel runs on its own. -/
  write_cycle : ∀ axil valid beat last ready s,
    write (cycle axil valid beat last ready s).next = (write s).posedge axil true
  /-- A beat is accepted only when it is presented. -/
  accepted_cycle : ∀ axil beat last ready s, (cycle axil false beat last ready s).accepted = false
  /-- A beat is handed over only to a ready consumer. -/
  handed_cycle : ∀ axil valid beat last s, (cycle axil valid beat last false s).handed = none

/-- The inputs of a cycle of `relu_axi`: one byte a beat. -/
def ReluAxi.inputs (axil : AxiLite.Inputs) (valid : Bool) (beat : List (BitVec 8)) (last ready : Bool) :
    ReluAxi.Inputs where
  axil := axil
  sTdata := beat.getD 0 0
  sTvalid := valid
  sTlast := last
  mTready := ready

/-- `relu_axi` on the board. -/
def ReluAxi.accelerator : Accelerator where
  State := ReluAxi.State
  beatBytes := 1
  write := ReluAxi.State.write
  read := ReluAxi.State.read
  cycle axil valid beat last ready s :=
    let i := ReluAxi.inputs axil valid beat last ready
    { accepted := ReluAxi.inFire s i
      handed := if ReluAxi.outFire s i then some (s.outDataQ, s.outLastQ) else none
      next := ReluAxi.posedge s i true }
  write_cycle _ _ _ _ _ _ := rfl
  accepted_cycle _ _ _ _ _ := rfl
  handed_cycle _ _ _ _ s := by simp [ReluAxi.outFire, ReluAxi.inputs]

/-- The inputs of a cycle of `sparse_cnn_axi`: two bytes a beat. -/
def SparseCnnAxi.inputs (axil : AxiLite.Inputs) (valid : Bool) (beat : List (BitVec 8)) (last : Bool) :
    SparseCnnAxi.Inputs where
  axil := axil
  tdata := beat.getD 1 0 ++ beat.getD 0 0
  tvalid := valid
  tlast := last

/-- `sparse_cnn_axi` on the board; it has no `m_axis`. -/
def SparseCnnAxi.accelerator : Accelerator where
  State := SparseCnnAxi.State
  beatBytes := 2
  write := SparseCnnAxi.State.write
  read := SparseCnnAxi.State.read
  cycle axil valid beat last _ s :=
    let i := SparseCnnAxi.inputs axil valid beat last
    { accepted := SparseCnnAxi.beat s i
      handed := none
      next := SparseCnnAxi.posedge s i true }
  write_cycle _ _ _ _ _ _ := rfl
  accepted_cycle _ _ _ _ _ := rfl
  handed_cycle _ _ _ _ _ := rfl
