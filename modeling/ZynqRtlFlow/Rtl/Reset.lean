import ZynqRtlFlow.AxiLite.Agreement
import ZynqRtlFlow.Rtl.Ports

/-!
# Reset

The address, data and strobe captured by the write channel have no reset, so a reset
leaves them as the past made them.  They are read only while their half of a write is
pending, and a reset leaves none pending: two states that differ in the payloads of no
pending write drive the same outputs, and an edge takes them to two such states again,
with `aresetn` high or low.
-/

namespace AxiLite

namespace WriteChannel

/-- A write channel that has just been reset agrees with a clear one. -/
theorem agree_clear (w : WriteChannel) (i : Inputs) (addr : BitVec 8) (data : BitVec 32)
    (strb : BitVec 4) :
  Agree (w.posedge i false) (clear addr data strb)
  := Agree.of_free ⟨rfl, rfl⟩ ⟨rfl, rfl⟩ rfl

theorem InStep.outputs_eq {v w : WriteChannel} (h : InStep v w) (r : ReadChannel) :
  outputs v r = outputs w r
  := by
  rw [outputs, outputs, h.awready_eq, h.wready_eq, h.bvalidQ]

end WriteChannel

end AxiLite

open AxiLite WriteChannel

namespace Design

variable (D : Design)

/-- Two states that are the same but for their write channels, which `W` relates. -/
structure Same (W : WriteChannel → WriteChannel → Prop) (s t : D.State) : Prop where
  write : W (D.write s) (D.write t)
  rest : s = D.withWrite t (D.write s)

/-- Two states that differ at most in the payloads of no pending write. -/
abbrev Indistinct : D.State → D.State → Prop :=
  D.Same Agree

/-- The write channel goes its own way, and of everything else a reset leaves nothing. -/
structure Resets : Prop where
  write : ∀ s i aresetn, D.write (D.posedge s i aresetn) = (D.write s).posedge (D.axil i) aresetn
  rest : ∀ s i t j, D.posedge s i false
    = D.withWrite (D.posedge t j false) (D.write (D.posedge s i false))

/-- The payloads of no pending write are not noticed. -/
structure Forgets : Prop extends D.Resets where
  edge : ∀ s t i, D.Indistinct s t → D.posedge s i true
    = D.withWrite (D.posedge t i true) (D.write (D.posedge s i true))
  outputs : ∀ s t i, D.Indistinct s t → D.outputs s i = D.outputs t i

variable {D}

/-- After a reset all states are the same, but for payloads of no pending write. -/
theorem Resets.indistinct (hD : D.Resets) (s t : D.State) (i j : D.Inputs) :
  D.Indistinct (D.posedge s i false) (D.posedge t j false)
  := by
  constructor
  · rw [hD.write, hD.write]
    exact Agree.of_free ⟨rfl, rfl⟩ ⟨rfl, rfl⟩ rfl
  · apply hD.rest

/-- States that differ in the payloads of no pending write drive the same outputs for
ever, whatever is presented to them and however often they are reset. -/
theorem Forgets.ports_eq (hD : D.Forgets) {s t : D.State} (h : D.Indistinct s t)
    (cs : List (D.Inputs × Bool)) :
  D.ports s cs = D.ports t cs
  := by
  refine D.resettable.outputs_eq_of_related (R := D.Indistinct) ?_ ?_ h cs
  · rintro s t ⟨i, aresetn⟩ h
    cases aresetn with
    | false => apply hD.indistinct
    | true =>
        refine ⟨?_, hD.edge s t i h⟩
        change Agree (D.write (D.posedge s i true)) (D.write (D.posedge t i true))
        rw [hD.write, hD.write]
        apply h.write.edge
  · rintro s t c h
    apply hD.outputs s t c.1 h

/-- Two states that are reset, whatever they were, drive the same outputs from then on. -/
theorem Forgets.ports_reset (hD : D.Forgets) (s t : D.State) (i j : D.Inputs)
    (cs : List (D.Inputs × Bool)) :
  D.ports (D.posedge s i false) cs = D.ports (D.posedge t j false) cs
  := hD.ports_eq (hD.indistinct s t i j) cs

end Design

/-! ### The sparse CNN -/

namespace SparseCnnAxi

theorem resets :
  design.Resets
  := ⟨fun _ _ _ => rfl, fun _ _ _ _ => rfl⟩

section Indistinct

variable {s t : State} (hwrite : s.write.Agree t.write) (hrest : s = { t with write := s.write })
  (i : Inputs)

include hwrite

theorem ctrlWr_congr :
  ctrlWr s i = ctrlWr t i
  := by
  rw [ctrlWr, ctrlWr, hwrite.wrCommit_eq (.refl _), hwrite.wrAddr_eq]

include hrest

theorem startTaken_congr :
  startTaken s i = startTaken t i
  := by
  have hctrl : s.ctrlReg = t.ctrlReg := by rw [hrest]
  rw [startTaken, startTaken, startPulse, startPulse, ctrlWr_congr hwrite, hwrite.wrStrb_eq,
    hwrite.wrData_eq, hctrl]

theorem rdMux_congr (addr : BitVec 8) :
  rdMux s i addr = rdMux t i addr
  := by
  have hctrl : s.ctrlReg = t.ctrlReg := by rw [hrest]
  have hstate : s.state = t.state := by rw [hrest]
  have hdone : s.doneQ = t.doneQ := by rw [hrest]
  have hacc : s.accQ = t.accQ := by rw [hrest]
  have hskip : s.skipQ = t.skipQ := by rw [hrest]
  rw [rdMux, rdMux, statusWord, statusWord, statusBusyBit, statusBusyBit, statusDoneBit,
    statusDoneBit, startTaken_congr hwrite hrest, hstate, hdone, hacc, hskip, hctrl]

theorem ctrlNext_congr :
  ctrlNext s i = ctrlNext t i
  := by
  have hctrl : s.ctrlReg = t.ctrlReg := by rw [hrest]
  rw [ctrlNext, ctrlNext, ctrlWr_congr hwrite, hwrite.wrStrb_eq, hwrite.wrData_eq, hctrl]

theorem posedge_congr :
  posedge s i true = { posedge t i true with write := (posedge s i true).write }
  := by
  have hmux := rdMux_congr hwrite hrest i i.axil.araddr
  have hctrl := ctrlNext_congr hwrite hrest i
  rw [posedge, posedge, hmux, hctrl, hrest]
  rfl

theorem outputs_congr :
  outputs s i = outputs t i
  := by
  have hread : s.read = t.read := by rw [hrest]
  have hready : tready s = tready t := by
    rw [hrest]
    rfl
  rw [outputs, outputs, hready, hread, hwrite.outputs_eq]

end Indistinct

theorem forgets :
  design.Forgets
  := by
  use resets
  · intro s t i h
    apply posedge_congr h.write h.rest
  · intro s t i h
    apply outputs_congr h.write h.rest i

theorem indistinct_fresh (s : State) (i : Inputs) (addr : BitVec 8) (data : BitVec 32)
    (strb : BitVec 4) :
  design.Indistinct (reset s i) (fresh addr data strb)
  := by
  constructor
  · apply s.write.agree_clear i.axil
  · rfl

end SparseCnnAxi

/-! ### The Leaky ReLU -/

namespace ReluAxi

theorem resets :
  design.Resets
  := ⟨fun _ _ _ => rfl, fun _ _ _ _ => rfl⟩

section Indistinct

variable {s t : State} (hwrite : s.write.Agree t.write) (hrest : s = { t with write := s.write })
  (i : Inputs)

include hwrite

theorem ctrlWr_congr :
  ctrlWr s i = ctrlWr t i
  := by
  rw [ctrlWr, ctrlWr, hwrite.wrCommit_eq (.refl _), hwrite.wrAddr_eq]

theorem slopeWr_congr :
  slopeWr s i = slopeWr t i
  := by
  rw [slopeWr, slopeWr, hwrite.wrCommit_eq (.refl _), hwrite.wrAddr_eq]

include hrest

theorem ctrlNext_congr :
  ctrlNext s i = ctrlNext t i
  := by
  have hctrl : s.ctrlReg = t.ctrlReg := by rw [hrest]
  rw [ctrlNext, ctrlNext, ctrlWr_congr hwrite, hwrite.wrStrb_eq, hwrite.wrData_eq, hctrl]

theorem slopeNext_congr :
  slopeNext s i = slopeNext t i
  := by
  have hslope : s.slopeReg = t.slopeReg := by rw [hrest]
  rw [slopeNext, slopeNext, slopeWr_congr hwrite, hwrite.wrStrb_eq, hwrite.wrData_eq, hslope]

theorem posedge_congr :
  posedge s i true = { posedge t i true with write := (posedge s i true).write }
  := by
  have hctrl := ctrlNext_congr hwrite hrest i
  have hslope := slopeNext_congr hwrite hrest i
  rw [posedge, posedge, hctrl, hslope, hrest]
  rfl

theorem outputs_congr :
  outputs s i = outputs t i
  := by
  have hread : s.read = t.read := by rw [hrest]
  have hready : sTready s i = sTready t i := by
    rw [hrest]
    rfl
  rw [outputs, outputs, hready, hread, hwrite.outputs_eq, hrest]

end Indistinct

theorem forgets :
  design.Forgets
  := by
  use resets
  · intro s t i h
    apply posedge_congr h.write h.rest
  · intro s t i h
    apply outputs_congr h.write h.rest i

theorem indistinct_fresh (s : State) (i : Inputs) (addr : BitVec 8) (data : BitVec 32)
    (strb : BitVec 4) :
  design.Indistinct (reset s i) (fresh addr data strb)
  := by
  constructor
  · apply s.write.agree_clear i.axil
  · rfl

end ReluAxi

/-- Reset erases history in both accelerators.  Whatever two states are, one edge with
`aresetn` low takes them to states that drive the outputs of a fresh block in every later
cycle, for every sequence of later inputs and resets. -/
theorem reset_erases_history :
  (∀ (s s' : SparseCnnAxi.State) (i i' : SparseCnnAxi.Inputs) (addr : BitVec 8)
      (data : BitVec 32) (strb : BitVec 4) (cs : List (SparseCnnAxi.Inputs × Bool)),
      SparseCnnAxi.ports (SparseCnnAxi.posedge s i false) cs
          = SparseCnnAxi.ports (SparseCnnAxi.posedge s' i' false) cs
        ∧ SparseCnnAxi.ports (SparseCnnAxi.posedge s i false) cs
          = SparseCnnAxi.ports (SparseCnnAxi.fresh addr data strb) cs)
    ∧ ∀ (s s' : ReluAxi.State) (i i' : ReluAxi.Inputs) (addr : BitVec 8)
      (data : BitVec 32) (strb : BitVec 4) (cs : List (ReluAxi.Inputs × Bool)),
      ReluAxi.ports (ReluAxi.posedge s i false) cs
          = ReluAxi.ports (ReluAxi.posedge s' i' false) cs
        ∧ ReluAxi.ports (ReluAxi.posedge s i false) cs
          = ReluAxi.ports (ReluAxi.fresh addr data strb) cs
  := by
  constructor
  · intro s s' i i' addr data strb cs
    constructor
    · apply SparseCnnAxi.forgets.ports_reset
    · apply SparseCnnAxi.forgets.ports_eq (SparseCnnAxi.indistinct_fresh s i addr data strb)
  · intro s s' i i' addr data strb cs
    constructor
    · apply ReluAxi.forgets.ports_reset
    · apply ReluAxi.forgets.ports_eq (ReluAxi.indistinct_fresh s i addr data strb)
