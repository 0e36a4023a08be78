import ZynqRtlFlow.Rtl.AxiLite

/-!
# Channels that agree

Two write channels whose flags are the same are in step: with the same writes coming in but
for what the writes say, they commit in the same cycles and stay in step.

The payload registers of the write channel matter only while their half of a write is
pending.  Two write channels in step that agree on the payloads of the pending halves commit
the same writes under the same inputs, and go on agreeing.
-/

namespace AxiLite

/-- The inputs of a cycle are the same but for what the writes say. -/
structure Inputs.Alike (i j : Inputs) : Prop where
  awvalid : i.awvalid = j.awvalid
  wvalid : i.wvalid = j.wvalid
  bready : i.bready = j.bready
  araddr : i.araddr = j.araddr
  arvalid : i.arvalid = j.arvalid
  rready : i.rready = j.rready

theorem Inputs.Alike.refl (i : Inputs) :
  i.Alike i
  := ⟨rfl, rfl, rfl, rfl, rfl, rfl⟩

theorem ReadChannel.posedge_alike (r : ReadChannel) {i j : Inputs} (hij : i.Alike j) (aresetn : Bool)
    (word : BitVec 32) :
  r.posedge i aresetn word = r.posedge j aresetn word
  := by
  rw [posedge, posedge, arFire, arFire, hij.arvalid, hij.rready]

namespace WriteChannel

/-! ### Channels in step -/

/-- The flags of two write channels are the same. -/
structure InStep (v w : WriteChannel) : Prop where
  awPend : v.awPend = w.awPend
  wPend : v.wPend = w.wPend
  bvalidQ : v.bvalidQ = w.bvalidQ

namespace InStep

variable {v w : WriteChannel} (h : InStep v w)

include h

theorem awready_eq :
  v.awready = w.awready
  := by
  rw [awready, awready, h.awPend, h.bvalidQ]

theorem wready_eq :
  v.wready = w.wready
  := by
  rw [wready, wready, h.wPend, h.bvalidQ]

variable {i j : Inputs} (hij : i.Alike j)

include hij

theorem awFire_eq :
  v.awFire i = w.awFire j
  := by
  rw [awFire, awFire, h.awready_eq, hij.awvalid]

theorem wFire_eq :
  v.wFire i = w.wFire j
  := by
  rw [wFire, wFire, h.wready_eq, hij.wvalid]

theorem wrCommit_eq :
  v.wrCommit i = w.wrCommit j
  := by
  rw [wrCommit, wrCommit, h.awPend, h.wPend, h.awFire_eq hij, h.wFire_eq hij]

theorem edge (aresetn : Bool) :
  InStep (v.posedge i aresetn) (w.posedge j aresetn)
  := by
  cases aresetn with
  | false => exact ⟨rfl, rfl, rfl⟩
  | true =>
      constructor
      · rw [awPend_posedge, awPend_posedge, h.wrCommit_eq hij, h.awFire_eq hij, h.awPend]
      · rw [wPend_posedge, wPend_posedge, h.wrCommit_eq hij, h.wFire_eq hij, h.wPend]
      · rw [bvalidQ_posedge, bvalidQ_posedge, h.wrCommit_eq hij, h.bvalidQ, hij.bready]

end InStep

/-! ### Channels that agree -/

/-- Two write channels agree on the flags and on the payloads of the pending halves. -/
structure Agree (v w : WriteChannel) : Prop extends InStep v w where
  address : w.awPend = true → v.awAddrQ = w.awAddrQ
  data : w.wPend = true → v.wDataQ = w.wDataQ
  strobe : w.wPend = true → v.wStrbQ = w.wStrbQ

namespace Agree

/-- With nothing pending in either, two write channels agree if their responses do. -/
theorem of_free {v w : WriteChannel} (hv : v.awPend = false ∧ v.wPend = false)
    (hw : w.awPend = false ∧ w.wPend = false) (hb : v.bvalidQ = w.bvalidQ) :
  Agree v w
  := by
  have hstep : InStep v w := ⟨hv.1.trans hw.1.symm, hv.2.trans hw.2.symm, hb⟩
  use hstep
  · simp [hw.1]
  · simp [hw.2]
  · simp [hw.2]

variable {v w : WriteChannel} (h : Agree v w) (i : Inputs)

include h

theorem wrAddr_eq :
  v.wrAddr i = w.wrAddr i
  := by
  rw [wrAddr, wrAddr, h.awPend]
  cases hp : w.awPend
  · rfl
  · rw [h.address hp]

theorem wrData_eq :
  v.wrData i = w.wrData i
  := by
  rw [wrData, wrData, h.wPend]
  cases hp : w.wPend
  · rfl
  · rw [h.data hp]

theorem wrStrb_eq :
  v.wrStrb i = w.wrStrb i
  := by
  rw [wrStrb, wrStrb, h.wPend]
  cases hp : w.wPend
  · rfl
  · rw [h.strobe hp]

theorem edge (aresetn : Bool) :
  Agree (v.posedge i aresetn) (w.posedge i aresetn)
  := by
  cases aresetn with
  | false => exact of_free ⟨rfl, rfl⟩ ⟨rfl, rfl⟩ rfl
  | true =>
      have haw := h.awFire_eq (.refl i)
      have hw := h.wFire_eq (.refl i)
      use h.toInStep.edge (.refl i) true
      · intro hp
        cases hf : w.awFire i
        · simp [posedge, haw, hf, h.address (awPend_of_posedge hp hf)]
        · simp [posedge, haw, hf]
      · intro hp
        cases hf : w.wFire i
        · simp [posedge, hw, hf, h.data (wPend_of_posedge hp hf)]
        · simp [posedge, hw, hf]
      · intro hp
        cases hf : w.wFire i
        · simp [posedge, hw, hf, h.strobe (wPend_of_posedge hp hf)]
        · simp [posedge, hw, hf]

end Agree

end WriteChannel

end AxiLite
