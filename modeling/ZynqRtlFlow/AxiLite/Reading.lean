import ZynqRtlFlow.Rtl.AxiLite
import ZynqRtlFlow.Synchronous.Machine

/-!
# Read addresses and read data

The read channel holds one word.  Along any history the words handed over, followed by
the word held, are the words the register map gave for the addresses accepted, in order:
no read is lost, answered twice or answered with another's word.
-/

namespace AxiLite.ReadChannel

/-- A cycle of the read channel: its registers, the inputs of the port, and the word the
register map gives for the address presented. -/
abbrev Cycle : Type := ReadChannel × Inputs × BitVec 32

/-- The word the register map gave for every address accepted, in order. -/
def accepted (h : List Cycle) : List (BitVec 32) :=
  h.filterMap fun c => if c.1.arFire c.2.1 then some c.2.2 else none

/-- The words handed over, in order. -/
def handedOver (h : List Cycle) : List (BitVec 32) :=
  h.filterMap fun c => if c.1.rvalidQ && c.2.1.rready then some c.1.rdataQ else none

/-- The word held for the master. -/
def outstanding (r : ReadChannel) : List (BitVec 32) :=
  if r.rvalidQ then [r.rdataQ] else []

theorem accepted_concat (h : List Cycle) (r : ReadChannel) (i : Inputs) (word : BitVec 32) :
  accepted (h ++ [(r, i, word)]) = accepted h ++ if r.arFire i then [word] else []
  := by
  cases hf : r.arFire i <;> simp [accepted, hf]

theorem handedOver_concat (h : List Cycle) (r : ReadChannel) (i : Inputs) (word : BitVec 32) :
  handedOver (h ++ [(r, i, word)])
    = handedOver h ++ if r.rvalidQ && i.rready then [r.rdataQ] else []
  := by
  cases hv : r.rvalidQ <;> cases hr : i.rready <;> simp [handedOver, hv, hr]

/-- The word held and the word given for an address accepted in a cycle are the word
handed over in it and the word held after it. -/
theorem outstanding_edge (r : ReadChannel) (i : Inputs) (word : BitVec 32) :
  outstanding r ++ (if r.arFire i then [word] else [])
    = (if r.rvalidQ && i.rready then [r.rdataQ] else []) ++ outstanding (r.posedge i true word)
  := by
  cases hv : r.rvalidQ
  · cases hf : r.arFire i
    · simp [outstanding, posedge, hf, hv]
    · simp [outstanding, posedge, hf, hv]
  · have hf : r.arFire i = false := by simp [arFire, arready, hv]
    cases hr : i.rready
    · simp [outstanding, posedge, hf, hv, hr]
    · simp [outstanding, posedge, hf, hv, hr]

/-- Every address accepted has been answered, in order, or its word is held. -/
def Answered (h : List Cycle) (r : ReadChannel) : Prop :=
  accepted h = handedOver h ++ outstanding r

theorem Answered.edge {h : List Cycle} {r : ReadChannel} (ha : Answered h r) (i : Inputs)
    (word : BitVec 32) :
  Answered (h ++ [(r, i, word)]) (r.posedge i true word)
  := by
  have hedge := outstanding_edge r i word
  rw [Answered, accepted_concat, handedOver_concat, ha, List.append_assoc, hedge,
    List.append_assoc]

/-- In a run of a machine with a read channel every address accepted is answered. -/
theorem answered_run {σ ι : Type*} {m : Machine σ ι} {read : σ → ReadChannel} {axil : ι → Inputs}
    {word : σ → ι → BitVec 32}
    (part : ∀ s i, read (m.next s i) = (read s).posedge (axil i) true (word s i)) {s : σ}
    (start : (read s).rvalidQ = false) (is : List ι) :
  Answered ((m.history s is).map fun c => (read c.1, axil c.2, word c.1 c.2)) (read (m.run s is))
  := by
  apply m.history_induction
    (P := fun h t => Answered (h.map fun c => (read c.1, axil c.2, word c.1 c.2)) (read t))
  · rw [Answered, outstanding, start]
    rfl
  · intro h t i ha
    rw [part, List.map_append, List.map_singleton]
    apply ha.edge

theorem length_outstanding (r : ReadChannel) :
  (outstanding r).length ≤ 1
  := by
  rw [outstanding]
  split <;> simp

/-- A word that waits does not change. -/
theorem posedge_of_waiting {r : ReadChannel} {i : Inputs} (hv : r.rvalidQ = true)
    (hr : i.rready = false) (word : BitVec 32) :
  r.posedge i true word = r
  := by
  simp [posedge, arFire, arready, hv, hr]

/-- A word that is taken is gone. -/
theorem posedge_of_taken {r : ReadChannel} {i : Inputs} (hv : r.rvalidQ = true)
    (hr : i.rready = true) (word : BitVec 32) :
  (r.posedge i true word).rvalidQ = false
  := by
  simp [posedge, arFire, arready, hv, hr]

/-- An accepted address is answered in the next cycle. -/
theorem posedge_of_arFire {r : ReadChannel} {i : Inputs} (hf : r.arFire i = true)
    (word : BitVec 32) :
  r.posedge i true word = ⟨true, word⟩
  := by
  simp [posedge, hf]

end AxiLite.ReadChannel
