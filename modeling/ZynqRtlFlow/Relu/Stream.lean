import ZynqRtlFlow.Model.ReluModel
import ZynqRtlFlow.Rtl.ReluAxi

/-!
# The stream of the Leaky ReLU

The beats handed over on `m_axis`, followed by the beat in the output register, are the
beats accepted on `s_axis`, in order, each activated with the slope that the writes
committed before its acceptance left, and each with its own `tlast`.
-/

namespace ReluAxi

/-- A cycle: the registers during it and the inputs presented. -/
abbrev Cycle : Type := State × Inputs

/-- A beat of either stream. -/
structure Beat where
  data : BitVec 8
  last : Bool
  deriving DecidableEq, Repr

/-! ### Traffic along a history -/

/-- A write to `SLOPE` with byte lane 0 strobed commits in this cycle. -/
def slopeLands (s : State) (i : Inputs) : Bool :=
  slopeWr s i && (s.write.wrStrb i.axil).getLsbD 0

/-- The values written to `SLOPE` with byte lane 0 strobed, in order. -/
def slopeWrites (h : List Cycle) : List (BitVec 8) :=
  h.filterMap fun c =>
    if slopeLands c.1 c.2 then some ((c.1.write.wrData c.2.axil).setWidth 8) else none

/-- The slope left by the writes of a history: the last one, or the reset value. -/
def slopeAfter (h : List Cycle) : BitVec 8 :=
  (slopeWrites h).getLast?.getD slopeReset

/-- The beat presented on `s_axis`. -/
def beatIn (i : Inputs) : Beat := ⟨i.sTdata, i.sTlast⟩

/-- The beat presented on `m_axis`. -/
def beatOut (s : State) : Beat := ⟨s.outDataQ, s.outLastQ⟩

/-- The beats accepted on `s_axis`, in order. -/
def accepted (h : List Cycle) : List Beat :=
  h.filterMap fun c => if inFire c.1 c.2 then some (beatIn c.2) else none

/-- The beats handed over on `m_axis`, in order. -/
def delivered (h : List Cycle) : List Beat :=
  h.filterMap fun c => if outFire c.1 c.2 then some (beatOut c.1) else none

/-- The beat in the output register. -/
def held (s : State) : List Beat :=
  if s.outValidQ then [beatOut s] else []

/-- The beats accepted, each with the slope left by the writes committed in earlier
cycles. -/
def acceptedWithSlope (h : List Cycle) : List (Beat × BitVec 8) :=
  (withPast h).filterMap fun p =>
    if inFire p.2.1 p.2.2 then some (beatIn p.2.2, slopeAfter p.1) else none

theorem slopeAfter_concat (h : List Cycle) (s : State) (i : Inputs) :
  slopeAfter (h ++ [(s, i)])
    = if slopeLands s i then (s.write.wrData i.axil).setWidth 8 else slopeAfter h
  := by
  cases hw : slopeLands s i <;> simp [slopeAfter, slopeWrites, hw]

theorem accepted_concat (h : List Cycle) (s : State) (i : Inputs) :
  accepted (h ++ [(s, i)]) = accepted h ++ if inFire s i then [beatIn i] else []
  := by
  cases hf : inFire s i <;> simp [accepted, hf]

theorem delivered_concat (h : List Cycle) (s : State) (i : Inputs) :
  delivered (h ++ [(s, i)]) = delivered h ++ if outFire s i then [beatOut s] else []
  := by
  cases hf : outFire s i <;> simp [delivered, hf]

theorem acceptedWithSlope_concat (h : List Cycle) (s : State) (i : Inputs) :
  acceptedWithSlope (h ++ [(s, i)])
    = acceptedWithSlope h ++ if inFire s i then [(beatIn i, slopeAfter h)] else []
  := by
  cases hf : inFire s i <;> simp [acceptedWithSlope, hf]

/-- The accepted beats are the accepted beats without their slopes. -/
theorem map_fst_acceptedWithSlope (h : List Cycle) :
  (acceptedWithSlope h).map Prod.fst = accepted h
  := by
  induction h using List.reverseRecOn with
  | nil => rfl
  | append_singleton h c ih =>
      obtain ⟨s, i⟩ := c
      rw [acceptedWithSlope_concat, accepted_concat, List.map_append, ih]
      cases inFire s i <;> rfl

/-! ### One edge -/

theorem slopeReg_posedge (s : State) (i : Inputs) :
  (posedge s i true).slopeReg
    = if slopeLands s i then (s.write.wrData i.axil).setWidth 8 else s.slopeReg
  := by
  have hmask : (s.write.wrData i.axil &&& slopeMask).setWidth 8
      = (s.write.wrData i.axil).setWidth 8 := by
    have hbit : ∀ k < 8, slopeMask.getLsbD k = true := by decide
    ext k hk
    simp [hbit k hk]
  rw [← hmask]
  rfl

/-- A beat is accepted only while the output register is free or being freed. -/
theorem outFire_of_inFire {s : State} {i : Inputs} (hin : inFire s i = true)
    (hv : s.outValidQ = true) :
  outFire s i = true
  := by
  simp_all [inFire, sTready, outFire]

/-- The beat held and the beat accepted in a cycle, activated, are the beat handed over
in it and the beat held after it. -/
theorem held_edge (s : State) (i : Inputs) :
  held s ++ (if inFire s i then [⟨activated s i, i.sTlast⟩] else [])
    = (if outFire s i then [beatOut s] else []) ++ held (posedge s i true)
  := by
  by_cases hin : inFire s i = true
  · by_cases hv : s.outValidQ = true
    · have hout := outFire_of_inFire hin hv
      simp [held, beatOut, outValidNext, outLastNext, outDataNext, hin, hv, hout]
    · have hout : outFire s i = false := by simp [outFire, hv]
      simp [held, beatOut, outValidNext, outLastNext, outDataNext, hin, hv, hout]
  · by_cases hout : outFire s i = true
    · have hv : s.outValidQ = true := by
        simp only [outFire, Bool.and_eq_true] at hout
        apply hout.1
      simp [held, beatOut, outValidNext, hin, hv, hout]
    · simp [held, beatOut, outValidNext, outLastNext, outDataNext, hin, hout]

/-! ### The whole run -/

/-- A beat activated with a slope. -/
def activate (a : Beat × BitVec 8) : Beat :=
  ⟨ReluUnit.y a.1.data a.2, a.1.last⟩

/-- The register holds the slope the history left, and every accepted beat has been
handed over activated or is held. -/
structure Streams (h : List Cycle) (s : State) : Prop where
  slope : s.slopeReg = slopeAfter h
  beats : delivered h ++ held s = (acceptedWithSlope h).map activate

theorem Streams.edge {h : List Cycle} {s : State} (hs : Streams h s) (i : Inputs) :
  Streams (h ++ [(s, i)]) (posedge s i true)
  := by
  constructor
  · rw [slopeReg_posedge, slopeAfter_concat, hs.slope]
  · have hedge := held_edge s i
    rw [delivered_concat, acceptedWithSlope_concat, List.append_assoc, ← hedge,
      ← List.append_assoc, hs.beats, List.map_append]
    cases inFire s i
    · rfl
    · simp [activate, activated, beatIn, hs.slope]

theorem streams_run (s : State) (i : Inputs) (is : List Inputs) :
  Streams (machine.history (reset s i) is) (machine.run (reset s i) is)
  := by
  apply machine.history_induction (P := Streams)
  · constructor
    · rfl
    · rfl
  · intro h t j hs
    apply hs.edge

/-- While a beat waits it does not change. -/
theorem held_of_stall {s : State} {i : Inputs} (hv : s.outValidQ = true)
    (hr : i.mTready = false) :
  (posedge s i true).outValidQ = true ∧ beatOut (posedge s i true) = beatOut s
  := by
  have hin : inFire s i = false := by simp [inFire, sTready, hv, hr]
  have hout : outFire s i = false := by simp [outFire, hr]
  simp [beatOut, outValidNext, outLastNext, outDataNext, hin, hout, hv]

/-- Every cycle in which the consumer takes a waiting beat hands it over, enabled or
not. -/
theorem delivered_of_ready (h : List Cycle) {s : State} {i : Inputs} (hv : s.outValidQ = true)
    (hr : i.mTready = true) :
  delivered (h ++ [(s, i)]) = delivered h ++ [beatOut s]
  := by
  have hout : outFire s i = true := by simp [outFire, hv, hr]
  rw [delivered_concat, hout]
  rfl

/-- The activation a beat asks for over unbounded integers: `x`, or the floor of
`x * slope / 256` for negative `x`; and the beat's own `tlast`. -/
def leaky (a : Beat × BitVec 8) : ℤ × Bool :=
  (if 0 ≤ a.1.data.toInt then a.1.data.toInt else a.1.data.toInt * (a.2.toNat : ℤ) / 256,
    a.1.last)

theorem activate_leaky (a : Beat × BitVec 8) :
  ((activate a).data.toInt, (activate a).last) = leaky a
  := by
  rw [activate, ReluUnit.toInt_y, ReluModel.activation_eq_floor]
  rfl

/-- What a history `h` that ends in the state `t` says of the stream: the beats handed
over and the at most one beat held are the accepted beats, in order, each mapped with the
slope left before its acceptance; a beat that waits is stable; none is accepted while
`EN` is low; and a ready consumer takes the beat held whatever `EN` is. -/
structure Lossless (h : List Cycle) (t : State) : Prop where
  beats : (delivered h ++ held t).map (fun b => (b.data.toInt, b.last))
    = (acceptedWithSlope h).map leaky
  one : (held t).length ≤ 1
  stable : ∀ j : Inputs, t.outValidQ = true → j.mTready = false →
    (posedge t j true).outValidQ = true ∧ beatOut (posedge t j true) = beatOut t
  gated : ∀ j : Inputs, enReg t = false → inFire t j = false
  leaves : ∀ j : Inputs, t.outValidQ = true → j.mTready = true →
    delivered (h ++ [(t, j)]) = delivered h ++ [beatOut t]

/-- After every run from reset the stream has been lossless and order-preserving. -/
theorem stream_is_lossless (s : State) (i : Inputs) (is : List Inputs) :
  Lossless (machine.history (reset s i) is) (machine.run (reset s i) is)
  := by
  have hs := streams_run s i is
  constructor
  · rw [hs.beats, List.map_map]
    apply List.map_congr_left
    intro a _
    apply activate_leaky
  · rw [held]
    split <;> simp
  · intro j
    apply held_of_stall
  · intro j hen
    simp [inFire, sTready, hen]
  · intro j
    apply delivered_of_ready

end ReluAxi
