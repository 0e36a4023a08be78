import ZynqRtlFlow.Relu.Stream
import ZynqRtlFlow.Synchronous.Tiles

/-!
# Tile accounting of the Leaky ReLU

`COUNT` is meant to be the length of the last completed tile and `STATUS` to say whether
an accepted beat is still inside.  Both are exact in every run in which no beat is
accepted in the cycle a `tlast` beat leaves, and in no other: at such an overlap the
completing tile is counted one beat too long, and the next tile's first beat is inside
with `BUSY` low.
-/

namespace ReluAxi

open Tiles

/-! ### What the registers are meant to report -/

/-- The number of completed tiles: of `tlast` beats that have left on `m_axis`. -/
def departed (h : List Cycle) : ℕ :=
  (delivered h).countP Beat.last

/-- The number of beats in the last completed tile, `0` if there is none. -/
def lastTileBeats (h : List Cycle) : ℕ :=
  if departed h = 0 then 0
  else ((tiles Beat.last (accepted h))[departed h - 1]?.getD []).length

/-- Some accepted beat's tile has not yet left. -/
def InFlight (h : List Cycle) : Prop :=
  ∃ j < (accepted h).length, departed h ≤ tileIndex Beat.last (accepted h) j

/-- At least one tile has completed and no beat of a later tile has been accepted. -/
def Completed (h : List Cycle) : Prop :=
  0 < departed h ∧ ∀ j < (accepted h).length, tileIndex Beat.last (accepted h) j < departed h

instance (h : List Cycle) : Decidable (InFlight h) :=
  inferInstanceAs (Decidable (∃ j < _, _))

instance (h : List Cycle) : Decidable (Completed h) :=
  inferInstanceAs (Decidable (_ ∧ ∀ j < _, _))

/-- A beat is accepted in the cycle a `tlast` beat leaves. -/
def overlap (s : State) (i : Inputs) : Bool :=
  inFire s i && tileDone s i

/-! ### The tile inside the accelerator -/

/-- The output register holds a `tlast` beat. -/
def heldLast (s : State) : Bool :=
  s.outValidQ && s.outLastQ

/-- The beats accepted of the tile that has not left: a complete tile when its `tlast`
beat is held, the open tile otherwise. -/
def inside (h : List Cycle) (s : State) : List Beat :=
  if heldLast s then (tiles Beat.last (accepted h))[departed h]?.getD []
  else openTile Beat.last (accepted h)

theorem tileDone_iff (s : State) (i : Inputs) :
  tileDone s i = (heldLast s && i.mTready)
  := by
  simp only [tileDone, outFire, heldLast]
  cases s.outValidQ <;> cases s.outLastQ <;> cases i.mTready <;> rfl

theorem departed_concat (h : List Cycle) (s : State) (i : Inputs) :
  departed (h ++ [(s, i)]) = departed h + (tileDone s i).toNat
  := by
  rw [departed, delivered_concat, List.countP_append, tileDone]
  cases hout : outFire s i
  · rfl
  · cases hl : s.outLastQ <;> simp [departed, beatOut, hl]

/-- The `tlast` beats accepted are those that have left and the one held. -/
theorem Streams.countP_accepted {h : List Cycle} {s : State} (hs : Streams h s) :
  (accepted h).countP Beat.last = departed h + (heldLast s).toNat
  := by
  have hlast : ((acceptedWithSlope h).map activate).countP Beat.last
      = ((acceptedWithSlope h).map Prod.fst).countP Beat.last := by
    rw [List.countP_map, List.countP_map]
    rfl
  rw [← map_fst_acceptedWithSlope, ← hlast, ← hs.beats, List.countP_append, departed, held,
    heldLast]
  cases s.outValidQ
  · rfl
  · cases hl : s.outLastQ <;> simp [beatOut, hl]

/-- The registers report the tile inside and the tiles completed. -/
structure Accounts (h : List Cycle) (s : State) : Prop where
  streams : Streams h s
  closed : heldLast s = true → openTile Beat.last (accepted h) = []
  busy : s.busyQ = true ↔ heldLast s = true ∨ openTile Beat.last (accepted h) ≠ []
  done : s.doneQ = true ↔ 0 < departed h ∧ s.busyQ = false
  beats : s.beatsQ = BitVec.ofNat 16 (inside h s).length
  count : s.countQ = BitVec.ofNat 16 (lastTileBeats h)

theorem Accounts.length_tiles {h : List Cycle} {s : State} (ha : Accounts h s) :
  (tiles Beat.last (accepted h)).length = departed h + (heldLast s).toNat
  := by
  rw [Tiles.length_tiles, ha.streams.countP_accepted]

/-- The last tile completed does not change while no tile completes. -/
theorem Accounts.lastTileBeats_concat {h : List Cycle} {s : State} (ha : Accounts h s)
    {i : Inputs} (hd : tileDone s i = false) :
  lastTileBeats (h ++ [(s, i)]) = lastTileBeats h
  := by
  have hdep : departed (h ++ [(s, i)]) = departed h := by
    simp [departed_concat, hd]
  have hlen := ha.length_tiles
  rw [lastTileBeats, lastTileBeats, hdep]
  by_cases hz : departed h = 0
  · rw [if_pos hz, if_pos hz]
  · rw [if_neg hz, if_neg hz, accepted_concat]
    cases inFire s i
    · simp
    · rw [if_pos rfl, getElem?_tiles_concat _ (by omega)]

/-- A beat is accepted over a held `tlast` beat only when that beat leaves. -/
theorem heldLast_eq_false {s : State} {i : Inputs} (hin : inFire s i = true)
    (hd : tileDone s i = false) :
  heldLast s = false
  := by
  cases hv : s.outValidQ
  · simp [heldLast, hv]
  · simp_all [tileDone, heldLast, outFire_of_inFire hin hv]

/-- The tile inside grows by the beat accepted. -/
theorem Accounts.inside_accept {h : List Cycle} {s : State} (ha : Accounts h s) {i : Inputs}
    (hin : inFire s i = true) (hd : tileDone s i = false) :
  inside (h ++ [(s, i)]) (posedge s i true) = inside h s ++ [beatIn i]
  := by
  have hheld := heldLast_eq_false hin hd
  have hlen := ha.length_tiles
  have hheld' : heldLast (posedge s i true) = i.sTlast := by
    simp [heldLast, outValidNext, outLastNext, hin]
  rw [hheld] at hlen
  rw [inside, inside, hheld, hheld', departed_concat, hd, accepted_concat, hin, if_pos rfl,
    tiles_concat, openTile_concat, beatIn]
  cases hl : i.sTlast
  · simp
  · have hd' : departed h = (tiles Beat.last (accepted h)).length := by simpa using hlen.symm
    simp [hd']

/-- A beat accepted, no tile leaving. -/
theorem Accounts.edge_accept {h : List Cycle} {s : State} (ha : Accounts h s) {i : Inputs}
    (hin : inFire s i = true) (hd : tileDone s i = false) :
  Accounts (h ++ [(s, i)]) (posedge s i true)
  := by
  have hheld' : heldLast (posedge s i true) = i.sTlast := by
    simp [heldLast, outValidNext, outLastNext, hin]
  have hbusy : (posedge s i true).busyQ = true := by
    cases hb : s.busyQ <;> simp [busyNext, hin, hd, hb]
  have hopen : openTile Beat.last (accepted (h ++ [(s, i)]))
      = if i.sTlast then [] else openTile Beat.last (accepted h) ++ [beatIn i] := by
    rw [accepted_concat, hin, if_pos rfl, openTile_concat, beatIn]
  constructor
  · apply ha.streams.edge
  · intro hl
    rw [hheld'] at hl
    rw [hopen, if_pos hl]
  · rw [hbusy, hheld', hopen]
    cases i.sTlast <;> simp
  · have hdone : s.busyQ = true → s.doneQ = false := by
      intro hb
      have := ha.done
      simp_all
    rw [hbusy]
    cases hb : s.busyQ <;> simp [doneNext, hin, hd, hb, hdone]
  · rw [ha.inside_accept hin hd, List.length_append]
    simp [beatsNext, hin, hd, ha.beats, BitVec.ofNat_add]
  · rw [ha.lastTileBeats_concat hd, ← ha.count]
    simp [countNext, hd]

/-- A tile leaving, no beat accepted. -/
theorem Accounts.edge_depart {h : List Cycle} {s : State} (ha : Accounts h s) {i : Inputs}
    (hin : inFire s i = false) (hd : tileDone s i = true) :
  Accounts (h ++ [(s, i)]) (posedge s i true)
  := by
  have hheld : heldLast s = true := by
    rw [tileDone_iff, Bool.and_eq_true] at hd
    apply hd.1
  have hout : outFire s i = true := by
    rw [tileDone, Bool.and_eq_true] at hd
    apply hd.1
  have hheld' : heldLast (posedge s i true) = false := by
    simp [heldLast, outValidNext, hin, hout]
  have hacc : accepted (h ++ [(s, i)]) = accepted h := by
    simp [accepted_concat, hin]
  have hdep : departed (h ++ [(s, i)]) = departed h + 1 := by
    simp [departed_concat, hd]
  have hbusy : (posedge s i true).busyQ = false := by
    simp [busyNext, hd]
  constructor
  · apply ha.streams.edge
  · intro hl
    rw [hheld'] at hl
    cases hl
  · rw [hbusy, hheld', hacc, ha.closed hheld]
    simp
  · rw [hbusy, hdep]
    simp [doneNext, hd]
  · simp [inside, hheld', hacc, ha.closed hheld, beatsNext, hd]
  · rw [lastTileBeats, hdep, hacc]
    simp [countNext, hd, hin, ha.beats, inside, hheld]

/-- No beat accepted and no tile leaving. -/
theorem Accounts.edge_wait {h : List Cycle} {s : State} (ha : Accounts h s) {i : Inputs}
    (hin : inFire s i = false) (hd : tileDone s i = false) :
  Accounts (h ++ [(s, i)]) (posedge s i true)
  := by
  have hheld' : heldLast (posedge s i true) = heldLast s := by
    cases hout : outFire s i
    · simp [heldLast, outValidNext, outLastNext, hin, hout]
    · have hl : s.outLastQ = false := by simpa [tileDone, hout] using hd
      simp [heldLast, outValidNext, hin, hout, hl]
  have hacc : accepted (h ++ [(s, i)]) = accepted h := by
    simp [accepted_concat, hin]
  have hdep : departed (h ++ [(s, i)]) = departed h := by
    simp [departed_concat, hd]
  constructor
  · apply ha.streams.edge
  · rw [hheld', hacc]
    apply ha.closed
  · rw [hheld', hacc, ← ha.busy]
    simp [busyNext, hin, hd]
  · rw [hdep]
    simpa [doneNext, busyNext, hin, hd] using ha.done
  · simp [inside, hheld', hacc, hdep, beatsNext, hin, hd, ha.beats]
  · rw [ha.lastTileBeats_concat hd, ← ha.count]
    simp [countNext, hd]

theorem Accounts.edge {h : List Cycle} {s : State} (ha : Accounts h s) {i : Inputs}
    (ho : overlap s i = false) :
  Accounts (h ++ [(s, i)]) (posedge s i true)
  := by
  cases hin : inFire s i
  · cases hd : tileDone s i
    · apply ha.edge_wait hin hd
    · apply ha.edge_depart hin hd
  · have hd : tileDone s i = false := by simpa [overlap, hin] using ho
    apply ha.edge_accept hin hd

theorem accounts_reset (s : State) (i : Inputs) :
  Accounts [] (reset s i)
  := by
  constructor
  · constructor
    · rfl
    · rfl
  · intro _
    rfl
  · simp [reset, posedge, heldLast, accepted]
  · simp [reset, posedge, departed, delivered]
  · simp [reset, posedge, inside, heldLast, accepted]
  · simp [reset, posedge, lastTileBeats, departed, delivered]

/-! ### Runs without an overlap -/

/-- In a run without an overlap the registers account for the tiles. -/
theorem accounts_run (s : State) (i : Inputs) (is : List Inputs)
    (ho : ∀ c ∈ machine.history (reset s i) is, overlap c.1 c.2 = false) :
  Accounts (machine.history (reset s i) is) (machine.run (reset s i) is)
  := by
  induction is using List.reverseRecOn with
  | nil => apply accounts_reset
  | append_singleton is j ih =>
      rw [machine.history_concat] at ho ⊢
      rw [machine.run_concat]
      apply Accounts.edge
      · apply ih
        intro c hc
        apply ho c (List.mem_append_left _ hc)
      · apply ho (machine.run (reset s i) is, j) (by simp)

/-- A property of histories and states that follows from the accounts, and fails right
after an overlap, holds throughout a run exactly when the run has no overlap. -/
theorem forall_prefix_iff_no_overlap {P : List Cycle → State → Prop}
    (sound : ∀ h t, Accounts h t → P h t)
    (sharp : ∀ h t j, Accounts h t → overlap t j = true → ¬ P (h ++ [(t, j)]) (posedge t j true))
    (s : State) (i : Inputs) (is : List Inputs) :
  (∀ js, js <+: is → P (machine.history (reset s i) js) (machine.run (reset s i) js))
    ↔ ∀ c ∈ machine.history (reset s i) is, overlap c.1 c.2 = false
  := by
  constructor
  · intro hP
    induction is using List.reverseRecOn with
    | nil => simp
    | append_singleton is j ih =>
        have ho := ih fun js hjs => hP js (hjs.trans (List.prefix_append is [j]))
        have ha := accounts_run s i is ho
        have hlast := hP (is ++ [j]) (List.prefix_refl _)
        rw [machine.history_concat, machine.run_concat] at hlast
        rw [machine.history_concat]
        intro c hc
        rcases List.mem_append.mp hc with hc | hc
        · apply ho c hc
        · obtain rfl := List.mem_singleton.mp hc
          by_contra hover
          apply sharp _ _ j ha (by simpa using hover) hlast
  · rintro ho js ⟨ks, rfl⟩
    apply sound
    apply accounts_run
    intro c hc
    apply ho
    rw [machine.history_append]
    apply List.mem_append_left _ hc

/-! ### `COUNT` -/

/-- At an overlap the completing tile is counted one beat too long. -/
theorem Accounts.countQ_of_overlap {h : List Cycle} {s : State} (ha : Accounts h s) {i : Inputs}
    (ho : overlap s i = true) :
  (posedge s i true).countQ = BitVec.ofNat 16 (lastTileBeats (h ++ [(s, i)]) + 1)
  := by
  obtain ⟨hin, hd⟩ : inFire s i = true ∧ tileDone s i = true := by simpa [overlap] using ho
  have hheld : heldLast s = true := by
    rw [tileDone_iff, Bool.and_eq_true] at hd
    apply hd.1
  have hlen := ha.length_tiles
  rw [hheld, Bool.toNat_true] at hlen
  have hdep : departed (h ++ [(s, i)]) = departed h + 1 := by
    simp [departed_concat, hd]
  have hinside : lastTileBeats (h ++ [(s, i)]) = (inside h s).length := by
    rw [lastTileBeats, hdep, if_neg (by omega), accepted_concat, hin, if_pos rfl,
      getElem?_tiles_concat _ (by omega), inside, hheld]
    rfl
  rw [hinside, BitVec.ofNat_add, ← ha.beats]
  simp [countNext, hd, hin]

/-- `COUNT` is the number of beats in the last completed tile after every edge of a run
exactly when no beat of the run is accepted in the cycle a `tlast` beat leaves. -/
theorem count_right_iff (s : State) (i : Inputs) (is : List Inputs) :
  (∀ js, js <+: is → (machine.run (reset s i) js).countQ
      = BitVec.ofNat 16 (lastTileBeats (machine.history (reset s i) js)))
    ↔ ∀ c ∈ machine.history (reset s i) is, overlap c.1 c.2 = false
  := by
  apply forall_prefix_iff_no_overlap
    (P := fun h t => t.countQ = BitVec.ofNat 16 (lastTileBeats h))
  · intro h t ha
    apply ha.count
  · intro h t j ha ho heq
    rw [ha.countQ_of_overlap ho] at heq
    have hnat := congrArg BitVec.toNat heq
    simp only [BitVec.toNat_ofNat] at hnat
    omega

/-- An all-zero state of the registers. -/
def zero : State where
  write := ⟨false, false, false, 0, 0, 0⟩
  read := ⟨false, 0⟩
  ctrlReg := 0
  slopeReg := 0
  outValidQ := false
  outLastQ := false
  outDataQ := 0
  busyQ := false
  doneQ := false
  beatsQ := 0
  countQ := 0

/-- A cycle with a ready consumer and, when `valid`, a one-beat tile on `s_axis`. -/
def tileCycle (valid : Bool) : Inputs where
  axil := ⟨0, false, 0, 0, false, false, 0, false, false⟩
  sTdata := 0
  sTvalid := valid
  sTlast := true
  mTready := true

/-- Two one-beat tiles without a gap: the first is reported as two beats long. -/
theorem count_wrong_back_to_back :
  (machine.run (reset zero (tileCycle false)) [tileCycle true, tileCycle true]).countQ = 2#16
    ∧ lastTileBeats (machine.history (reset zero (tileCycle false))
      [tileCycle true, tileCycle true]) = 1
  := by
  decide

/-! ### `STATUS` -/

theorem statusWord_busy (s : State) :
  (statusWord s).getLsbD statusBusy = s.busyQ
  := by
  cases hb : s.busyQ <;> cases hd : s.doneQ <;> simp [statusWord, hb, hd]

theorem statusWord_done (s : State) :
  (statusWord s).getLsbD statusDone = s.doneQ
  := by
  cases hb : s.busyQ <;> cases hd : s.doneQ <;> simp [statusWord, hb, hd]

theorem Accounts.inFlight_iff {h : List Cycle} {s : State} (ha : Accounts h s) :
  InFlight h ↔ s.busyQ = true
  := by
  have hcount := ha.streams.countP_accepted
  rw [InFlight, exists_le_tileIndex_iff _ _ (by omega), ha.busy, hcount]
  cases heldLast s <;> simp

theorem completed_iff (h : List Cycle) :
  Completed h ↔ 0 < departed h ∧ ¬ InFlight h
  := by
  simp [Completed, InFlight]

/-- At an overlap a beat of the next tile is inside. -/
theorem Accounts.inFlight_of_overlap {h : List Cycle} {s : State} (ha : Accounts h s)
    {i : Inputs} (ho : overlap s i = true) :
  InFlight (h ++ [(s, i)])
  := by
  obtain ⟨hin, hd⟩ : inFire s i = true ∧ tileDone s i = true := by simpa [overlap] using ho
  have hheld : heldLast s = true := by
    rw [tileDone_iff, Bool.and_eq_true] at hd
    apply hd.1
  have hcount := ha.streams.countP_accepted
  rw [hheld, Bool.toNat_true] at hcount
  use (accepted h).length
  constructor
  · simp [accepted_concat, hin]
  · simp [departed_concat, hd, accepted_concat, hin, tileIndex, hcount]

/-- `BUSY` says whether an accepted beat's tile has yet to leave, and `DONE` whether the
last tile completed with no beat of a later one accepted, after every edge of a run
exactly when no beat of the run is accepted in the cycle a `tlast` beat leaves. -/
theorem status_right_iff (s : State) (i : Inputs) (is : List Inputs) :
  (∀ js, js <+: is →
      ((statusWord (machine.run (reset s i) js)).getLsbD statusBusy = true
        ↔ InFlight (machine.history (reset s i) js))
      ∧ ((statusWord (machine.run (reset s i) js)).getLsbD statusDone = true
        ↔ Completed (machine.history (reset s i) js)))
    ↔ ∀ c ∈ machine.history (reset s i) is, overlap c.1 c.2 = false
  := by
  apply forall_prefix_iff_no_overlap
    (P := fun h t => ((statusWord t).getLsbD statusBusy = true ↔ InFlight h)
      ∧ ((statusWord t).getLsbD statusDone = true ↔ Completed h))
  · intro h t ha
    rw [statusWord_busy, statusWord_done, completed_iff, ha.inFlight_iff, ha.done]
    simp
  · rintro h t j ha ho ⟨hbusy, -⟩
    have hd : tileDone t j = true := by
      rw [overlap, Bool.and_eq_true] at ho
      apply ho.2
    have hb := hbusy.mpr (ha.inFlight_of_overlap ho)
    rw [statusWord_busy] at hb
    simp [busyNext, hd] at hb

/-- Two one-beat tiles without a gap: `BUSY` reads 0 and `DONE` reads 1 with the second
tile's beat still inside. -/
theorem status_wrong_back_to_back :
  statusWord (machine.run (reset zero (tileCycle false)) [tileCycle true, tileCycle true])
      = 2#32
    ∧ InFlight (machine.history (reset zero (tileCycle false)) [tileCycle true, tileCycle true])
    ∧ ¬ Completed (machine.history (reset zero (tileCycle false))
      [tileCycle true, tileCycle true])
  := by
  decide

end ReluAxi
