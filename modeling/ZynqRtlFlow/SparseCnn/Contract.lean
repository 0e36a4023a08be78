import ZynqRtlFlow.Board.Contract
import ZynqRtlFlow.Driver.SparseCnn
import ZynqRtlFlow.SparseCnn.Control
import ZynqRtlFlow.SparseCnn.Tiles

/-!
# The sparse CNN keeps the accelerator contract

The only write ever posted is the START of a tile.  From there the tile goes through its
phases: the write is posted, the START pulse is up, the processing element is cleared,
beats are consumed, the results are latched, the tile is done.  No beat is accepted before
the tile runs, so the beats counted are those of this tile, all of them and in order.
-/

namespace SparseCnnAxi

open AxiLite Driver Board
open Driver.SparseCnn (Result sparseCnnOps)

/-! ### The writes posted -/

/-- The write that starts a tile. -/
def startWrite : BitVec 8 × BitVec 32 :=
  (Driver.SparseCnn.regCtrl, Driver.SparseCnn.ctrlEn ||| Driver.SparseCnn.ctrlStart)

/-- Every write posted starts a tile, and none has raised a CLEAR pulse. -/
structure Clean (s : State) (b : Bus) : Prop where
  coherent : b.Coherent s.write
  posted : ∀ x ∈ b.posted, x = startWrite
  clear : clearPulse s = false

section Clean

variable {s : State} {b : Bus} (h : Clean s b) {e : AxiLite.Inputs} {i : Inputs}
  (hi : i.axil = b.drive e)

include h hi

/-- A write that commits is a START with the enable, and no CLEAR. -/
theorem Clean.lands (hc : s.write.wrCommit i.axil = true) :
  ctrlLands s i = true ∧ s.write.wrData i.axil = startWrite.2
  := by
  rw [hi] at hc
  obtain ⟨-, hstrb, hposted⟩ := h.coherent.cycle_of_commit hc
  have holdest : (s.write.wrAddr (b.drive e), s.write.wrData (b.drive e)) = startWrite := by
    apply h.posted
    rw [hposted]
    apply List.mem_cons_self
  obtain ⟨haddr, hdata⟩ := Prod.mk.inj holdest
  rw [ctrlLands, ctrlWr, hi, hc, haddr, hstrb]
  use rfl, hdata

theorem Clean.startCommit_eq :
  startCommit s i = s.write.wrCommit i.axil
  := by
  cases hc : s.write.wrCommit i.axil
  · rw [startCommit, ctrlLands, ctrlWr, hc]
    rfl
  · obtain ⟨hlands, hdata⟩ := h.lands hi hc
    rw [startCommit, hlands, hdata]
    rfl

theorem Clean.clearCommit_eq :
  clearCommit s i = false
  := by
  cases hc : s.write.wrCommit i.axil
  · rw [clearCommit, ctrlLands, ctrlWr, hc]
    rfl
  · obtain ⟨hlands, hdata⟩ := h.lands hi hc
    rw [clearCommit, hlands, hdata]
    rfl

/-- The writes posted after a cycle: the oldest is gone if it has committed. -/
theorem Clean.posted_cycle :
  (b.cycle s.write i.axil).posted
    = if startCommit s i then b.posted.tail else b.posted
  := by
  rw [h.startCommit_eq hi, hi]
  cases hc : s.write.wrCommit (b.drive e)
  · apply (h.coherent.cycle_of_wait hc).2
  · rw [(h.coherent.cycle_of_commit hc).2.2]
    rfl

theorem Clean.cycle :
  Clean (posedge s i true) (b.cycle s.write i.axil)
  := by
  constructor
  · apply h.coherent.cycle_of_drive hi
  · rw [h.posted_cycle hi]
    intro x hx
    apply h.posted
    split at hx
    · apply List.mem_of_mem_tail hx
    · apply hx
  · rw [clearPulse_posedge, h.clearCommit_eq hi]

/-- With nothing posted, nothing commits. -/
theorem Clean.startCommit_of_nil (hb : b.posted = []) :
  startCommit s i = false
  := by
  rw [h.startCommit_eq hi, hi, h.coherent.wrCommit_eq]
  obtain ⟨haw, hw⟩ := h.coherent.free hb
  obtain ⟨haw', -⟩ := Bus.drive_nil hb e
  rw [h.coherent.awSent, haw, WriteChannel.awFire, haw']
  rfl

end Clean

/-- No tile is in flight, and no START is on its way. -/
structure Ready (s : State) (b : Bus) : Prop where
  clean : Clean s b
  posted : b.posted = []
  state : s.state = .idle
  start : startPulse s = false

/-! ### The phases of a tile -/

/-- The tile has been latched. -/
structure Finished (tile : List Beat) (s : State) (b : Bus) : Prop where
  ready : Ready s b
  done : s.doneQ = true
  acc : s.accQ = Tile.acc ⟨[], tile⟩
  skip : s.skipQ = Tile.skip ⟨[], tile⟩

/-- Where a started tile is, with so many of its beats accepted. -/
inductive Phase (tile : List Beat) (s : State) (b : Bus) : ℕ → Prop
  | posted (hposted : b.posted = [startWrite]) (hstate : s.state = .idle)
      (hstart : startPulse s = false) : Phase tile s b 0
  | pulse (hposted : b.posted = []) (hstate : s.state = .idle) (hstart : startPulse s = true) :
      Phase tile s b 0
  | clear (hposted : b.posted = []) (hstate : s.state = .clear) (hdone : s.doneQ = false)
      (hstart : startPulse s = false) : Phase tile s b 0
  | run (j : ℕ) (hj : j < tile.length) (hposted : b.posted = []) (hstate : s.state = .run)
      (hdone : s.doneQ = false) (hstart : startPulse s = false)
      (hpe : Holds s.pe ⟨[], tile.take j⟩) : Phase tile s b j
  | latch (hposted : b.posted = []) (hstate : s.state = .latch) (hdone : s.doneQ = false)
      (hstart : startPulse s = false) (hpe : Holds s.pe ⟨[], tile⟩) : Phase tile s b tile.length
  | finished (h : Finished tile s b) : Phase tile s b tile.length

section Cycle

variable {tile : List Beat} {s : State} {b : Bus} (h : Clean s b) {e : AxiLite.Inputs}
  {i : Inputs} (hi : i.axil = b.drive e)

include h hi

/-- With nothing posted, nothing is posted after a cycle and no START pulse is up. -/
theorem Clean.quiet (hb : b.posted = []) :
  (b.cycle s.write i.axil).posted = [] ∧ startPulse (posedge s i true) = false
  := by
  have hc := h.startCommit_of_nil hi hb
  constructor
  · rw [h.posted_cycle hi, hc, hb]
    rfl
  · rw [startPulse_posedge, hc]

omit h in
theorem Ready.cycle (h : Ready s b) :
  Ready (posedge s i true) (b.cycle s.write i.axil)
  := by
  obtain ⟨hposted, hstart⟩ := h.clean.quiet hi h.posted
  constructor
  · apply h.clean.cycle hi
  · apply hposted
  · rw [posedge_state, stateNext, h.state, h.start]
    rfl
  · apply hstart

omit h in
theorem Finished.cycle (h : Finished tile s b) :
  Finished tile (posedge s i true) (b.cycle s.write i.axil)
  := by
  have hne : s.state ≠ .latch := by simp [h.ready.state]
  constructor
  · apply h.ready.cycle hi
  · simp [doneNext, h.ready.state, h.ready.start, h.done]
  · rw [posedge_accQ, accNext_of_ne_latch hne, h.ready.clean.clear]
    apply h.acc
  · rw [posedge_skipQ, skipNext_of_ne_latch hne, h.ready.clean.clear]
    apply h.skip

/-- A cycle that accepts no beat. -/
theorem Phase.cycle_still {j : ℕ} (hp : Phase tile s b j) (htile : tile ≠ [])
    (hbeat : beatOf s i = none) :
  Phase tile (posedge s i true) (b.cycle s.write i.axil) j
  := by
  have hnobeat : beat s i = false := by
    cases hb : beat s i
    · rfl
    · simp [beatOf, hb] at hbeat
  cases hp with
  | posted hposted hstate hstart =>
      have hposted' := h.posted_cycle hi
      have hstate' : (posedge s i true).state = .idle := by
        rw [posedge_state, stateNext, hstate, hstart]
        rfl
      cases hc : startCommit s i
      · apply Phase.posted
        · rw [hposted', hc, hposted]
          rfl
        · apply hstate'
        · rw [startPulse_posedge, hc]
      · apply Phase.pulse
        · rw [hposted', hc, hposted]
          rfl
        · apply hstate'
        · rw [startPulse_posedge, hc]
  | pulse hposted hstate hstart =>
      obtain ⟨hposted', hstart'⟩ := h.quiet hi hposted
      apply Phase.clear hposted' _ _ hstart'
      · rw [posedge_state, stateNext, hstate, hstart]
        rfl
      · rw [posedge_doneQ, doneNext, hstate, hstart]
        rfl
  | clear hposted hstate hdone hstart =>
      obtain ⟨hposted', hstart'⟩ := h.quiet hi hposted
      apply Phase.run 0 (List.length_pos_iff.mpr htile) hposted' _ _ hstart'
      · apply holds_clear
        simp [peClear, hstate]
      · rw [posedge_state, stateNext, hstate]
      · rw [posedge_doneQ, doneNext, hstate]
        apply hdone
  | run j hj hposted hstate hdone hstart hpe =>
      obtain ⟨hposted', hstart'⟩ := h.quiet hi hposted
      apply Phase.run j hj hposted' _ _ hstart'
      · have hholds := hpe.cycle i (by simp [peClear, hstate, h.clear])
        have hsame : Tile.cycle ⟨[], tile.take j⟩ false none = ⟨[], tile.take j⟩ := by
          simp [Tile.cycle]
        rw [hbeat, hsame] at hholds
        apply hholds
      · rw [posedge_state, stateNext, hstate, hnobeat]
        rfl
      · rw [posedge_doneQ, doneNext, hstate]
        apply hdone
  | latch hposted hstate hdone hstart hpe =>
      obtain ⟨hposted', hstart'⟩ := h.quiet hi hposted
      apply Phase.finished
      constructor
      · use h.cycle hi, hposted'
        rw [posedge_state, stateNext, hstate]
      · rw [posedge_doneQ, doneNext, hstate]
      · rw [posedge_accQ, accNext, h.clear, hstate]
        apply hpe.1
      · rw [posedge_skipQ, skipNext, h.clear, hstate]
        apply hpe.2
  | finished hf =>
      apply Phase.finished
      apply hf.cycle hi

omit h hi in
/-- Only a running tile is in the state that accepts beats. -/
theorem Phase.of_run {j : ℕ} (hp : Phase tile s b j) (hrun : s.state = .run) :
  b.posted = [] ∧ s.doneQ = false ∧ Holds s.pe ⟨[], tile.take j⟩
  := by
  cases hp with
  | posted hposted hstate => simp [hstate] at hrun
  | pulse hposted hstate => simp [hstate] at hrun
  | clear hposted hstate => simp [hstate] at hrun
  | run j hj hposted hstate hdone hstart hpe => exact ⟨hposted, hdone, hpe⟩
  | latch hposted hstate => simp [hstate] at hrun
  | finished hf => simp [hf.ready.state] at hrun

/-- A cycle that accepts the next beat of the tile. -/
theorem Phase.cycle_beat {j : ℕ} (hp : Phase tile s b j) {x : Beat} (hbeat : beatOf s i = some x)
    (hx : tile[j]? = some x) (hlast : x.last = decide (tile.length ≤ j + 1)) :
  Phase tile (posedge s i true) (b.cycle s.write i.axil) (j + 1)
  := by
  have hfire : beat s i = true := by
    cases hb : beat s i
    · simp [beatOf, hb] at hbeat
    · rfl
  have hlast' : i.tlast = x.last := by
    simp only [beatOf, hfire, if_true, Option.some.injEq] at hbeat
    rw [← hbeat]
  have hrun := ((beat_iff s i).mp hfire).2.1
  obtain ⟨hposted, hdone, hpe⟩ := hp.of_run hrun
  obtain ⟨hposted', hstart'⟩ := h.quiet hi hposted
  have hholds := hpe.cycle i (by simp [peClear, hrun, h.clear])
  have hmore : Tile.cycle ⟨[], tile.take j⟩ false (some x) = ⟨[], tile.take (j + 1)⟩ := by
    rw [List.take_add_one, hx]
    rfl
  rw [hbeat, hmore] at hholds
  have hdone' : (posedge s i true).doneQ = false := by
    rw [posedge_doneQ, doneNext, hrun]
    apply hdone
  have hstate' : (posedge s i true).state = if x.last then .latch else .run := by
    rw [posedge_state, stateNext, hrun, hfire, hlast']
    rfl
  cases hl : x.last
  · have hj' : j + 1 < tile.length := by
      rw [hl] at hlast
      simpa using hlast.symm
    apply Phase.run (j + 1) hj' hposted' _ hdone' hstart' hholds
    rw [hstate', hl]
    rfl
  · have hj' : j + 1 = tile.length := by
      have hlt : j < tile.length := (List.getElem?_eq_some_iff.mp hx).1
      have hle : tile.length ≤ j + 1 := by
        rw [hl] at hlast
        simpa using hlast.symm
      omega
    rw [hj'] at hholds ⊢
    rw [List.take_length] at hholds
    apply Phase.latch hposted' _ hdone' hstart' hholds
    rw [hstate', hl]
    rfl

end Cycle

/-! ### The beats of a buffer -/

/-- The tile of `n` beats in a buffer: a beat is two bytes, the weight first. -/
def tileOf (buf : ℕ → BitVec 8) (n : ℕ) : List Beat :=
  (List.range n).map fun k => ⟨buf (k * 2), buf (k * 2 + 1), decide (n ≤ k + 1)⟩

theorem length_tileOf (buf : ℕ → BitVec 8) (n : ℕ) :
  (tileOf buf n).length = n
  := by
  simp [tileOf]

/-- A started tile with `j` beats accepted. -/
structure Inside (tile : List Beat) (j : ℕ) (s : State) (b : Bus) : Prop where
  clean : Clean s b
  phase : Phase tile s b j

theorem weight_inputs (axil : AxiLite.Inputs) (valid : Bool) (lo hi : BitVec 8) (last : Bool) :
  weight (inputs axil valid [lo, hi] last) = lo
  := BitVec.extractLsb'_append_eq_right

theorem act_inputs (axil : AxiLite.Inputs) (valid : Bool) (lo hi : BitVec 8) (last : Bool) :
  act (inputs axil valid [lo, hi] last) = hi
  := BitVec.extractLsb'_append_eq_left

theorem inputs_axil (axil : AxiLite.Inputs) (valid : Bool) (beat : List (BitVec 8)) (last : Bool) :
  (inputs axil valid beat last).axil = axil
  := rfl

theorem beatAt_eq (buf : ℕ → BitVec 8) (j : ℕ) :
  beatAt accelerator buf j = [buf (j * 2), buf (j * 2 + 1)]
  := rfl

/-- The beat a cycle accepts, if the DMA presents beat `j` of a buffer. -/
theorem beatOf_inputs {s : State} {axil : AxiLite.Inputs} {buf : ℕ → BitVec 8} {n j : ℕ}
    (hj : j < n) {valid last : Bool} (hlast : last = decide (n ≤ j + 1)) {x : Beat}
    (hbeat : beatOf s (inputs axil valid (beatAt accelerator buf j) last) = some x) :
  (tileOf buf n)[j]? = some x ∧ x.last = decide (n ≤ j + 1)
  := by
  rw [beatOf] at hbeat
  split at hbeat
  · rw [beatAt_eq, weight_inputs, act_inputs] at hbeat
    obtain rfl := Option.some.inj hbeat
    constructor
    · simp [tileOf, hj, inputs, hlast]
    · apply hlast
  · cases hbeat

/-- The accelerator accepts the beats of the tile in order, and hands nothing over. -/
theorem serves_inside (buf : ℕ → BitVec 8) {n N : ℕ} (hn : n = N * 2) (hN : 0 < N) :
  Serves accelerator buf n (fun j _ => Inside (tileOf buf N) j) (fun _ => 0)
  := by
  intro j k s b e valid beat last ready h hvalid _
  have hne : tileOf buf N ≠ [] := by
    rw [← List.length_pos_iff, length_tileOf]
    apply hN
  constructor
  · constructor
    · apply h.clean.cycle (i := inputs (b.drive e) valid beat last) rfl
    · change Phase _ _ _ (if SparseCnnAxi.beat s (inputs (b.drive e) valid beat last) then j + 1 else j)
      cases hb : SparseCnnAxi.beat s (inputs (b.drive e) valid beat last)
      · apply h.phase.cycle_still h.clean (i := inputs (b.drive e) valid beat last) rfl hne
        simp [beatOf, hb]
      · obtain ⟨hj, rfl, hl⟩ := hvalid (Bool.and_eq_true_iff.mp hb).1
        change j * 2 < n at hj
        change last = decide (n ≤ (j + 1) * 2) at hl
        have hlast : last = decide (N ≤ j + 1) := by
          rw [hl]
          apply decide_eq_decide.mpr
          omega
        have hsome : beatOf s (inputs (b.drive e) valid (beatAt accelerator buf j) last) = some _ :=
          if_pos hb
        obtain ⟨hx, hxlast⟩ := beatOf_inputs (n := N) (by omega) hlast hsome
        apply h.phase.cycle_beat h.clean (i := inputs (b.drive e) valid _ last) rfl hsome hx
        rw [length_tileOf]
        apply hxlast
  · intro byte last' hsome
    cases hsome

end SparseCnnAxi
