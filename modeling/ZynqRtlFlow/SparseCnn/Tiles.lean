import Mathlib.Data.BitVec
import ZynqRtlFlow.Model.SparseMacModel
import ZynqRtlFlow.Rtl.SparseCnnAxi
import ZynqRtlFlow.Synchronous.Tiles

/-!
# The tiles of the sparse CNN

`TileLog` is a tile-level account of a run: a START pulse with no tile in flight opens a
tile, the beats accepted are its beats through the first one with `tlast`, a CLEAR pulse
inside it discards the beats so far, and it is finished in the cycle after its `tlast`
beat.  `ACC` and `SKIP` are the sum and the zero count of the last finished tile, or zero
if a CLEAR pulse fell in or after the cycle that finished it (`tile_refinement`).
-/

namespace SparseCnnAxi

/-- A cycle: the registers during it and the inputs presented. -/
abbrev Cycle : Type := State × Inputs

/-- A stream beat: a packed operand pair and its `tlast`. -/
structure Beat where
  weight : BitVec 8
  act : BitVec 8
  last : Bool
  deriving DecidableEq, Repr

/-! ### The tile log -/

/-- The beats of a tile: those a CLEAR pulse inside the tile discarded, then those that
count. -/
structure Tile where
  discarded : List Beat
  counted : List Beat
  deriving DecidableEq, Repr

namespace Tile

/-- The beats accepted in a tile, in order. -/
def beats (t : Tile) : List Beat := t.discarded ++ t.counted

/-- The `tlast` beat of the tile has been accepted. -/
def ended (t : Tile) : Bool := t.beats.any Beat.last

/-- A cycle inside a tile: a CLEAR pulse discards the beats so far. -/
def cycle (t : Tile) (clear : Bool) (beat : Option Beat) : Tile :=
  if clear then ⟨t.discarded ++ t.counted ++ beat.toList, []⟩
  else ⟨t.discarded, t.counted ++ beat.toList⟩

/-- The sum of the products of the beats that count, modulo `2 ^ 32`. -/
def acc (t : Tile) : BitVec 32 :=
  BitVec.ofInt 32 (t.counted.map fun b => b.weight.toInt * b.act.toInt).sum

/-- The number of the beats that count with a zero operand, modulo `2 ^ 16`. -/
def skip (t : Tile) : BitVec 16 :=
  BitVec.ofNat 16 (t.counted.countP fun b => b.weight.toInt = 0 ∨ b.act.toInt = 0)

end Tile

/-- The tiles finished since reset, the tile in flight, and whether a CLEAR pulse fell in
or after the cycle that finished the last tile. -/
structure TileLog where
  finished : List Tile
  current : Option Tile
  cleared : Bool
  deriving DecidableEq, Repr

namespace TileLog

/-- No tile yet. -/
def empty : TileLog := ⟨[], none, false⟩

/-- One cycle of the log. -/
def cycle (start clear : Bool) (beat : Option Beat) (log : TileLog) : TileLog :=
  match log.current with
  | none =>
      { log with
        current := if start then some ⟨[], []⟩ else none
        cleared := log.cleared || clear }
  | some t =>
      if t.ended then
        { finished := log.finished ++ [t], current := none, cleared := clear }
      else
        { log with current := some (t.cycle clear beat), cleared := log.cleared || clear }

/-- The result of the last finished tile, `0` if there is none or it has been cleared. -/
def result {α : Type*} [Zero α] (value : Tile → α) (log : TileLog) : α :=
  match log.finished.getLast? with
  | none => 0
  | some t => if log.cleared then 0 else value t

/-- The tiles whose `tlast` beat has been accepted. -/
def complete (log : TileLog) : List Tile :=
  match log.current with
  | none => log.finished
  | some t => if t.ended then log.finished ++ [t] else log.finished

/-- The beats accepted in the tile in flight, none once its `tlast` beat is accepted. -/
def openBeats (log : TileLog) : List Beat :=
  match log.current with
  | none => []
  | some t => if t.ended then [] else t.beats

end TileLog

/-- The beat accepted in a cycle. -/
def beatOf (s : State) (i : Inputs) : Option Beat :=
  if beat s i then some ⟨weight i, act i, i.tlast⟩ else none

/-- The log of a history: the START and CLEAR pulses of its cycles and the beats accepted
in them. -/
def tileLog (h : List Cycle) : TileLog :=
  h.foldl (fun log c => log.cycle (startPulse c.1) (clearPulse c.1) (beatOf c.1 c.2)) .empty

/-- The stream beats accepted, in order. -/
def accepted (h : List Cycle) : List Beat :=
  h.filterMap fun c => beatOf c.1 c.2

theorem tileLog_concat (h : List Cycle) (s : State) (i : Inputs) :
  tileLog (h ++ [(s, i)]) = (tileLog h).cycle (startPulse s) (clearPulse s) (beatOf s i)
  := by
  simp [tileLog, List.foldl_append]

theorem accepted_concat (h : List Cycle) (s : State) (i : Inputs) :
  accepted (h ++ [(s, i)]) = accepted h ++ (beatOf s i).toList
  := by
  cases hb : beatOf s i <;> simp [accepted, hb]

/-! ### The simulation -/

/-- The processing element holds the sum and the zero count of a tile. -/
def Holds (p : SparseMacPe.State 32 16) (t : Tile) : Prop :=
  p.acc = t.acc ∧ p.skipCount = t.skip

/-- The state machine follows the tile in flight, the processing element its results. -/
def Follows (p : SparseMacPe.State 32 16) : TileState → Option Tile → Prop
  | .idle, current => current = none
  | .clear, current => current = some ⟨[], []⟩
  | .run, current => ∃ t, current = some t ∧ t.ended = false ∧ Holds p t
  | .latch, current => ∃ t, current = some t ∧ t.ended = true ∧ Holds p t

/-- The registers refine the tile log. -/
structure Simulates (log : TileLog) (s : State) : Prop where
  follows : Follows s.pe s.state log.current
  acc : s.accQ = log.result Tile.acc
  skip : s.skipQ = log.result Tile.skip

theorem beat_iff (s : State) (i : Inputs) :
  beat s i = true
    ↔ i.tvalid = true ∧ s.state = .run ∧ enReg s = true ∧ clearPulse s = false
  := by
  simp [beat, tready, and_assoc]

theorem beatOf_eq_none {s : State} (i : Inputs) (hs : s.state ≠ .run) :
  beatOf s i = none
  := by
  simp [beatOf, beat, tready, hs]

/-! ### The processing element along a tile -/

theorem Tile.acc_counted (d c : List Beat) (b : Beat) :
  Tile.acc ⟨d, c ++ [b]⟩ = Tile.acc ⟨d, c⟩ + SparseMacPe.product 32 b.weight b.act
  := by
  simp [acc, SparseMacPe.product_eq, BitVec.ofInt_add]

theorem Tile.skip_counted (d c : List Beat) (b : Beat) :
  Tile.skip ⟨d, c ++ [b]⟩
    = Tile.skip ⟨d, c⟩ + BitVec.ofNat 16 (SparseMacPe.isZero b.weight b.act).toNat
  := by
  have hzero : [b].countP (fun b => decide (b.weight.toInt = 0 ∨ b.act.toInt = 0))
      = (SparseMacPe.isZero b.weight b.act).toNat := by
    cases hz : SparseMacPe.isZero b.weight b.act
    · have hne := mt (SparseMacPe.isZero_iff b.weight b.act).mpr (by simp [hz])
      simp [hne]
    · have heq := (SparseMacPe.isZero_iff b.weight b.act).mp hz
      simp [heq]
  rw [skip, skip, List.countP_append, hzero, BitVec.ofNat_add]

/-- A cleared processing element holds an empty tile's results. -/
theorem holds_clear {s : State} (i : Inputs) (hc : peClear s = true) (d : List Beat) :
  Holds (posedge s i true).pe ⟨d, []⟩
  := by
  have hclear : (peInputs s i).clearAcc = true := hc
  have hen : (peInputs s i).en = true := by simp [peInputs, peEn, hc]
  rw [posedge_pe, SparseMacPe.posedge_clear _ hen hclear]
  constructor
  · rfl
  · rfl

/-- Without a clear the processing element consumes the beat accepted, if any. -/
theorem Holds.cycle {s : State} {t : Tile} (hp : Holds s.pe t) (i : Inputs)
    (hc : peClear s = false) :
  Holds (posedge s i true).pe (t.cycle false (beatOf s i))
  := by
  obtain ⟨d, c⟩ := t
  obtain ⟨hacc, hskip⟩ := hp
  cases hb : beat s i
  · have hen : (peInputs s i).en = false := by simp [peInputs, peEn, hb, hc]
    rw [posedge_pe, SparseMacPe.posedge_freeze _ hen]
    simp [Holds, Tile.cycle, beatOf, hb, hacc, hskip]
  · have hen : (peInputs s i).en = true := by simp [peInputs, peEn, hb]
    have hclear : (peInputs s i).clearAcc = false := hc
    have hvalid : (peInputs s i).validIn = true := hb
    rw [posedge_pe, SparseMacPe.posedge_consume _ hen hclear hvalid]
    constructor
    · simp [Tile.cycle, beatOf, hb, Tile.acc_counted, hacc, peInputs]
    · simp [Tile.cycle, beatOf, hb, Tile.skip_counted, hskip, peInputs]

/-! ### One edge -/

theorem Tile.beats_cycle (t : Tile) (clear : Bool) (b : Option Beat) :
  (t.cycle clear b).beats = t.beats ++ b.toList
  := by
  cases clear <;> simp [cycle, beats]

theorem Tile.ended_cycle {t : Tile} (ht : t.ended = false) (clear : Bool) (b : Option Beat) :
  (t.cycle clear b).ended = b.any Beat.last
  := by
  rw [ended, beats_cycle, List.any_append, ← ended, ht, Bool.false_or]
  cases b <;> simp

namespace TileLog

variable {log : TileLog} (start clear : Bool) (b : Option Beat)

theorem cycle_none (hlog : log.current = none) :
  log.cycle start clear b
    = ⟨log.finished, if start then some ⟨[], []⟩ else none, log.cleared || clear⟩
  := by
  simp [cycle, hlog]

theorem cycle_open {t : Tile} (hlog : log.current = some t) (ht : t.ended = false) :
  log.cycle start clear b
    = ⟨log.finished, some (t.cycle clear b), log.cleared || clear⟩
  := by
  simp [cycle, hlog, ht]

theorem cycle_ended {t : Tile} (hlog : log.current = some t) (ht : t.ended = true) :
  log.cycle start clear b = ⟨log.finished ++ [t], none, clear⟩
  := by
  simp [cycle, hlog, ht]

variable {α : Type*} [Zero α] (value : Tile → α)

/-- While no tile is finished the result stays, unless it is cleared. -/
theorem result_keep (current : Option Tile) :
  result value ⟨log.finished, current, log.cleared || clear⟩
    = if clear then 0 else log.result value
  := by
  simp only [result]
  cases log.finished.getLast? <;> cases clear <;> cases log.cleared <;> simp

/-- A tile finished gives its result, unless it is cleared in the same cycle. -/
theorem result_finish (t : Tile) :
  result value ⟨log.finished ++ [t], none, clear⟩ = if clear then 0 else value t
  := by
  simp [result]

end TileLog

theorem accNext_of_ne_latch {s : State} (hs : s.state ≠ .latch) :
  accNext s = if clearPulse s then 0 else s.accQ
  := by
  simp [accNext, hs]

theorem skipNext_of_ne_latch {s : State} (hs : s.state ≠ .latch) :
  skipNext s = if clearPulse s then 0 else s.skipQ
  := by
  simp [skipNext, hs]

section Edge

variable {log : TileLog} {s : State} (hs : Simulates log s) (i : Inputs)

include hs

/-- With no tile in flight, a START pulse opens one. -/
theorem Simulates.edge_idle (hst : s.state = .idle) :
  Simulates (log.cycle (startPulse s) (clearPulse s) (beatOf s i)) (posedge s i true)
  := by
  obtain ⟨hf, hacc, hskip⟩ := hs
  have hlog : log.current = none := by simpa [Follows, hst] using hf
  have hne : s.state ≠ .latch := by simp [hst]
  rw [TileLog.cycle_none _ _ _ hlog]
  constructor
  · cases hp : startPulse s <;> simp [Follows, stateNext, hst, hp]
  · rw [TileLog.result_keep, posedge_accQ, accNext_of_ne_latch hne, hacc]
  · rw [TileLog.result_keep, posedge_skipQ, skipNext_of_ne_latch hne, hskip]

/-- The clearing cycle readies the processing element for the tile's first beat. -/
theorem Simulates.edge_clear (hst : s.state = .clear) :
  Simulates (log.cycle (startPulse s) (clearPulse s) (beatOf s i)) (posedge s i true)
  := by
  obtain ⟨hf, hacc, hskip⟩ := hs
  have hlog : log.current = some ⟨[], []⟩ := by simpa [Follows, hst] using hf
  have hne : s.state ≠ .latch := by simp [hst]
  have hbeat : beatOf s i = none := beatOf_eq_none i (by simp [hst])
  have hpe : peClear s = true := by simp [peClear, hst]
  rw [TileLog.cycle_open _ _ _ hlog rfl, hbeat]
  constructor
  · have hempty : Tile.cycle ⟨[], []⟩ (clearPulse s) none = ⟨[], []⟩ := by
      cases clearPulse s <;> rfl
    rw [hempty, posedge_state, stateNext, hst]
    use ⟨[], []⟩, rfl, rfl
    apply holds_clear i hpe
  · rw [TileLog.result_keep, posedge_accQ, accNext_of_ne_latch hne, hacc]
  · rw [TileLog.result_keep, posedge_skipQ, skipNext_of_ne_latch hne, hskip]

/-- A running tile takes the beat accepted, or loses its beats to a CLEAR pulse; the
`tlast` beat ends it. -/
theorem Simulates.edge_run (hst : s.state = .run) :
  Simulates (log.cycle (startPulse s) (clearPulse s) (beatOf s i)) (posedge s i true)
  := by
  obtain ⟨hf, hacc, hskip⟩ := hs
  obtain ⟨t, hlog, ht, hp⟩ : ∃ t, log.current = some t ∧ t.ended = false ∧ Holds s.pe t := by
    simpa [Follows, hst] using hf
  have hne : s.state ≠ .latch := by simp [hst]
  have hend := Tile.ended_cycle ht (clearPulse s) (beatOf s i)
  have hholds : Holds (posedge s i true).pe (t.cycle (clearPulse s) (beatOf s i)) := by
    cases hc : clearPulse s
    · apply hp.cycle i (by simp [peClear, hst, hc])
    · apply holds_clear i (by simp [peClear, hc])
  have hnext : stateNext s i = if (beatOf s i).any Beat.last then .latch else .run := by
    cases hb : beat s i <;> simp [stateNext, hst, beatOf, hb]
  rw [TileLog.cycle_open _ _ _ hlog ht]
  constructor
  · rw [posedge_state, hnext]
    cases hl : (beatOf s i).any Beat.last
    · use t.cycle (clearPulse s) (beatOf s i), rfl, hend.trans hl
    · use t.cycle (clearPulse s) (beatOf s i), rfl, hend.trans hl
  · rw [TileLog.result_keep, posedge_accQ, accNext_of_ne_latch hne, hacc]
  · rw [TileLog.result_keep, posedge_skipQ, skipNext_of_ne_latch hne, hskip]

/-- The latching cycle finishes the tile. -/
theorem Simulates.edge_latch (hst : s.state = .latch) :
  Simulates (log.cycle (startPulse s) (clearPulse s) (beatOf s i)) (posedge s i true)
  := by
  obtain ⟨hf, hacc, hskip⟩ := hs
  obtain ⟨t, hlog, ht, hp⟩ : ∃ t, log.current = some t ∧ t.ended = true ∧ Holds s.pe t := by
    simpa [Follows, hst] using hf
  rw [TileLog.cycle_ended _ _ _ hlog ht]
  constructor
  · simp [Follows, stateNext, hst]
  · rw [TileLog.result_finish, posedge_accQ, accNext, if_pos hst, hp.1]
  · rw [TileLog.result_finish, posedge_skipQ, skipNext, if_pos hst, hp.2]

theorem Simulates.edge :
  Simulates (log.cycle (startPulse s) (clearPulse s) (beatOf s i)) (posedge s i true)
  := by
  cases hst : s.state with
  | idle => apply hs.edge_idle i hst
  | clear => apply hs.edge_clear i hst
  | run => apply hs.edge_run i hst
  | latch => apply hs.edge_latch i hst

end Edge

/-- The registers refine the tile log after every run from reset. -/
theorem simulates_run (s : State) (i : Inputs) (is : List Inputs) :
  Simulates (tileLog (machine.history (reset s i) is)) (machine.run (reset s i) is)
  := by
  apply machine.history_induction (P := fun h t => Simulates (tileLog h) t)
  · constructor
    · rfl
    · rfl
    · rfl
  · intro h t j hs
    rw [tileLog_concat]
    apply hs.edge

/-! ### The beats of the tiles -/

/-- The tiles of the log are the tiles of the accepted stream. -/
structure Partitions (h : List Cycle) (log : TileLog) : Prop where
  complete : log.complete.map Tile.beats = Tiles.tiles Beat.last (accepted h)
  rest : log.openBeats = Tiles.openTile Beat.last (accepted h)

/-- Beats are accepted only in a tile in flight that has not ended. -/
theorem Simulates.current_of_beat {log : TileLog} {s : State} (hs : Simulates log s)
    {i : Inputs} (hb : beat s i = true) :
  ∃ t, log.current = some t ∧ t.ended = false
  := by
  have hst := ((beat_iff s i).mp hb).2.1
  obtain ⟨t, hlog, ht, -⟩ : ∃ t, log.current = some t ∧ t.ended = false ∧ Holds s.pe t := by
    simpa [Follows, hst] using hs.follows
  use t

theorem Partitions.edge {h : List Cycle} {s : State} (hp : Partitions h (tileLog h))
    (hs : Simulates (tileLog h) s) (i : Inputs) :
  Partitions (h ++ [(s, i)]) (tileLog (h ++ [(s, i)]))
  := by
  obtain ⟨hcomplete, hrest⟩ := hp
  rw [tileLog_concat]
  cases hlog : (tileLog h).current with
  | none =>
      have hb : beatOf s i = none := by
        by_contra hb
        obtain ⟨t, ht, -⟩ := hs.current_of_beat (i := i) (by simpa [beatOf] using hb)
        rw [hlog] at ht
        cases ht
      rw [TileLog.cycle_none _ _ _ hlog]
      simp only [TileLog.complete, TileLog.openBeats, hlog] at hcomplete hrest
      constructor
      · rw [accepted_concat, hb]
        cases startPulse s <;> simpa [TileLog.complete, Tile.ended, Tile.beats] using hcomplete
      · rw [accepted_concat, hb]
        cases startPulse s <;> simpa [TileLog.openBeats, Tile.ended, Tile.beats] using hrest
  | some t =>
      cases ht : t.ended
      · simp only [TileLog.complete, TileLog.openBeats, hlog, ht] at hcomplete hrest
        have hend := Tile.ended_cycle ht (clearPulse s) (beatOf s i)
        have hbeats := t.beats_cycle (clearPulse s) (beatOf s i)
        rw [TileLog.cycle_open _ _ _ hlog ht]
        cases hb : beatOf s i with
        | none =>
            simp only [hb, Option.any_none, Option.toList_none, List.append_nil] at hend hbeats
            constructor
            · simpa [TileLog.complete, hend, accepted_concat, hb] using hcomplete
            · simpa [TileLog.openBeats, hend, hbeats, accepted_concat, hb] using hrest
        | some b =>
            simp only [hb, Option.any_some, Option.toList_some] at hend hbeats
            constructor
            · rw [accepted_concat, hb, Option.toList_some, Tiles.tiles_concat]
              cases hl : b.last <;>
                simpa [TileLog.complete, hend, hbeats, hl, ← hrest] using hcomplete
            · rw [accepted_concat, hb, Option.toList_some, Tiles.openTile_concat]
              cases hl : b.last <;>
                simp [TileLog.openBeats, hend, hbeats, hl, ← hrest]
      · have hb : beatOf s i = none := by
          by_contra hb
          obtain ⟨u, hu, hend⟩ := hs.current_of_beat (i := i) (by simpa [beatOf] using hb)
          rw [hlog] at hu
          cases hu
          rw [ht] at hend
          cases hend
        rw [TileLog.cycle_ended _ _ _ hlog ht]
        simp only [TileLog.complete, TileLog.openBeats, hlog, ht] at hcomplete hrest
        constructor
        · rw [accepted_concat, hb]
          simpa [TileLog.complete, ht] using hcomplete
        · rw [accepted_concat, hb]
          simpa [TileLog.openBeats] using hrest

theorem partitions_run (s : State) (i : Inputs) (is : List Inputs) :
  Partitions (machine.history (reset s i) is) (tileLog (machine.history (reset s i) is))
  := by
  induction is using List.reverseRecOn with
  | nil =>
      constructor
      · rfl
      · rfl
  | append_singleton is j ih =>
      rw [machine.history_concat]
      apply ih.edge (simulates_run s i is)

/-! ### Refinement -/

/-- What a history `h` that ends in the state `s` says of the tiles: the result registers
hold the results of the last finished tile or zero; a beat is accepted only in a tile
that has been started and has not ended, with `EN` high and no CLEAR pulse; the tiles
partition the beats accepted; and a finished tile runs through its first `tlast` beat. -/
structure RefinesTiles (h : List Cycle) (s : State) : Prop where
  acc : s.accQ = (tileLog h).result Tile.acc
  skip : s.skipQ = (tileLog h).result Tile.skip
  gated : ∀ i : Inputs, beat s i = true →
    (∃ t, (tileLog h).current = some t ∧ t.ended = false)
      ∧ enReg s = true ∧ clearPulse s = false
  partition :
    ((tileLog h).finished ++ (tileLog h).current.toList).flatMap Tile.beats = accepted h
  bounded : ∀ t ∈ (tileLog h).finished,
    ∃ front b, t.beats = front ++ [b] ∧ b.last = true ∧ ∀ x ∈ front, Beat.last x = false

theorem TileLog.flatMap_beats (log : TileLog) :
  (log.finished ++ log.current.toList).flatMap Tile.beats
    = (log.complete.map Tile.beats).flatten ++ log.openBeats
  := by
  cases hc : log.current with
  | none => simp [complete, openBeats, hc, List.flatMap]
  | some t => cases ht : t.ended <;> simp [complete, openBeats, hc, ht, List.flatMap]

theorem TileLog.mem_complete {log : TileLog} {t : Tile} (ht : t ∈ log.finished) :
  t ∈ log.complete
  := by
  simp only [complete]
  split
  · apply ht
  · split
    · apply List.mem_append_left _ ht
    · apply ht

/-- After every run from reset the registers refine the tiles. -/
theorem tile_refinement (s : State) (i : Inputs) (is : List Inputs) :
  RefinesTiles (machine.history (reset s i) is) (machine.run (reset s i) is)
  := by
  have hs := simulates_run s i is
  have hp := partitions_run s i is
  constructor
  · apply hs.acc
  · apply hs.skip
  · intro j hb
    obtain ⟨-, -, hen, hclear⟩ := (beat_iff _ j).mp hb
    use hs.current_of_beat hb, hen, hclear
  · rw [TileLog.flatMap_beats, hp.complete, hp.rest, Tiles.flatten_tiles]
  · intro t ht
    apply Tiles.tile_ends_marked (l := accepted (machine.history (reset s i) is))
    rw [← hp.complete]
    apply List.mem_map_of_mem (TileLog.mem_complete ht)

end SparseCnnAxi
