import Mathlib.Data.List.Induction
import Mathlib.Tactic.ByContra

/-!
# Tiles of a stream

A stream whose beats may be marked as last falls into tiles: a tile is the beats after a
marked beat through the next marked beat.  `tiles` gives the complete tiles in order and
`openTile` the beats after the last marked one.
-/

namespace Tiles

variable {α : Type*} (last : α → Bool)

/-- The complete tiles of a stream and the beats after the last of them. -/
def split (l : List α) : List (List α) × List α :=
  l.foldl
    (fun t a => if last a then (t.1 ++ [t.2 ++ [a]], []) else (t.1, t.2 ++ [a]))
    ([], [])

/-- The complete tiles of a stream, in order. -/
def tiles (l : List α) : List (List α) := (split last l).1

/-- The beats after the last complete tile. -/
def openTile (l : List α) : List α := (split last l).2

/-- The number of the tile that the beat at position `j` belongs to, counted from `0`. -/
def tileIndex (l : List α) (j : ℕ) : ℕ := (l.take j).countP last

@[simp]
theorem tiles_nil :
  tiles last [] = []
  := rfl

@[simp]
theorem openTile_nil :
  openTile last [] = []
  := rfl

theorem tiles_concat (l : List α) (a : α) :
  tiles last (l ++ [a])
    = if last a then tiles last l ++ [openTile last l ++ [a]] else tiles last l
  := by
  cases h : last a <;> simp [tiles, openTile, split, List.foldl_append, h]

theorem openTile_concat (l : List α) (a : α) :
  openTile last (l ++ [a]) = if last a then [] else openTile last l ++ [a]
  := by
  cases h : last a <;> simp [openTile, split, List.foldl_append, h]

/-- A complete tile stays as it is when a beat follows. -/
theorem getElem?_tiles_concat {l : List α} {m : ℕ} (hm : m < (tiles last l).length) (a : α) :
  (tiles last (l ++ [a]))[m]? = (tiles last l)[m]?
  := by
  rw [tiles_concat]
  split
  · apply List.getElem?_append_left hm
  · rfl

/-- There are as many complete tiles as marked beats. -/
theorem length_tiles (l : List α) :
  (tiles last l).length = l.countP last
  := by
  induction l using List.reverseRecOn with
  | nil => rfl
  | append_singleton l a ih =>
      rw [tiles_concat, List.countP_append]
      cases h : last a <;> simp [ih, h]

/-- The tiles and the open tile, one after the other, are the stream. -/
theorem flatten_tiles (l : List α) :
  (tiles last l).flatten ++ openTile last l = l
  := by
  induction l using List.reverseRecOn with
  | nil => rfl
  | append_singleton l a ih =>
      rw [tiles_concat, openTile_concat]
      cases last a
      · rw [if_neg Bool.false_ne_true, if_neg Bool.false_ne_true, ← List.append_assoc, ih]
      · rw [if_pos rfl, if_pos rfl, List.flatten_concat, ← List.append_assoc, ih,
          List.append_nil]

/-- No beat of the open tile is marked. -/
theorem not_last_of_mem_openTile {l : List α} {a : α} (ha : a ∈ openTile last l) :
  last a = false
  := by
  induction l using List.reverseRecOn with
  | nil => cases ha
  | append_singleton l b ih =>
      rw [openTile_concat] at ha
      cases hb : last b
      · rw [hb, if_neg Bool.false_ne_true] at ha
        rcases List.mem_append.mp ha with ha | ha
        · apply ih ha
        · obtain rfl := List.mem_singleton.mp ha
          apply hb
      · rw [hb, if_pos rfl] at ha
        cases ha

/-- A complete tile ends in its only marked beat. -/
theorem tile_ends_marked {l : List α} {t : List α} (ht : t ∈ tiles last l) :
  ∃ front b, t = front ++ [b] ∧ last b = true ∧ ∀ a ∈ front, last a = false
  := by
  induction l using List.reverseRecOn with
  | nil => cases ht
  | append_singleton l b ih =>
      rw [tiles_concat] at ht
      cases hb : last b
      · rw [hb, if_neg Bool.false_ne_true] at ht
        apply ih ht
      · rw [hb, if_pos rfl] at ht
        rcases List.mem_append.mp ht with ht | ht
        · apply ih ht
        · obtain rfl := List.mem_singleton.mp ht
          use openTile last l, b, rfl, hb
          intro a ha
          apply not_last_of_mem_openTile last ha

theorem tileIndex_le (l : List α) (j : ℕ) :
  tileIndex last l j ≤ l.countP last
  := (List.take_sublist j l).countP_le

/-- Some beat lies in a tile numbered `d` or later, `d` being at most the number of
complete tiles, exactly when there are more than `d` complete tiles or the last one is
followed by a beat. -/
theorem exists_le_tileIndex_iff {d : ℕ} (l : List α) (hd : d ≤ l.countP last) :
  (∃ j < l.length, d ≤ tileIndex last l j) ↔ d < l.countP last ∨ openTile last l ≠ []
  := by
  induction l using List.reverseRecOn with
  | nil => simp_all
  | append_singleton l a _ =>
      have hpos : tileIndex last (l ++ [a]) l.length = l.countP last := by
        simp [tileIndex]
      have hle : ∀ j ≤ l.length, tileIndex last (l ++ [a]) j ≤ l.countP last := by
        intro j hj
        rw [tileIndex, List.take_append_of_le_length hj]
        apply tileIndex_le
      rw [openTile_concat, List.countP_append] at *
      constructor
      · rintro ⟨j, hj, hdj⟩
        have hj' := hle j (by simpa [Nat.lt_succ_iff] using hj)
        cases h : last a
        · right
          simp
        · left
          simp [h]
          omega
      · intro h
        use l.length, by simp
        rw [hpos]
        cases hl : last a <;> simp [hl] at h hd <;> omega

end Tiles
