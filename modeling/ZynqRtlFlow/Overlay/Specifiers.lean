import ZynqRtlFlow.Overlay.Interrupts

/-!
# The specifiers of a node

`interrupt_specs` infers how wide a specifier is from there being one for each name.  It
splits the cells evenly or returns nothing, unless there are names and no cell: the width is
then 0 and the slices are refused.  The cells are those of the first of the node's own lines
that reads as its interrupts, and they are the node's own if that line is.
-/

namespace Overlay

open Text

variable (isAlnum : Char → Bool)

/-- The value of the first line that reads as the property. -/
def Body.read (p : Str) (b : Body) : Option Str :=
  b.lines.findSome? fun l => propertyValue isAlnum l p

/-- The cells of the first of a node's own lines that reads as interrupts. -/
def Node.readCells (n : Node) : List Str :=
  cellsOf ((n.body.own.read isAlnum interrupts).getD [])

/-- One specifier for each of `n` names, all of one width, which are the cells in order. -/
structure SplitInto (cells : List Str) (n : ℕ) (specs : List Str) : Prop where
  length : specs.length = n
  width : ∃ width > 0, ∀ spec ∈ specs, (split spec).length = width
  cells : specs.flatMap split = cells

/-- The cells cannot be split evenly among `n` names. -/
def Uneven (cells : List Str) (n : ℕ) : Prop :=
  cells = [] ∨ n = 0 ∨ cells.length % n ≠ 0

instance (cells : List Str) (n : ℕ) : Decidable (Uneven cells n) :=
  inferInstanceAs (Decidable (_ ∨ _ ∨ _))

/-- The cells split evenly among `n` names, or nothing. -/
def evenly (cells : List Str) (n : ℕ) : List Str :=
  if Uneven cells n then [] else specsOf (cells.length / n) cells

/-- The cells of a node's own interrupts are split evenly among the names or nothing is
returned; the cells alone decide what is returned; and nothing is if there are none. -/
structure SplitsOrReports (n : Node) (names : List Str) : Prop where
  returns : ∃ specs, interruptSpecs isAlnum n.ownText names = .ok specs
    ∧ (specs = [] ∨ SplitInto n.body.cells names.length specs)
  grouping : interruptSpecs isAlnum n.ownText names = .ok (evenly n.body.cells names.length)
  missing : n.body.cells = [] → interruptSpecs isAlnum n.ownText names = .ok []

/-- What is read in the place of the node's own interrupts has cells, and it makes no
difference: they are the same, or neither can be split. -/
structure ByChance (n : Node) (names : List Str) : Prop where
  cells : n.readCells isAlnum ≠ []
  same : n.readCells isAlnum = n.body.cells
    ∨ Uneven (n.readCells isAlnum) names.length ∧ Uneven n.body.cells names.length

/-! ### Slices -/

/-- Successive slices of one width make up the beginning of a list. -/
theorem flatMap_slices {α : Type} (l : List α) (width n : ℕ) :
  (List.range n).flatMap (fun k => (l.drop (k * width)).take width) = l.take (n * width)
  := by
  induction n with
  | zero => rw [Nat.zero_mul, List.take_zero, List.range_zero, List.flatMap_nil]
  | succ n ih =>
      rw [List.range_succ, List.flatMap_append, ih, List.flatMap_singleton, Nat.succ_mul,
        List.take_add]

theorem split_spec {value : Str} {width k : ℕ} :
  split (join [' '] (((cellsOf value).drop (k * width)).take width))
    = ((cellsOf value).drop (k * width)).take width
  := by
  apply split_join
  intro w hw
  apply (mem_cellsOf (List.mem_of_mem_drop (List.mem_of_mem_take hw))).1

/-- Specifiers that use up the cells split them. -/
theorem splitInto_specsOf {value : Str} {width n : ℕ} (hwidth : 0 < width)
    (hlength : (cellsOf value).length = n * width) :
  SplitInto (cellsOf value) n (specsOf width (cellsOf value))
  := by
  have hn : (cellsOf value).length / width = n := Nat.div_eq_of_eq_mul_left hwidth hlength
  constructor
  · rw [length_specsOf, hn]
  · use width, hwidth
    intro spec hspec
    obtain ⟨k, hk, rfl⟩ := mem_specsOf hspec
    rw [hn] at hk
    have hle : (k + 1) * width ≤ n * width := Nat.mul_le_mul_right width hk
    rw [Nat.succ_mul] at hle
    rw [split_spec, List.length_take, List.length_drop, hlength]
    omega
  · rw [specsOf, hn, List.flatMap_map]
    simp only [split_spec]
    rw [flatMap_slices, ← hlength, List.take_length]

/-- Cells that can be split evenly are. -/
theorem splitInto_evenly {value : Str} {n : ℕ} (h : ¬ Uneven (cellsOf value) n) :
  SplitInto (cellsOf value) n (evenly (cellsOf value) n)
  := by
  rw [evenly, if_neg h]
  rw [Uneven, not_or, not_or, not_not] at h
  obtain ⟨hcells, hn, heven⟩ := h
  have hlength := Nat.div_mul_cancel (Nat.dvd_of_mod_eq_zero heven)
  apply splitInto_specsOf
  · apply Nat.pos_of_ne_zero
    intro hzero
    rw [hzero, Nat.zero_mul] at hlength
    apply hcells (List.length_eq_zero_iff.mp hlength.symm)
  · rw [Nat.mul_comm, hlength]

/-- Nothing is what is left of cells exactly if they cannot be split. -/
theorem evenly_eq_nil {value : Str} {n : ℕ} :
  evenly (cellsOf value) n = [] ↔ Uneven (cellsOf value) n
  := by
  constructor
  · intro h
    by_contra hsplit
    have hlength := (splitInto_evenly hsplit).length
    rw [h, List.length_nil] at hlength
    apply hsplit
    right
    left
    apply hlength.symm
  · intro h
    rw [evenly, if_pos h]

/-- What cells are split into tells the cells. -/
theorem cells_of_evenly {value value' : Str} {n : ℕ} (hsplit : ¬ Uneven (cellsOf value) n)
    (h : evenly (cellsOf value) n = evenly (cellsOf value') n) :
  cellsOf value = cellsOf value'
  := by
  have hsplit' : ¬ Uneven (cellsOf value') n := by
    rw [← evenly_eq_nil, ← h, evenly_eq_nil]
    apply hsplit
  rw [← (splitInto_evenly hsplit).cells, h, (splitInto_evenly hsplit').cells]

/-! ### The line that is read -/

variable {isAlnum} {p : Str}

theorem propertyValue_unlines (hp : IsName p) {ls : List Str} (hlines : ∀ l ∈ ls, Confined p l)
    (t : Str) :
  propertyValue isAlnum (unlines ls ++ t) p
    = (ls.findSome? fun l => propertyValue isAlnum l p).or (propertyValue isAlnum t p)
  := by
  induction ls with
  | nil => rfl
  | cons l ls ih =>
      obtain ⟨hl, hls⟩ := List.forall_mem_cons.mp hlines
      rw [unlines_cons, List.append_assoc, List.cons_append, propertyValue_line hp hl, ih hls,
        List.findSome?_cons]
      cases propertyValue isAlnum l p with
      | none => rfl
      | some v => rfl

/-- A search in a node's own text finds what the first line reads as that reads as the
property. -/
theorem Node.propertyValue_read (hp : IsName p) (n : Node) :
  propertyValue isAlnum n.ownText p = n.body.own.read isAlnum p
  := by
  have hempty : Confined p [] := Body.blankLine.confined hp
  have hindent : propertyValue isAlnum n.indent.text p = none := by
    rw [propertyValue, n.indent.searchProperty_text hp]
    rfl
  have hnil : propertyValue isAlnum [] p = none := rfl
  rw [ownText, ← List.nil_append ('\n' :: _), propertyValue_line hp hempty, hnil, Option.none_or,
    ← Body.unlines_lines, propertyValue_unlines hp, hindent, Option.or_none]
  · rfl
  · intro l
    apply Body.confined_of_mem hp

theorem Node.readCells_eq (n : Node) :
  n.foundCells isAlnum = n.readCells isAlnum
  := by rw [foundCells, n.propertyValue_read isName_interrupts, readCells]

/-- Where a node's own interrupts are the first to read as such, the cells read are its
own. -/
theorem Node.readCells_of_direct {n : Node} (h : Direct isAlnum interrupts n.body.own) :
  n.readCells isAlnum = n.body.cells
  := by rw [← n.readCells_eq, Node.foundCells_own h]

/-! ### Every node -/

/-- What is returned: of cells, what they are split into; of names without a cell, nothing,
as the width is 0. -/
theorem interruptSpecs_own (n : Node) (names : List Str) :
  interruptSpecs isAlnum n.ownText names
    = if names = [] ∨ n.readCells isAlnum ≠ [] then
        .ok (evenly (n.readCells isAlnum) names.length)
      else .error .valueError
  := by
  by_cases hnames : names = []
  · subst hnames
    have hnone : Uneven (n.readCells isAlnum) ([] : List Str).length := .inr (.inl rfl)
    rw [interruptSpecs_uneven n.readCells_eq (.inl rfl), if_pos (.inl rfl), evenly, if_pos hnone]
  · have hlength : names.length ≠ 0 := by simpa using hnames
    by_cases heven : (n.readCells isAlnum).length % names.length = 0
    · rw [interruptSpecs_even n.readCells_eq hnames heven]
      by_cases hcells : n.readCells isAlnum = []
      · simp [hcells, hnames]
      · have hsplit : ¬ Uneven (n.readCells isAlnum) names.length := by
          simp [Uneven, hcells, hnames, heven]
        rw [if_neg hcells, if_pos (.inr hcells), evenly, if_neg hsplit]
    · have huneven : Uneven (n.readCells isAlnum) names.length := .inr (.inr heven)
      have hcells : n.readCells isAlnum ≠ [] := by
        intro hnil
        rw [hnil, List.length_nil, Nat.zero_mod] at heven
        apply heven rfl
      rw [interruptSpecs_uneven n.readCells_eq (.inr heven), if_pos (.inr hcells), evenly,
        if_pos huneven]

/-- The cells alone decide exactly if the cells that are read make the same specifiers as the
node's own. -/
theorem splitsOrReports_iff_evenly (n : Node) (names : List Str) :
  SplitsOrReports isAlnum n names
    ↔ interruptSpecs isAlnum n.ownText names = .ok (evenly n.body.cells names.length)
  := by
  constructor
  · intro h
    apply h.grouping
  · intro h
    constructor
    · use evenly n.body.cells names.length, h
      by_cases hsplit : Uneven n.body.cells names.length
      · left
        apply evenly_eq_nil.mpr hsplit
      · right
        apply splitInto_evenly hsplit
    · apply h
    · intro hcells
      rw [h, evenly, if_pos (.inl hcells)]

/-- Cells that are read make the specifiers of the node's own exactly if they are the same,
or neither can be split. -/
theorem evenly_readCells_iff (n : Node) (k : ℕ) :
  evenly (n.readCells isAlnum) k = evenly n.body.cells k
    ↔ n.readCells isAlnum = n.body.cells
      ∨ Uneven (n.readCells isAlnum) k ∧ Uneven n.body.cells k
  := by
  constructor
  · intro h
    by_cases hsplit : Uneven (n.readCells isAlnum) k
    · right
      use hsplit
      apply evenly_eq_nil.mp
      rw [← Body.cells, ← h]
      apply evenly_eq_nil.mpr hsplit
    · left
      apply cells_of_evenly hsplit h
  · rintro (hsame | ⟨hread, hown⟩)
    · rw [hsame]
    · rw [evenly, if_pos hread, evenly, if_pos hown]

/-- The node's own cells are split evenly, or none are returned, exactly if there is no name,
or the own interrupts are read and have a cell, or another line is read in their place and it
makes no difference. -/
theorem splits_or_reports_iff (n : Node) (names : List Str) :
  SplitsOrReports isAlnum n names
    ↔ names = [] ∨ Direct isAlnum interrupts n.body.own ∧ n.body.cells ≠ []
      ∨ ¬ Direct isAlnum interrupts n.body.own ∧ ByChance isAlnum n names
  := by
  rw [splitsOrReports_iff_evenly, interruptSpecs_own]
  by_cases hnames : names = []
  · subst hnames
    have hnone (cells : List Str) : evenly cells ([] : List Str).length = [] := by
      rw [evenly, if_pos (.inr (.inl rfl))]
    rw [if_pos (.inl rfl), hnone, hnone]
    simp
  · by_cases hread : n.readCells isAlnum = []
    · rw [if_neg (by simp [hnames, hread]), or_iff_right hnames]
      constructor
      · intro h
        cases h
      · rintro (⟨hdirect, hcells⟩ | ⟨-, hchance⟩)
        · rw [← Node.readCells_of_direct hdirect] at hcells
          cases hcells hread
        · cases hchance.cells hread
    · rw [if_pos (.inr hread), or_iff_right hnames, Except.ok.injEq, evenly_readCells_iff]
      by_cases hdirect : Direct isAlnum interrupts n.body.own
      · have hsame := Node.readCells_of_direct hdirect
        rw [hsame] at hread
        simp [hdirect, hsame, hread]
      · constructor
        · intro h
          right
          use hdirect, hread
        · rintro (⟨h, -⟩ | ⟨-, hchance⟩)
          · cases hdirect h
          · apply hchance.same

/-- A node with a name for an interrupt it does not have. -/
def unwired : Node where
  header := dmaHeader
  body := .line { text := "\t\tinterrupt-names = \"s2mm_introut\";".toList } .nil
  indent := nodeIndent

/-- A name and no interrupts: the slices have width 0. -/
theorem name_without_interrupts :
  interruptSpecs ascii unwired.ownText ["s2mm_introut".toList] = .error .valueError
    ∧ ¬ SplitsOrReports ascii unwired ["s2mm_introut".toList]
  := by
  have hraises : interruptSpecs ascii unwired.ownText ["s2mm_introut".toList]
      = .error .valueError := by
    decide +kernel
  use hraises
  intro h
  obtain ⟨specs, hspecs, -⟩ := h.returns
  rw [hraises] at hspecs
  cases hspecs

end Overlay
