import Mathlib.Data.List.Dedup
import ZynqRtlFlow.Overlay.Client

/-!
# Labels and references

The script looks for the labels its nodes define, each at the start of a line, and for the
references in them; it stops at a reference that neither the board nor a node resolves.
What it takes for a label is one: a line begins with it.  Every reference is looked at.
-/

namespace Overlay

open Text

variable (isAlnum : Char → Bool)

/-- A character a label goes on with. -/
def isLabelChar (c : Char) : Bool :=
  isWord isAlnum c || c == '-'

/-- The text has an ampersand before the whole of a label. -/
def Refers (t label : Str) : Prop :=
  ∃ u after, t = u ++ '&' :: (label ++ after)
    ∧ (∃ c l, label = c :: l ∧ isIdentStart c = true ∧ ∀ d ∈ l, isLabelChar isAlnum d = true)
    ∧ ∀ c ∈ after.head?, isLabelChar isAlnum c = false

/-- All lines of a node. -/
def Node.lines (n : Node) : List Str :=
  n.header.line :: (n.body.lines ++ [n.indent.line])

/-- A line of the node begins with the label. -/
def Node.Defines (n : Node) (label : Str) : Prop :=
  ∃ l ∈ n.lines, (matchLabel isAlnum l).map (·.1) = some label

variable {isAlnum}

/-! ### References -/

theorem matchIdent_label {label after : Str} (h : ∃ c l, label = c :: l ∧ isIdentStart c = true
      ∧ ∀ d ∈ l, isLabelChar isAlnum d = true)
    (hafter : ∀ c ∈ after.head?, isLabelChar isAlnum c = false) :
  matchIdent isAlnum (label ++ after) = some (label, after)
  := by
  obtain ⟨c, l, rfl, hc, hl⟩ := h
  have htake : after.takeWhile (isLabelChar isAlnum) = [] := by
    cases after with
    | nil => rfl
    | cons d t => rw [List.takeWhile_cons, hafter d rfl]; rfl
  have hdrop : after.dropWhile (isLabelChar isAlnum) = after := by
    cases after with
    | nil => rfl
    | cons d t => rw [List.dropWhile_cons, hafter d rfl]; rfl
  have hident : matchIdent isAlnum (c :: l ++ after)
      = some (c :: (l ++ after).takeWhile (isLabelChar isAlnum),
        (l ++ after).dropWhile (isLabelChar isAlnum)) := if_pos hc
  rw [hident, List.takeWhile_append_of_pos hl, htake, List.dropWhile_append_of_pos hl, hdrop,
    List.append_nil]

/-- Every reference is found. -/
theorem Refers.mem_referencedIn {t label : Str} (h : Refers isAlnum t label) :
  label ∈ referencedIn isAlnum t
  := by
  obtain ⟨u, after, rfl, hlabel, hafter⟩ := h
  induction u with
  | nil =>
      rw [List.nil_append, referencedIn, if_pos rfl, matchIdent_label hlabel hafter]
      apply List.mem_append_left
      apply List.mem_singleton_self
  | cons c u ih =>
      rw [List.cons_append, referencedIn]
      split
      · apply List.mem_append_right
        apply ih
      · apply ih

/-! ### Labels -/

/-- A label is found where a line starts. -/
theorem of_mem_definedFrom {k : ℕ} {atStart : Bool} {t label : Str}
    (h : label ∈ definedFrom isAlnum k atStart t) :
  ∃ s, (matchLabel isAlnum s).map (·.1) = some label
    ∧ (atStart = true ∧ s = t ∨ ∃ u, t = u ++ '\n' :: s)
  := by
  induction t generalizing k atStart with
  | nil => cases k <;> cases h
  | cons c t ih =>
      have hrest {k : ℕ} (h : label ∈ definedFrom isAlnum k (c == '\n') t) :
          ∃ s, (matchLabel isAlnum s).map (·.1) = some label
            ∧ (atStart = true ∧ s = c :: t ∨ ∃ u, c :: t = u ++ '\n' :: s) := by
        obtain ⟨s, hs, ⟨hc, rfl⟩ | ⟨u, rfl⟩⟩ := ih h
        · use s, hs
          right
          use []
          rw [eq_of_beq hc, List.nil_append]
        · use s, hs
          right
          use c :: u
          rfl
      cases k with
      | succ k => apply hrest h
      | zero =>
          rw [definedFrom] at h
          split at h
          next label' after hmatch =>
            obtain rfl | h := List.mem_cons.mp h
            · cases atStart with
              | false => cases hmatch
              | true =>
                  rw [if_pos rfl] at hmatch
                  use c :: t
                  rw [hmatch]
                  use rfl
                  left
                  use rfl
            · apply hrest h
          next => apply hrest h

/-- A line that is blank or has a brace or a semicolon that ends what it says. -/
def Ended (l : Str) : Prop :=
  (∀ c ∈ l, isSpace c = true) ∨ ∃ u w, ∃ e ∈ ['{', ';'], l = u ++ e :: w

theorem Body.ended_of_mem {b : Body} {l : Str} (h : l ∈ b.lines) :
  Ended l
  := by
  induction b with
  | nil => cases h
  | line l' rest ih =>
      obtain rfl | h := List.mem_cons.mp h
      · obtain hblank | ⟨u, w, -, htext⟩ := l'.closed_cases
        · left
          apply hblank
        · right
          use u, w, ';', by simp
      · apply ih h
  | node h' b i rest ihb ih =>
      obtain rfl | h := List.mem_cons.mp h
      · right
        use h'.text, [], '{', by simp
      · obtain h | h := List.mem_append.mp h
        · apply ihb h
        · obtain rfl | h := List.mem_cons.mp h
          · right
            use i.text ++ ['}'], [], ';', by simp
            simp
          · apply ih h

/-- A label at the start of a line is in that line or in the next that is not blank. -/
theorem matchLabel_lines {ls : List Str} (hls : ∀ l ∈ ls, Ended l) {last label : Str}
    (h : (matchLabel isAlnum (unlines ls ++ last)).map (·.1) = some label) :
  ∃ l ∈ ls ++ [last], (matchLabel isAlnum l).map (·.1) = some label
  := by
  induction ls with
  | nil => use last, List.mem_singleton_self last, h
  | cons l ls ih =>
      obtain ⟨hl, hls⟩ := List.forall_mem_cons.mp hls
      rw [unlines_cons, List.append_assoc, List.cons_append] at h
      obtain hblank | ⟨u, w, e, he, rfl⟩ := hl
      · have hskip : matchLabel isAlnum (l ++ '\n' :: (unlines ls ++ last))
            = matchLabel isAlnum (unlines ls ++ last) := by
          rw [matchLabel, List.dropWhile_append_of_pos hblank, List.dropWhile_cons_of_pos rfl,
            ← matchLabel]
        rw [hskip] at h
        obtain ⟨l', hl', hlabel⟩ := ih hls h
        use l', List.mem_cons_of_mem _ hl', hlabel
      · rw [List.append_assoc, List.cons_append, matchLabel_append he] at h
        use u ++ e :: w, List.mem_cons_self
        rw [matchLabel_append he, h]

/-- What follows a newline in a text are lines of it. -/
theorem lines_after_newline {ls : List Str} (hls : ∀ l ∈ ls, '\n' ∉ l) {last u s : Str}
    (hlast : '\n' ∉ last) (h : unlines ls ++ last = u ++ '\n' :: s) :
  ∃ ls', ls' <:+ ls ∧ s = unlines ls' ++ last
  := by
  induction ls generalizing u with
  | nil =>
      rw [unlines_nil, List.nil_append] at h
      cases hlast (by rw [h]; simp)
  | cons l ls ih =>
      obtain ⟨hl, hls⟩ := List.forall_mem_cons.mp hls
      rw [unlines_cons, List.append_assoc, List.cons_append] at h
      by_cases hu : '\n' ∈ u
      · obtain ⟨v, v', rfl, hv⟩ := List.eq_append_cons_of_mem hu
        rw [List.append_assoc, List.cons_append] at h
        obtain ⟨rfl, -, h⟩ := append_cons_cancel hv hl h
        obtain ⟨ls', hls', rfl⟩ := ih hls h
        use ls', hls'.trans (List.suffix_cons _ _)
      · obtain ⟨-, -, h⟩ := append_cons_cancel hu hl h
        use ls, List.suffix_cons _ _
        rw [h]

/-- A label found in a node is one its lines define. -/
theorem Node.defines_of_mem {n : Node} {label : Str} (h : label ∈ definedIn isAlnum n.text) :
  n.Defines isAlnum label
  := by
  obtain ⟨s, hs, hstart⟩ := of_mem_definedFrom h
  have hsuffix : ∃ ls, ls <:+ n.header.line :: n.body.lines ∧ s = unlines ls ++ n.indent.line := by
    obtain ⟨-, rfl⟩ | ⟨u, hu⟩ := hstart
    · use n.header.line :: n.body.lines, List.suffix_refl _
      apply n.text_eq
    · rw [n.text_eq] at hu
      apply lines_after_newline _ (newline_notMem n.indent.isLine_line) hu
      intro l hl
      obtain rfl | hl := List.mem_cons.mp hl
      · apply newline_notMem n.header.isLine_line
      · apply newline_notMem (Body.isLine_of_mem hl)
  obtain ⟨ls, hls, rfl⟩ := hsuffix
  obtain ⟨l, hl, hlabel⟩ := matchLabel_lines (by
    intro l hl
    obtain rfl | hl := List.mem_cons.mp (hls.subset hl)
    · right
      use n.header.text, [], '{', by simp
      rfl
    · apply Body.ended_of_mem hl) hs
  use l
  constructor
  · obtain hl | hl := List.mem_append.mp hl
    · rw [lines, ← List.cons_append]
      apply List.mem_append_left _ (hls.subset hl)
    · rw [lines, ← List.cons_append]
      apply List.mem_append_right _ hl
  · apply hlabel

/-- Where nothing is unresolved, every reference is to a label of the board or of a node. -/
theorem resolved {nodes : List Node} (h : unresolved isAlnum (nodes.map Node.text) = [])
    {n : Node} (hn : n ∈ nodes) {label : Str} (hrefers : Refers isAlnum n.text label) :
  label ∈ resolvable ∨ ∃ d ∈ nodes, d.Defines isAlnum label
  := by
  by_contra hnot
  rw [not_or] at hnot
  obtain ⟨hresolvable, hdefined⟩ := hnot
  have hmem : label ∈ unresolved isAlnum (nodes.map Node.text) := by
    rw [unresolved, List.mem_insertionSort, List.mem_dedup, List.mem_filter]
    constructor
    · apply List.mem_flatMap.mpr
      use n.text, List.mem_map_of_mem hn, hrefers.mem_referencedIn
    · rw [decide_eq_true_eq]
      use hresolvable
      intro hmem
      obtain ⟨t, ht, hlabel⟩ := List.mem_flatMap.mp hmem
      obtain ⟨d, hd, rfl⟩ := List.mem_map.mp ht
      apply hdefined
      use d, hd
      apply d.defines_of_mem hlabel
  rw [h] at hmem
  cases hmem

end Overlay
