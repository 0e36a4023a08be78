import ZynqRtlFlow.Overlay.Edit

/-!
# The generator's format

A tree of nodes as the generator writes it: one property a line, each line after as many
tabs as its node is deep.  The indentation tells the depths apart and the headers tell
siblings apart, so no node is met in the place of another, and the script's scans take the
text to the pieces it was put together from.
-/

namespace Overlay

open Text

/-- A property, with its value if it has one. -/
structure Property where
  name : Str
  value : Option Str
  isName : IsName name := by decide +kernel
  isLine : IsLine (value.getD []) := by decide +kernel
  noBrace : '{' ∉ value.getD [] ∧ '}' ∉ value.getD [] := by decide +kernel

/-- The label and the name of a node. -/
@[ext]
structure Title where
  text : Str
  isLine : IsLine text := by decide +kernel
  noBrace : '{' ∉ text ∧ '}' ∉ text := by decide +kernel
  noEq : '=' ∉ text := by decide +kernel
  noTab : '\t' ∉ text := by decide +kernel

/-- The properties and the sub-nodes of a node, in any order. -/
inductive Content where
  | nil
  | property (q : Property) (rest : Content)
  | node (title : Title) (content : Content) (rest : Content)

/-- A node with all that is in it. -/
structure Tree where
  title : Title
  content : Content

/-! ### Rendering -/

/-- The indentation at a depth. -/
def tabs (d : ℕ) : Str :=
  List.replicate d '\t'

theorem isLine_tabs (d : ℕ) :
  IsLine (tabs d)
  := by
  intro c hc
  rw [List.eq_of_mem_replicate hc]
  rfl

theorem isSpace_tabs (d : ℕ) :
  ∀ c ∈ tabs d, isSpace c = true
  := by
  intro c hc
  rw [List.eq_of_mem_replicate hc]
  rfl

theorem notMem_tabs {c : Char} (hc : c ≠ '\t') (d : ℕ) :
  c ∉ tabs d
  := by
  intro hmem
  apply hc (List.eq_of_mem_replicate hmem)

/-- What follows the name of a property. -/
def Property.assigned (q : Property) : Str :=
  match q.value with
  | none => []
  | some v => " = ".toList ++ v

/-- `name = value;` or `name;`. -/
def Property.text (q : Property) : Str :=
  q.name ++ q.assigned ++ [';']

theorem Property.mem_assigned {q : Property} {c : Char} (h : c ∈ q.assigned) :
  c ∈ " = ".toList ∨ c ∈ q.value.getD []
  := by
  rw [assigned] at h
  cases hvalue : q.value with
  | none =>
      rw [hvalue] at h
      cases h
  | some v =>
      rw [hvalue] at h
      apply List.mem_append.mp h

theorem Property.notMem_text {q : Property} {c : Char} (hname : c ∉ q.name)
    (hsign : c ∉ " = ;".toList) (hvalue : c ∉ q.value.getD []) :
  c ∉ q.text
  := by
  have hall : ∀ d ∈ " = ".toList, d ∈ " = ;".toList := by decide
  intro h
  obtain h | h := List.mem_append.mp h
  · obtain h | h := List.mem_append.mp h
    · apply hname h
    · obtain h | h := q.mem_assigned h
      · apply hsign (hall c h)
      · apply hvalue h
  · apply hsign
    rw [List.mem_singleton.mp h]
    decide

/-- The line of a property, in a node so deep. -/
def Property.line (d : ℕ) (q : Property) : Line where
  text := tabs d ++ q.text
  isLine := by
    have hall : ∀ c ∈ " = ;".toList, isLineBreak c = false := by decide
    apply (isLine_tabs d).append
    intro c hc
    by_contra hbreak
    apply q.notMem_text _ _ _ hc
    · intro hname
      apply hbreak (isLineBreak_of_isSpace (q.isName.2 c hname).1)
    · intro hsign
      apply hbreak (hall c hsign)
    · intro hvalue
      apply hbreak (q.isLine c hvalue)
  noBrace := by
    rw [List.mem_append, not_or, List.mem_append, not_or]
    constructor
    · use notMem_tabs (by decide) d
      apply q.notMem_text (q.isName.notMem (by simp)) (by decide) q.noBrace.1
    · use notMem_tabs (by decide) d
      apply q.notMem_text (q.isName.notMem (by simp)) (by decide) q.noBrace.2
  closed := by
    right
    rw [Property.text, ← List.append_assoc, rstrip, List.rdropWhile_concat_neg]
    · rw [List.getLast?_concat]
    · decide

theorem Property.text_line (d : ℕ) (q : Property) :
  (q.line d).text = tabs d ++ q.text
  := rfl

/-- The header of a node so deep. -/
def Title.header (d : ℕ) (t : Title) : Header where
  text := tabs d ++ t.text
  isLine := (isLine_tabs d).append t.isLine
  noBrace := by
    simp [t.noBrace, notMem_tabs]
  noEq := by
    simp [t.noEq, notMem_tabs]

/-- What stands before the closing brace of a node so deep. -/
def tabIndent (d : ℕ) : Indent where
  text := tabs d
  isLine := isLine_tabs d
  blank := isSpace_tabs d

namespace Content

/-- The content of a node, one level deeper than the node. -/
def body : ℕ → Content → Body
  | _, nil => .nil
  | d, property q rest => .line (q.line d) (rest.body d)
  | d, node t c rest => .node (t.header d) (c.body (d + 1)) (tabIndent d) (rest.body d)

/-- The own properties. -/
def properties : Content → List Property
  | nil => []
  | property q rest => q :: rest.properties
  | node _ _ rest => rest.properties

/-- The direct sub-nodes. -/
def nodes : Content → List Tree
  | nil => []
  | property _ rest => rest.nodes
  | node t c rest => ⟨t, c⟩ :: rest.nodes

/-- No two siblings have the same header. -/
def Distinct : Content → Prop
  | nil => True
  | property _ rest => rest.Distinct
  | node t c rest => (∀ s ∈ rest.nodes, s.title ≠ t) ∧ c.Distinct ∧ rest.Distinct

end Content

/-- The node, so deep. -/
def Tree.node (d : ℕ) (t : Tree) : Node where
  header := t.title.header d
  body := t.content.body (d + 1)
  indent := tabIndent d

/-- The text of a node so deep. -/
def Tree.text (d : ℕ) (t : Tree) : Str :=
  (t.node d).text

theorem Content.nodes_body (c : Content) (d : ℕ) :
  (c.body d).nodes = c.nodes.map (Tree.node d)
  := by
  induction c with
  | nil => rfl
  | property q rest ih => apply ih
  | node t c rest _ ih =>
      rw [body, Body.nodes, ih]
      rfl

/-! ### Indentation -/

theorem tabs_add (d k : ℕ) :
  tabs (d + k) = tabs d ++ tabs k
  := List.replicate_add d k '\t'

theorem tabs_succ (d : ℕ) :
  tabs (d + 1) = tabs d ++ ['\t']
  := tabs_add d 1

theorem length_tabs (d : ℕ) :
  (tabs d).length = d
  := List.length_replicate

/-- After an indentation, a text without tabs is all that its end can be. -/
theorem eq_of_indented {d : ℕ} {u v : Str} (hu : '\t' ∉ u) (hv : '\t' ∉ v)
    (h : tabs (d + 1) ++ u <:+ tabs (d + 1) ++ v) :
  u = v
  := by
  obtain ⟨w, hw⟩ := h
  rw [tabs_succ, ← List.append_assoc, List.append_eq_append_iff] at hw
  obtain ⟨x, hx, rfl⟩ | ⟨x, hx, rfl⟩ := hw
  · have hlength := congrArg List.length hx
    simp only [List.length_append] at hlength
    obtain rfl : x = [] := List.length_eq_zero_iff.mp (by omega)
    rfl
  · obtain rfl | ⟨x, c, rfl⟩ := List.eq_nil_or_concat' x
    · rfl
    · rw [← List.append_assoc w, ← List.append_assoc (tabs d ++ ['\t'])] at hx
      obtain ⟨-, hlast⟩ := List.append_inj' hx rfl
      rw [← hlast] at hv
      cases hv (by simp)

/-- A node does not end in a text of another depth. -/
theorem not_endsIn_of_depth {d k : ℕ} (hne : d ≠ k) {n m : Node} (hn : n.indent = tabIndent d)
    (hm : m.indent = tabIndent k) :
  ¬ m.EndsIn n
  := by
  rintro ⟨-, -, hindent⟩
  rw [hn, hm] at hindent
  have hlength := congrArg (fun i => i.text.length) hindent
  simp only [tabIndent, length_tabs] at hlength
  apply hne hlength

theorem Content.absent_deeper {n : Node} {k : ℕ} (hn : n.indent = tabIndent k) (c : Content)
    {d : ℕ} (hd : k < d) :
  Absent n (c.body d)
  := by
  induction c generalizing d with
  | nil => trivial
  | property q rest ih => apply ih hd
  | node t c rest ihc ih =>
      use not_endsIn_of_depth (Nat.ne_of_lt hd) hn rfl
      use ihc (Nat.lt_succ_of_lt hd), ih hd

/-- A node is not met among siblings with other headers. -/
theorem Content.absent (t : Tree) {d : ℕ} (c : Content) (h : ∀ s ∈ c.nodes, s.title ≠ t.title) :
  Absent (t.node (d + 1)) (c.body (d + 1))
  := by
  induction c with
  | nil => trivial
  | property q rest ih => apply ih h
  | node s c rest _ ih =>
      obtain ⟨hs, hrest⟩ := List.forall_mem_cons.mp h
      constructor
      · rintro ⟨hheader, -⟩
        apply hs
        apply Title.ext
        symm
        apply eq_of_indented t.title.noTab s.noTab hheader
      · use c.absent_deeper (k := d + 1) rfl (Nat.lt_succ_self _), ih hrest

/-- Siblings with headers of their own are not met in each other's place. -/
theorem Content.Distinct.parted {c : Content} (h : c.Distinct) (d : ℕ) :
  Parted (c.body (d + 1))
  := by
  induction c with
  | nil => trivial
  | property q rest ih => apply ih h
  | node t c rest _ ih =>
      obtain ⟨hsiblings, -, hrest⟩ := h
      use rest.absent ⟨t, c⟩ hsiblings, ih hrest

end Overlay
