import ZynqRtlFlow.Overlay.Format

/-!
# Taking a tree apart

`node_body`, `child_nodes` and `split_node` on the text of a tree in the generator's format
give back the pieces it was put together from: what stands between the braces of a node,
its sub-nodes in order, and its own lines without any of theirs.
-/

namespace Overlay

open Text

/-! ### Places in a tree -/

/-- The node `t` stands at depth `k` in a content at depth `d`, between `before` and
`after`. -/
inductive Stands (t : Tree) (k : ℕ) : ℕ → Content → Str → Str → Prop where
  | here {rest : Content} :
      Stands t k k (.node t.title t.content rest) [] ('\n' :: (rest.body k).text)
  | property {d : ℕ} {q : Property} {rest : Content} {before after : Str}
      (h : Stands t k d rest before after) :
      Stands t k d (.property q rest) ((q.line d).text ++ '\n' :: before) after
  | inside {d : ℕ} {s : Title} {c rest : Content} {before after : Str}
      (h : Stands t k (d + 1) c before after) :
      Stands t k d (.node s c rest) ((s.header d).text ++ '{' :: '\n' :: before)
        (after ++ ((tabIndent d).text ++ '}' :: ';' :: '\n' :: (rest.body d).text))
  | beside {d : ℕ} {s : Title} {c rest : Content} {before after : Str}
      (h : Stands t k d rest before after) :
      Stands t k d (.node s c rest) (Tree.text d ⟨s, c⟩ ++ '\n' :: before) after

variable {t : Tree} {k d : ℕ} {c : Content} {before after : Str}

theorem Stands.text_eq (h : Stands t k d c before after) :
  (c.body d).text = before ++ (t.text k ++ after)
  := by
  induction h with
  | here => rw [Content.body, Body.text_node, List.nil_append, Tree.text, Tree.node]
  | property h ih => simp [Content.body, Body.text, ih]
  | inside h ih => simp [Content.body, Body.text, ih]
  | beside h ih => simp [Content.body, Body.text_node, Tree.text, Tree.node, ih]

theorem Stands.distinct (h : Stands t k d c before after) (hdistinct : c.Distinct) :
  t.content.Distinct
  := by
  induction h with
  | here => apply hdistinct.2.1
  | property h ih => apply ih hdistinct
  | inside h ih => apply ih hdistinct.2.1
  | beside h ih => apply ih hdistinct.2.2

/-! ### Own lines -/

theorem Property.line_mem_own {q : Property} (h : q ∈ c.properties) (d : ℕ) :
  (q.line d).text ∈ (c.body d).own.lines
  := by
  induction c with
  | nil => cases h
  | property q' rest ih =>
      obtain rfl | h := List.mem_cons.mp h
      · apply List.mem_cons_self
      · apply List.mem_cons_of_mem _ (ih h)
  | node s c rest _ ih => apply List.mem_cons_of_mem _ (ih h)

/-- A line that no node has above the depth `d`: one with a brace, or indented as deep. -/
def Deep (d : ℕ) (l : Str) : Prop :=
  ('{' ∈ l ∨ '}' ∈ l) ∨ tabs d <+: l

theorem deep_of_mem_lines {l : Str} (h : l ∈ (c.body d).lines) (hk : k ≤ d) :
  Deep k l
  := by
  induction c generalizing d with
  | nil => cases h
  | property q rest ih =>
      obtain rfl | h := List.mem_cons.mp h
      · right
        obtain ⟨j, rfl⟩ := Nat.exists_eq_add_of_le hk
        use tabs j ++ q.text
        rw [Property.text_line, tabs_add, List.append_assoc]
      · apply ih h hk
  | node s c rest ihc ih =>
      obtain rfl | h := List.mem_cons.mp h
      · left
        left
        simp
      · obtain h | h := List.mem_append.mp h
        · apply ihc h (Nat.le_succ_of_le hk)
        · obtain rfl | h := List.mem_cons.mp h
          · left
            right
            simp
          · apply ih h hk

/-- The lines of a sub-node are its header, what is in it, and its closing brace. -/
theorem Node.splitlines_text (n : Node) :
  splitlines n.text = n.header.line :: (n.body.lines ++ [n.indent.line])
  := by
  rw [Node.text_eq, splitlines_unlines, splitlines_last n.indent.isLine_line, if_neg]
  · rfl
  · simp [Indent.line]
  · intro l hl
    obtain rfl | hl := List.mem_cons.mp hl
    · apply n.header.isLine_line
    · apply Body.isLine_of_mem hl

theorem Tree.deep_of_mem {l : Str} (h : l ∈ splitlines (t.text d)) :
  Deep (d + 1) l
  := by
  rw [Tree.text, Node.splitlines_text] at h
  obtain rfl | h := List.mem_cons.mp h
  · left
    left
    simp [Header.line]
  · obtain h | h := List.mem_append.mp h
    · apply deep_of_mem_lines h (Nat.le_refl _)
    · left
      right
      rw [List.mem_singleton.mp h, Indent.line]
      simp

/-- A node's own lines are not indented deeper. -/
theorem not_deep_own {l : Str} (h : l ∈ (c.body d).own.lines) :
  ¬ Deep (d + 1) l
  := by
  have hblank : ¬ Deep (d + 1) [] := by
    rintro ((h | h) | h)
    · cases h
    · cases h
    · rw [List.prefix_nil, tabs_succ, List.append_eq_nil_iff] at h
      cases h.2
  induction c with
  | nil => cases h
  | property q rest ih =>
      obtain rfl | h := List.mem_cons.mp h
      · rintro ((h | h) | h)
        · apply (q.line d).noBrace.1 h
        · apply (q.line d).noBrace.2 h
        · obtain ⟨a, name, hname⟩ := List.exists_cons_of_ne_nil q.isName.1
          rw [tabs_succ, Property.text_line, List.prefix_append_right_inj, Property.text, hname,
            List.cons_append, List.cons_append, List.cons_prefix_cons] at h
          have htab := (q.isName.2 a (by rw [hname]; apply List.mem_cons_self)).1
          rw [← h.1] at htab
          cases htab
      · apply ih h
  | node s c rest _ ih =>
      obtain rfl | h := List.mem_cons.mp h
      · apply hblank
      · apply ih h

theorem not_deep_tabs (d : ℕ) :
  ¬ Deep (d + 2) (tabs d)
  := by
  rintro ((h | h) | h)
  · apply notMem_tabs (by decide) d h
  · apply notMem_tabs (by decide) d h
  · have hle := h.length_le
    rw [length_tabs, length_tabs] at hle
    omega

theorem Node.splitlines_ownText (n : Node) :
  splitlines n.ownText = [] :: (n.body.own.lines ++ splitlines n.indent.text)
  := by
  rw [Node.ownText, ← Body.unlines_lines, ← splitlines_unlines]
  · rfl
  · intro l hl
    apply Body.isLine_of_mem hl

/-! ### The scans -/

/-- The text `own` has the node's own properties, line by line, and no line of a node in
it. -/
structure OwnText (t : Tree) (d : ℕ) (own : Str) : Prop where
  properties : ∀ q ∈ t.content.properties, (q.line (d + 1)).text ∈ splitlines own
  descendants : ∀ s ∈ t.content.nodes, ∀ l ∈ splitlines (s.text (d + 1)), l ∉ splitlines own

theorem Tree.ownText (t : Tree) (d : ℕ) :
  OwnText t d (t.node d).ownText
  := by
  constructor
  · intro q hq
    rw [Node.splitlines_ownText]
    apply List.mem_cons_of_mem
    apply List.mem_append_left
    apply Property.line_mem_own hq
  · intro s _ l hl hmem
    have hdeep := Tree.deep_of_mem hl
    rw [Node.splitlines_ownText] at hmem
    obtain rfl | hmem := List.mem_cons.mp hmem
    · obtain (h | h) | h := hdeep
      · cases h
      · cases h
      · rw [List.prefix_nil, tabs_succ, List.append_eq_nil_iff] at h
        cases h.2
    · obtain hmem | hmem := List.mem_append.mp hmem
      · apply not_deep_own hmem hdeep
      · rw [splitlines_last (t.node d).indent.isLine] at hmem
        split at hmem
        · cases hmem
        · rw [List.mem_singleton.mp hmem] at hdeep
          apply not_deep_tabs d hdeep

/-- The scans take a node out of a text and apart. -/
structure Inverted (text label : Str) (t : Tree) (d : ℕ) : Prop where
  body : nodeBody text label = .ok (t.node d).inside
  children : childNodes (t.node d).inside = t.content.nodes.map (Tree.text (d + 1))
  split : ∃ own, splitNode (t.text d) = .ok (own, t.content.nodes.map (Tree.text (d + 1)))
    ∧ OwnText t d own

/-- From a label that is first met in its header, a node of a tree is taken out and apart
as it was put together. -/
theorem scans_invert_rendering (root : Content) (hdistinct : root.Distinct)
    (hstands : Stands t d 0 root before after) {label : Str} {i : ℕ}
    (hfirst : findSub label (root.body 0).text = some i) (hbefore : before.length ≤ i)
    (hheader : i ≤ before.length + (t.title.header d).text.length) :
  Inverted (root.body 0).text label t d
  := by
  have hnodes : (t.node d).body.nodes.map Node.text = t.content.nodes.map (Tree.text (d + 1)) := by
    rw [Tree.node, Content.nodes_body, List.map_map]
    rfl
  constructor
  · rw [hstands.text_eq] at hfirst ⊢
    apply nodeBody_first hfirst hbefore hheader
  · rw [childNodes_inside, hnodes]
  · use (t.node d).ownText
    constructor
    · rw [Tree.text, splitNode_text _ ((hstands.distinct hdistinct).parted d), hnodes]
    · apply Tree.ownText

/-- The title of the root. -/
def rootTitle : Title where
  text := "/ ".toList

/-- The title of the bus. -/
def busTitle : Title where
  text := "amba_pl: amba_pl@0 ".toList

/-- A property with a value. -/
def addressCells : Property where
  name := "#address-cells".toList
  value := some "<2>".toList

/-- A property without one. -/
def emptyRanges : Property where
  name := "ranges".toList
  value := none

/-- A bus with two properties and two nodes, the first of them with a node in it. -/
def peripheralBus : Tree where
  title := busTitle
  content := .property addressCells (.property emptyRanges
    (.node { text := "axi_dma_0: dma@a0000000 ".toList }
      (.node { text := "dma-channel@a0000000 ".toList } (.property emptyRanges .nil) .nil)
      (.node { text := "relu_axi_0: relu_axi@a0010000 ".toList } .nil .nil)))

/-- The root with the bus in it. -/
def generated : Content :=
  .node rootTitle (.node peripheralBus.title peripheralBus.content .nil) .nil

theorem generated_inverted :
  Inverted (generated.body 0).text "amba_pl".toList peripheralBus 1
  := by
  have hstands : Stands peripheralBus 1 0 generated _ _ := .inside .here
  apply scans_invert_rendering (i := 5) generated _ hstands
  · decide +kernel
  · decide +kernel
  · decide +kernel
  · simp [Content.Distinct, Content.nodes, generated, peripheralBus]

end Overlay
