import ZynqRtlFlow.Overlay.Script

/-!
# Trees

The trees the generator writes: one property a line, the header of a node ending its line
in an opening brace, every closing brace on a line of its own, and no braces elsewhere.  A
`Body` is what stands between the braces of a node, line by line; the braces of its text
match, so the script's scans find its sub-nodes and nothing else.
-/

namespace Overlay

open Text

instance (l : Str) : Decidable (IsLine l) :=
  inferInstanceAs (Decidable (∀ c ∈ l, isLineBreak c = false))

/-- A line without a brace: a property, closed by its semicolon, or nothing. -/
@[ext]
structure Line where
  text : Str
  isLine : IsLine text := by decide +kernel
  noBrace : '{' ∉ text ∧ '}' ∉ text := by decide +kernel
  closed : rstrip text = [] ∨ (rstrip text).getLast? = some ';' := by decide +kernel
  deriving DecidableEq

/-- What stands before the opening brace of a node. -/
@[ext]
structure Header where
  text : Str
  isLine : IsLine text := by decide +kernel
  noBrace : '{' ∉ text ∧ '}' ∉ text := by decide +kernel
  noEq : '=' ∉ text := by decide +kernel
  deriving DecidableEq

/-- What stands before the closing brace of a node. -/
@[ext]
structure Indent where
  text : Str
  isLine : IsLine text := by decide +kernel
  blank : ∀ c ∈ text, isSpace c = true := by decide +kernel
  deriving DecidableEq

/-- What is in a node: lines and sub-nodes, in their order. -/
inductive Body where
  | nil
  | line (l : Line) (rest : Body)
  | node (header : Header) (body : Body) (indent : Indent) (rest : Body)
  deriving DecidableEq

/-- A node: its header, what is in it, and what stands before its closing brace. -/
structure Node where
  header : Header
  body : Body
  indent : Indent
  deriving DecidableEq

namespace Body

/-- The text of all lines. -/
def text : Body → Str
  | nil => []
  | line l rest => l.text ++ '\n' :: rest.text
  | node h b i rest =>
      h.text ++ '{' :: '\n' :: (b.text ++ (i.text ++ '}' :: ';' :: '\n' :: rest.text))

/-- All lines, those of the sub-nodes included. -/
def lines : Body → List Str
  | nil => []
  | line l rest => l.text :: rest.lines
  | node h b i rest => (h.text ++ ['{']) :: (b.lines ++ (i.text ++ ['}', ';']) :: rest.lines)

/-- The direct sub-nodes. -/
def nodes : Body → List Node
  | nil => []
  | line _ rest => rest.nodes
  | node h b i rest => ⟨h, b, i⟩ :: rest.nodes

/-- An empty line. -/
def blankLine : Line where
  text := []

/-- No indentation. -/
def noIndent : Indent where
  text := []

/-- An empty line in the place of each sub-node. -/
def own : Body → Body
  | nil => nil
  | line l rest => line l rest.own
  | node _ _ _ rest => line blankLine rest.own

end Body

/-- The text of a node, without a newline after it. -/
def Node.text (n : Node) : Str :=
  n.header.text ++ '{' :: '\n' :: (n.body.text ++ (n.indent.text ++ ['}', ';']))

/-! ### Lines -/

/-- A line is blank, or white space follows the semicolon that closes it. -/
theorem Line.closed_cases (l : Line) :
  (∀ c ∈ l.text, isSpace c = true)
    ∨ ∃ u w, (∀ c ∈ w, isSpace c = true) ∧ l.text = u ++ ';' :: w
  := by
  obtain h | h := l.closed
  · left
    apply List.rdropWhile_eq_nil_iff.mp h
  · right
    use (rstrip l.text).dropLast, tail l.text
    constructor
    · intro c
      apply isSpace_of_mem_tail
    · rw [List.append_cons, List.dropLast_append_getLast? _ h, rstrip_append_tail]

theorem Indent.noBrace (i : Indent) :
  '{' ∉ i.text ∧ '}' ∉ i.text
  := by
  constructor
  · intro h
    cases i.blank _ h
  · intro h
    cases i.blank _ h

/-- The line that opens a node. -/
def Header.line (h : Header) : Str :=
  h.text ++ ['{']

/-- The line that closes a node. -/
def Indent.line (i : Indent) : Str :=
  i.text ++ ['}', ';']

theorem Header.isLine_line (h : Header) :
  IsLine h.line
  := h.isLine.append (by decide)

theorem Indent.isLine_line (i : Indent) :
  IsLine i.line
  := i.isLine.append (by decide)

namespace Body

theorem isLine_of_mem {b : Body} {l : Str} (h : l ∈ b.lines) :
  IsLine l
  := by
  induction b with
  | nil => cases h
  | line l' rest ih =>
      obtain rfl | h := List.mem_cons.mp h
      · apply l'.isLine
      · apply ih h
  | node h' b i rest ihb ih =>
      obtain rfl | h := List.mem_cons.mp h
      · apply h'.isLine_line
      · obtain h | h := List.mem_append.mp h
        · apply ihb h
        · obtain rfl | h := List.mem_cons.mp h
          · apply i.isLine_line
          · apply ih h

theorem unlines_lines (b : Body) :
  unlines b.lines = b.text
  := by
  induction b with
  | nil => rfl
  | line l rest ih => rw [lines, unlines_cons, ih, text]
  | node h b i rest ihb ih =>
      rw [lines, unlines_cons, unlines_append, unlines_cons, ihb, ih, text]
      simp

end Body

theorem Node.text_eq (n : Node) :
  n.text = unlines (n.header.line :: n.body.lines) ++ n.indent.line
  := by
  rw [unlines_cons, Body.unlines_lines, text, Header.line, Indent.line]
  simp

/-! ### Scanning for nodes -/

theorem childNodesLoop_zero (lines buf buf' : List Str) :
  childNodesLoop lines buf 0 = childNodesLoop lines buf' 0
  := by
  induction lines with
  | nil => rfl
  | cons line lines ih =>
      rw [childNodesLoop, childNodesLoop, ih]
      rfl

/-- A line that opens no node is skipped between nodes. -/
theorem childNodesLoop_skip {line : Str} (h : (rstrip line).getLast? ≠ some '{')
    (lines buf : List Str) :
  childNodesLoop (line :: lines) buf 0 = childNodesLoop lines buf 0
  := by
  rw [childNodesLoop, if_pos rfl, if_neg h]

/-- A line is kept while a node is open. -/
theorem childNodesLoop_keep {line : Str} {depth : ℤ} (hdepth : depth ≠ 0)
    (h : depth + (line.count '{' - line.count '}' : ℤ) ≠ 0) (lines buf : List Str) :
  childNodesLoop (line :: lines) buf depth
    = childNodesLoop lines (buf ++ [line]) (depth + (line.count '{' - line.count '}' : ℤ))
  := by
  rw [childNodesLoop, if_neg hdepth]
  simp only
  rw [if_neg h]

theorem Line.not_opens (l : Line) :
  (rstrip l.text).getLast? ≠ some '{'
  := by
  intro h
  apply l.noBrace.1
  apply (List.rdropWhile_prefix isSpace _).subset (List.mem_of_getLast? h)

theorem Indent.not_opens (i : Indent) :
  (rstrip i.text).getLast? ≠ some '{'
  := by
  intro h
  apply i.noBrace.1
  apply (List.rdropWhile_prefix isSpace _).subset (List.mem_of_getLast? h)

theorem Header.opens (h : Header) :
  (rstrip h.line).getLast? = some '{'
  := by
  rw [Header.line, rstrip, List.rdropWhile_concat_neg]
  · simp
  · decide

theorem Line.count (l : Line) :
  (l.text.count '{' - l.text.count '}' : ℤ) = 0
  := by
  rw [List.count_eq_zero_of_not_mem l.noBrace.1, List.count_eq_zero_of_not_mem l.noBrace.2]
  rfl

theorem Header.count (h : Header) :
  (h.line.count '{' - h.line.count '}' : ℤ) = 1
  := by
  rw [Header.line, List.count_append, List.count_append,
    List.count_eq_zero_of_not_mem h.noBrace.1, List.count_eq_zero_of_not_mem h.noBrace.2]
  rfl

theorem Indent.count (i : Indent) :
  (i.line.count '{' - i.line.count '}' : ℤ) = -1
  := by
  rw [Indent.line, List.count_append, List.count_append,
    List.count_eq_zero_of_not_mem i.noBrace.1, List.count_eq_zero_of_not_mem i.noBrace.2]
  rfl

/-- Inside a node, a whole body is kept and the depth is what it was. -/
theorem childNodesLoop_body (b : Body) {depth : ℤ} (hdepth : 0 < depth) (rest buf : List Str) :
  childNodesLoop (b.lines ++ rest) buf depth = childNodesLoop rest (buf ++ b.lines) depth
  := by
  induction b generalizing depth rest buf with
  | nil => rw [Body.lines, List.nil_append, List.append_nil]
  | line l b ih =>
      rw [Body.lines, List.cons_append, childNodesLoop_keep (by omega), l.count, Int.add_zero,
        ih hdepth, List.append_assoc, List.singleton_append]
      rw [l.count]
      omega
  | node h b i b' ihb ih =>
      rw [Body.lines, List.cons_append, List.append_assoc, List.cons_append, ← Header.line,
        ← Indent.line, childNodesLoop_keep (by omega), h.count, ihb (by omega),
        childNodesLoop_keep (by omega), i.count, ih (by omega), Int.add_neg_cancel_right]
      · simp
      · rw [i.count]
        omega
      · rw [h.count]
        omega

/-- Between nodes, the sub-nodes of a body are what is found in it. -/
theorem childNodesLoop_nodes (b : Body) (rest buf : List Str) :
  childNodesLoop (b.lines ++ rest) buf 0 = b.nodes.map Node.text ++ childNodesLoop rest buf 0
  := by
  induction b generalizing rest buf with
  | nil => rfl
  | line l b ih =>
      rw [Body.lines, List.cons_append, childNodesLoop_skip l.not_opens, ih, Body.nodes]
  | node h b i b' _ ih =>
      rw [Body.lines, List.cons_append, List.append_assoc, List.cons_append, ← Header.line,
        ← Indent.line, childNodesLoop, if_pos rfl, if_pos h.opens,
        childNodesLoop_body b (by decide), childNodesLoop, if_neg (by decide)]
      simp only
      rw [i.count, Int.add_right_neg, if_pos rfl, ih, childNodesLoop_zero rest _ buf, join_concat, ← unlines,
        Body.nodes, List.map_cons, Node.text_eq]
      rfl

/-- What stands between the braces of a node. -/
def Node.inside (n : Node) : Str :=
  '\n' :: (n.body.text ++ n.indent.text)

/-- The sub-nodes the script finds are those of the tree. -/
theorem childNodes_inside (n : Node) :
  childNodes n.inside = n.body.nodes.map Node.text
  := by
  have hlines : splitlines n.inside = [] :: (n.body.lines ++ splitlines n.indent.text) := by
    rw [Node.inside, ← Body.unlines_lines, ← splitlines_unlines]
    · rfl
    · intro l hl
      apply Body.isLine_of_mem hl
  have hlast : childNodesLoop (splitlines n.indent.text) [] 0 = [] := by
    rw [splitlines_last n.indent.isLine]
    split
    · rfl
    · rw [childNodesLoop_skip n.indent.not_opens]
      rfl
  rw [childNodes, hlines, childNodesLoop_skip (by decide), childNodesLoop_nodes, hlast,
    List.append_nil]

theorem blockBody_text (n : Node) :
  blockBody n.text = .ok n.inside
  := by
  have hopen := index_append_cons n.header.noBrace.1
    ('\n' :: (n.body.text ++ (n.indent.text ++ ['}', ';'])))
  have hclose : rindex '}' n.text
      = some (n.header.text ++ '{' :: n.inside).length := by
    rw [← rindex_append_cons (c := '}') (t := [';']) (by decide)]
    simp [Node.text, Node.inside]
  have htext : n.text = n.header.text ++ '{' :: n.inside ++ ['}', ';'] := by
    simp [Node.text, Node.inside]
  rw [blockBody, hclose, Node.text, hopen]
  simp only
  rw [← Node.text, htext, List.take_left, List.append_cons, List.drop_left']
  simp

/-! ### Scanning for braces -/

theorem upToClosing_of_notMem {u : Str} (h : '{' ∉ u ∧ '}' ∉ u) (depth : ℕ) (t : Str) :
  upToClosing depth (u ++ t) = (upToClosing depth t).map (u ++ ·)
  := by
  induction u with
  | nil => simp
  | cons c u ih =>
      simp only [List.mem_cons, not_or] at h
      rw [List.cons_append, upToClosing, if_neg (Ne.symm h.1.1), if_neg (Ne.symm h.2.1),
        ih ⟨h.1.2, h.2.2⟩, Option.map_map]
      rfl

/-- The braces of a body match. -/
theorem upToClosing_body (b : Body) {depth : ℕ} (hdepth : 0 < depth) (t : Str) :
  upToClosing depth (b.text ++ t) = (upToClosing depth t).map (b.text ++ ·)
  := by
  induction b generalizing depth t with
  | nil => simp [Body.text]
  | line l b ih =>
      rw [Body.text, List.append_assoc, List.cons_append, upToClosing_of_notMem l.noBrace,
        upToClosing, if_neg (by decide), if_neg (by decide), ih hdepth, Option.map_map,
        Option.map_map]
      congr 1
      funext s
      simp
  | node h b i b' ihb ih =>
      have htext : (Body.node h b i b').text ++ t
          = h.text ++ '{' :: '\n' :: (b.text ++ (i.text ++ '}' :: ';' :: '\n' :: (b'.text ++ t)))
          := by
        simp [Body.text]
      rw [htext, upToClosing_of_notMem h.noBrace, upToClosing, if_pos rfl, upToClosing,
        if_neg (by decide), if_neg (by decide), ihb (by omega), upToClosing_of_notMem i.noBrace,
        upToClosing, if_neg (by decide), if_pos rfl, if_neg (by omega), upToClosing,
        if_neg (by decide), if_neg (by decide), upToClosing, if_neg (by decide),
        if_neg (by decide), Nat.add_sub_cancel, ih hdepth]
      simp only [Option.map_map]
      congr 1
      funext s
      simp [Body.text]

/-- The scan for the closing brace of a node finds it. -/
theorem upToClosing_inside (n : Node) (t : Str) :
  upToClosing 1 (n.inside ++ '}' :: t) = some n.inside
  := by
  rw [Node.inside, List.cons_append, upToClosing, if_neg (by decide), if_neg (by decide),
    List.append_assoc, upToClosing_body n.body (by decide), upToClosing_of_notMem n.indent.noBrace,
    upToClosing, if_neg (by decide), if_pos rfl, if_pos rfl]
  simp

/-- From a label that is first met in its header a node is found. -/
theorem nodeBody_first {before after label : Str} {n : Node} {i : ℕ}
    (hfirst : findSub label (before ++ (n.text ++ after)) = some i) (hbefore : before.length ≤ i)
    (hheader : i ≤ before.length + n.header.text.length) :
  nodeBody (before ++ (n.text ++ after)) label = .ok n.inside
  := by
  obtain ⟨k, rfl⟩ := Nat.exists_eq_add_of_le hbefore
  have htext : n.text ++ after = n.header.text ++ '{' :: (n.inside ++ '}' :: ';' :: after) := by
    simp [Node.text, Node.inside]
  have hdrop : (before ++ (n.text ++ after)).drop (before.length + k)
      = n.header.text.drop k ++ '{' :: (n.inside ++ '}' :: ';' :: after) := by
    rw [htext, ← List.drop_drop, List.drop_left, List.drop_append_of_le_length (by omega)]
  have hbrace : '{' ∉ n.header.text.drop k := by
    intro hmem
    apply n.header.noBrace.1 (List.mem_of_mem_drop hmem)
  rw [nodeBody, hfirst]
  simp only
  rw [hdrop, index_append_cons hbrace]
  simp only
  rw [List.append_cons, List.drop_left' (by simp), upToClosing_inside]

end Overlay
