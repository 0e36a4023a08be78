import ZynqRtlFlow.Overlay.Search

/-!
# Editing a node

The script edits a node by replacing the text of a sub-node wherever it occurs.  The text
of a node occurs in that of a body only where a sub-node ends in it, so the replacement
edits the sub-node alone when no other one does.
-/

namespace Overlay

open Text

/-! ### The text of a body -/

/-- A body is determined by its text. -/
theorem Body.text_cancel {b b' : Body} {i i' : Indent} {t t' : Str}
    (h : b.text ++ (i.text ++ '}' :: t) = b'.text ++ (i'.text ++ '}' :: t')) :
  b = b' ∧ i = i' ∧ t = t'
  := by
  induction b generalizing b' i i' t t' with
  | nil =>
      cases b' with
      | nil =>
          obtain ⟨hi, -, ht⟩ := append_cons_cancel i'.noBrace.2 i.noBrace.2 h
          use rfl, Indent.ext hi
      | line l' r' =>
          rw [Body.text, Body.text, List.nil_append, List.append_assoc, List.cons_append] at h
          cases (append_cons_cancel l'.noBrace.2 (newline_notMem i.isLine) h).2.1
      | node h' c' j' r' =>
          rw [Body.text, Body.text, List.nil_append, List.append_assoc, List.cons_append] at h
          cases (append_cons_cancel h'.noBrace.2 i.noBrace.1 h).2.1
  | line l r ih =>
      cases b' with
      | nil =>
          rw [Body.text, Body.text, List.nil_append, List.append_assoc, List.cons_append] at h
          cases (append_cons_cancel (newline_notMem i'.isLine) l.noBrace.2 h).2.1
      | line l' r' =>
          rw [Body.text, Body.text, List.append_assoc, List.append_assoc, List.cons_append,
            List.cons_append] at h
          obtain ⟨hl, -, hr⟩ := append_cons_cancel (newline_notMem l'.isLine)
            (newline_notMem l.isLine) h
          obtain ⟨rfl, hrest⟩ := ih hr
          rw [Line.ext hl]
          use rfl
      | node h' c' j' r' =>
          rw [Body.text, Body.text, List.append_assoc, List.append_assoc, List.cons_append,
            List.cons_append] at h
          cases (append_cons_cancel (newline_notMem h'.isLine) l.noBrace.1 h).2.1
  | node h₀ c j r ihc ih =>
      cases b' with
      | nil =>
          rw [Body.text, Body.text, List.nil_append, List.append_assoc, List.cons_append] at h
          cases (append_cons_cancel i'.noBrace.1 h₀.noBrace.2 h).2.1
      | line l' r' =>
          rw [Body.text, Body.text, List.append_assoc, List.append_assoc, List.cons_append,
            List.cons_append] at h
          cases (append_cons_cancel l'.noBrace.1 (newline_notMem h₀.isLine) h).2.1
      | node h' c' j' r' =>
          simp only [Body.text, List.append_assoc, List.cons_append] at h
          obtain ⟨hh, -, hc⟩ := append_cons_cancel h'.noBrace.1 h₀.noBrace.1 h
          obtain ⟨rfl, rfl, hr⟩ := ihc (List.cons.inj hc).2
          obtain ⟨rfl, hrest⟩ := ih (List.cons.inj (List.cons.inj hr).2).2
          rw [Header.ext hh]
          use rfl

/-- A node is determined by its text. -/
theorem Node.text_injective {n m : Node} (h : n.text = m.text) :
  n = m
  := by
  rw [text, text] at h
  obtain ⟨hheader, -, hbody⟩ := append_cons_cancel m.header.noBrace.1 n.header.noBrace.1 h
  obtain ⟨hbody, hindent, -⟩ := Body.text_cancel (List.cons.inj hbody).2
  cases n
  cases m
  congr 1
  apply Header.ext hheader

/-- The text of `m` ends with that of `n`. -/
def Node.EndsIn (m n : Node) : Prop :=
  n.header.text <:+ m.header.text ∧ n.body = m.body ∧ n.indent = m.indent

instance (m n : Node) : Decidable (m.EndsIn n) :=
  inferInstanceAs (Decidable (_ ∧ _ ∧ _))

/-- No sub-node at any depth ends in `n`. -/
def Absent (n : Node) : Body → Prop
  | .nil => True
  | .line _ rest => Absent n rest
  | .node h b i rest => ¬ Node.EndsIn ⟨h, b, i⟩ n ∧ Absent n b ∧ Absent n rest

instance decidableAbsent (n : Node) : (b : Body) → Decidable (Absent n b)
  | .nil => .isTrue trivial
  | .line _ rest => decidableAbsent n rest
  | .node _ b _ rest =>
      have := decidableAbsent n b
      have := decidableAbsent n rest
      inferInstanceAs (Decidable (_ ∧ _ ∧ _))

/-- The text of `n` begins nowhere in a stretch of text, whatever follows it. -/
def Clear (n : Node) (u : Str) : Prop :=
  ∀ s, s <:+ u → s ≠ [] → ∀ t, ¬ n.text <+: s ++ t

theorem Clear.append {n : Node} {u v : Str} (hu : Clear n u) (hv : Clear n v) :
  Clear n (u ++ v)
  := by
  intro s hs hne t
  obtain hs | ⟨s, hs', hne', rfl⟩ := suffix_append_cases hs
  · apply hv s hs hne
  · rw [List.append_assoc]
    apply hu s hs' hne'

theorem Clear.replaceAll {n : Node} {u : Str} (h : Clear n u) (new t : Str) :
  replaceAll n.text new (u ++ t) = u ++ replaceAll n.text new t
  := by
  apply replaceAll_append
  intro s hs hne
  apply h s hs hne

theorem not_prefix_line (n : Node) {s : Str} (hs : '{' ∉ s) (t : Str) :
  ¬ n.text <+: s ++ '\n' :: t
  := by
  rintro ⟨r, hr⟩
  rw [Node.text, List.append_assoc, List.cons_append] at hr
  cases (append_cons_cancel hs (newline_notMem n.header.isLine) hr).2.1

theorem clear_line (n : Node) {l : Str} (hl : '{' ∉ l) :
  Clear n (l ++ ['\n'])
  := by
  intro s hs hne t
  obtain hs | ⟨s, hs', -, rfl⟩ := suffix_append_cases hs
  · obtain rfl | hs := List.suffix_cons_iff.mp hs
    · apply not_prefix_line n (s := []) (by simp)
    · cases hne (List.suffix_nil.mp hs)
  · rw [List.append_assoc]
    apply not_prefix_line
    intro hmem
    apply hl (hs'.subset hmem)

/-- The text of a node ends with that of another only if the nodes do. -/
theorem endsIn_of_start {n : Node} {h : Header} {b : Body} {i : Indent} {s t : Str}
    (hs : s <:+ h.text)
    (hstart : n.text <+: s ++ '{' :: '\n' :: (b.text ++ (i.text ++ '}' :: t))) :
  Node.EndsIn ⟨h, b, i⟩ n
  := by
  obtain ⟨r, hr⟩ := hstart
  have hbrace : '{' ∉ s := by
    intro hmem
    apply h.noBrace.1 (hs.subset hmem)
  simp only [Node.text, List.append_assoc, List.cons_append] at hr
  obtain ⟨rfl, -, hr⟩ := append_cons_cancel hbrace n.header.noBrace.1 hr
  obtain ⟨hb, hi, -⟩ := Body.text_cancel (List.cons.inj hr).2
  use hs, hb

/-- A node does not begin in the header of one that does not end in it. -/
theorem not_prefix_header {n : Node} {h : Header} {b : Body} {i : Indent}
    (hends : ¬ Node.EndsIn ⟨h, b, i⟩ n) {s : Str} (hs : s <:+ h.text ++ ['{', '\n'])
    (hnil : s ≠ []) (t : Str) :
  ¬ n.text <+: s ++ (b.text ++ (i.text ++ '}' :: t))
  := by
  intro hstart
  obtain hs | ⟨s, hs', -, rfl⟩ := suffix_append_cases hs
  · obtain rfl | hs := List.suffix_cons_iff.mp hs
    · apply hends (endsIn_of_start (List.nil_suffix) hstart)
    · obtain rfl | hs := List.suffix_cons_iff.mp hs
      · apply not_prefix_line n (s := []) (by simp) _ hstart
      · apply hnil (List.suffix_nil.mp hs)
  · apply hends
    apply endsIn_of_start hs' (t := t)
    simpa using hstart

/-- A node no sub-node ends in begins nowhere in the text. -/
theorem Absent.clear {n : Node} {b : Body} (h : Absent n b) :
  Clear n b.text
  := by
  induction b with
  | nil =>
      intro s hs hne
      cases hne (List.suffix_nil.mp hs)
  | line l rest ih =>
      rw [Body.text, List.append_cons]
      apply Clear.append _ (ih h)
      apply clear_line n l.noBrace.1
  | node h' b i rest ihb ih =>
      obtain ⟨hends, hb, hrest⟩ := h
      have hclose : Clear n (i.line ++ ['\n']) := by
        apply clear_line
        simp [Indent.line, i.noBrace.1]
      have htext : (Body.node h' b i rest).text
          = (h'.text ++ ['{', '\n']) ++ (b.text ++ (i.line ++ ['\n'])) ++ rest.text := by
        simp [Body.text, Indent.line]
      rw [htext]
      apply Clear.append _ (ih hrest)
      intro s hs hne t
      obtain hs | ⟨s, hs', hne', rfl⟩ := suffix_append_cases hs
      · apply (ihb hb).append hclose s hs hne
      · have hnot := not_prefix_header hends hs' hne' (';' :: '\n' :: t)
        simpa [Indent.line] using hnot

theorem Node.replaceAll_rest (n : Node) (new : Str) {t : Str} (h : '{' ∉ t) :
  replaceAll n.text new t = t
  := by
  apply replaceAll_of_notMem _ h
  simp [text]

theorem Node.replaceAll_self (n : Node) (new t : Str) :
  replaceAll n.text new (n.text ++ t) = new ++ replaceAll n.text new t
  := by
  apply replaceAll_old
  simp [text]

/-! ### The value of a property -/

/-- `b'` is `b` with `v` for the value of its own property `p`. -/
inductive Sets (p v : Str) : Body → Body → Prop where
  | here {l l' : Line} {rest : Body} (hl : (lineValue p l.text).isSome)
      (hl' : l'.text = lead l.text ++ (p ++ " = ".toList ++ v ++ [';']) ++ tail l.text) :
      Sets p v (.line l rest) (.line l' rest)
  | line {l : Line} {rest rest' : Body} (hl : lineValue p l.text = none)
      (hrest : Sets p v rest rest') : Sets p v (.line l rest) (.line l rest')
  | node {h : Header} {b : Body} {i : Indent} {rest rest' : Body} (hrest : Sets p v rest rest') :
      Sets p v (.node h b i rest) (.node h b i rest')

/-- `b'` is `b` with its sub-nodes' bodies replaced according to `R`. -/
inductive Edited (R : Node → Body → Prop) : Body → Body → Prop where
  | nil : Edited R .nil .nil
  | line {l : Line} {rest rest' : Body} (hrest : Edited R rest rest') :
      Edited R (.line l rest) (.line l rest')
  | node {h : Header} {b b' : Body} {i : Indent} {rest rest' : Body} (hnode : R ⟨h, b, i⟩ b')
      (hrest : Edited R rest rest') : Edited R (.node h b i rest) (.node h b' i rest')

theorem Edited.refl {R : Node → Body → Prop} {b : Body} (h : ∀ n ∈ b.nodes, R n n.body) :
  Edited R b b
  := by
  induction b with
  | nil => apply Edited.nil
  | line l rest ih => apply Edited.line (ih h)
  | node h' b i rest _ ih =>
      obtain ⟨hnode, hrest⟩ := List.forall_mem_cons.mp h
      apply Edited.node hnode (ih hrest)

theorem Edited.imp {R R' : Node → Body → Prop} {b b' : Body} (hedited : Edited R b b')
    (h : ∀ n ∈ b.nodes, ∀ b', R n b' → R' n b') :
  Edited R' b b'
  := by
  induction hedited with
  | nil => apply Edited.nil
  | line hrest ih => apply Edited.line (ih h)
  | node hnode hrest ih =>
      obtain ⟨hhead, htail⟩ := List.forall_mem_cons.mp h
      apply Edited.node (hhead _ hnode) (ih htail)

theorem Edited.exists_of_mem {R : Node → Body → Prop} {b b' : Body} (hedited : Edited R b b')
    {n : Node} (hn : n ∈ b.nodes) :
  ∃ b', R n b'
  := by
  induction hedited with
  | nil => cases hn
  | line hrest ih => apply ih hn
  | @node _ _ b' _ _ _ hnode hrest ih =>
      obtain rfl | hn := List.mem_cons.mp hn
      · use b'
      · apply ih hn

/-- The sub-nodes of an edited body, each with the one it was. -/
theorem Edited.nodes {R : Node → Body → Prop} {b b' : Body} (hedited : Edited R b b') :
  List.Forall₂ (fun n m => R n m.body) b.nodes b'.nodes
  := by
  induction hedited with
  | nil => apply List.Forall₂.nil
  | line hrest ih => apply ih
  | node hnode hrest ih =>
      constructor
      · apply hnode
      · apply ih

/-- The lines of the node's own property left empty. -/
def Body.without (p : Str) : Body → Body
  | .nil => .nil
  | .line l rest => .line (if (lineValue p l.text).isSome then blankLine else l) (rest.without p)
  | .node h b i rest => .node h b i (rest.without p)

variable {isAlnum : Char → Bool} {p v : Str} {b b' : Body}

theorem lineValue_set (hp : IsName p) {u w : Str} (hu : ∀ c ∈ u, isSpace c = true)
    (hw : ∀ c ∈ w, isSpace c = true) :
  lineValue p (u ++ (p ++ " = ".toList ++ v ++ [';']) ++ w) = some (v.dropWhile isSpace)
  := by
  obtain ⟨c, p, rfl⟩ := List.exists_cons_of_ne_nil hp.1
  have hc : isSpace c = false := (hp.2 c List.mem_cons_self).1
  have hline : u ++ ((c :: p) ++ " = ".toList ++ v ++ [';']) ++ w
      = u ++ ((c :: p) ++ (" = ".toList ++ v ++ [';'] ++ w)) := by
    simp
  have hdrop : (u ++ ((c :: p) ++ (" = ".toList ++ v ++ [';'] ++ w))).dropWhile isSpace
      = (c :: p) ++ (" = ".toList ++ v ++ [';'] ++ w) := by
    rw [List.dropWhile_append_of_pos hu, List.cons_append, List.dropWhile_cons, hc]
    rfl
  have hstrip : rstrip (' ' :: (v ++ [';'] ++ w)) = ' ' :: (v ++ [';']) := by
    rw [← List.cons_append, rstrip_blank hw, ← List.cons_append, rstrip,
      List.rdropWhile_concat_neg]
    decide
  have heq : (" = ".toList ++ v ++ [';'] ++ w).dropWhile isSpace
      = '=' :: ' ' :: (v ++ [';'] ++ w) := rfl
  rw [hline, lineValue, hdrop, if_pos (List.prefix_append _ _), List.drop_left, heq]
  simp only
  rw [hstrip, ← List.cons_append, List.dropLast_concat]
  rfl

theorem Sets.absent {n : Node} (hset : Sets p v b b') (h : Absent n b) :
  Absent n b'
  := by
  induction hset with
  | here => apply h
  | line hl hrest ih => apply ih h
  | node hrest ih =>
      obtain ⟨hends, hb, hrest⟩ := h
      use hends, hb
      apply ih hrest

theorem Sets.isSome (hset : Sets p v b b') :
  (b.value p).isSome
  := by
  induction hset with
  | here hl => rw [Body.value, Option.isSome_or, hl, Bool.true_or]
  | line hl hrest ih => rw [Body.value, hl, Option.none_or, ih]
  | node hrest ih => apply ih

theorem Sets.without (hp : IsName p) (hset : Sets p v b b') :
  b'.without p = b.without p
  := by
  induction hset with
  | here hl hl' =>
      rw [Body.without, Body.without, if_pos hl, if_pos]
      rw [hl', lineValue_set hp]
      · rfl
      · intro c
        apply isSpace_of_mem_lead
      · intro c
        apply isSpace_of_mem_tail
  | line hl hrest ih => rw [Body.without, Body.without, ih]
  | node hrest ih => rw [Body.without, Body.without, ih]

/-- Where the search finds the node's own property, and how the texts differ there. -/
theorem Sets.search (hp : IsName p) (hword : startsWord isAlnum p = true) (hset : Sets p v b b')
    (h : Direct isAlnum p b) :
  ∃ before value after, b'.text = before ++ (p ++ " = ".toList ++ v ++ [';']) ++ after
    ∧ ∀ t, searchProperty isAlnum p false (b.text ++ t) = some (before, value, after ++ t)
  := by
  induction hset with
  | @here l l' rest hl hl' =>
      obtain ⟨value, hvalue⟩ := Option.isSome_iff_exists.mp hl
      have hown := searchProperty_own isAlnum hp hword l hvalue (h.1.trans hvalue)
      use lead l.text, value, tail l.text ++ '\n' :: rest.text
      constructor
      · rw [Body.text, hl']
        simp
      · intro t
        rw [Body.text, List.append_assoc, List.cons_append,
          searchProperty_line isAlnum hp (l.confined hp), hown]
        simp
  | @line l rest rest' hl hrest ih =>
      obtain ⟨hdirect, hrest'⟩ := h
      obtain ⟨before, value, after, htext, hsearch⟩ := ih (hrest' hl)
      have hnone : searchProperty isAlnum p false l.text = none := by
        rw [hl, propertyValue, Option.map_eq_none_iff] at hdirect
        apply hdirect
      use l.text ++ '\n' :: before, value, after
      constructor
      · rw [Body.text, htext]
        simp
      · intro t
        rw [Body.text, List.append_assoc, List.cons_append,
          searchProperty_line isAlnum hp (l.confined hp), hnone, hsearch]
        simp
  | @node h' c i rest rest' hrest ih =>
      obtain ⟨hlines, hrest'⟩ := h
      obtain ⟨before, value, after, htext, hsearch⟩ := ih hrest'
      use h'.line ++ '\n' :: (c.text ++ (i.line ++ '\n' :: before)), value, after
      constructor
      · rw [Body.text, htext]
        simp [Header.line, Indent.line]
      · intro t
        have hnode : (Body.node h' c i rest).text ++ t
            = h'.line ++ '\n' :: (c.text ++ (i.line ++ '\n' :: (rest.text ++ t))) := by
          simp [Body.text, Header.line, Indent.line]
        rw [hnode, searchProperty_line isAlnum hp (h'.confined hp), h'.searchProperty hp,
          searchProperty_lines isAlnum hp hlines, searchProperty_line isAlnum hp (i.confined hp),
          i.searchProperty hp, hsearch]
        simp

/-- A property with a character that is not in what is set is not found where it was not
before. -/
theorem Sets.silent {q : Str} (hset : Sets p v b b') {c : Char} (hc : c ∈ q)
    (hspace : isSpace c = false) (hnot : c ∉ p ++ " = ".toList ++ v ++ [';'])
    (h : ∀ l ∈ b.lines, propertyValue isAlnum l q = none) :
  ∀ l ∈ b'.lines, propertyValue isAlnum l q = none
  := by
  induction hset with
  | @here l l' rest hl hl' =>
      rw [Body.lines, List.forall_mem_cons] at h ⊢
      constructor
      · apply propertyValue_eq_none hc
        rw [hl', List.mem_append, List.mem_append]
        rintro ((hmem | hmem) | hmem)
        · rw [isSpace_of_mem_lead hmem] at hspace
          cases hspace
        · apply hnot hmem
        · rw [isSpace_of_mem_tail hmem] at hspace
          cases hspace
      · apply h.2
  | line hl hrest ih =>
      rw [Body.lines, List.forall_mem_cons] at h ⊢
      use h.1, ih h.2
  | node hrest ih =>
      rw [Body.lines, List.forall_mem_cons, List.forall_mem_append, List.forall_mem_cons] at h ⊢
      obtain ⟨hheader, hbody, hindent, hlines⟩ := h
      use hheader, hbody, hindent, ih hlines

theorem Edited.value {R : Node → Body → Prop} (hedited : Edited R b b') (q : Str) :
  b'.value q = b.value q
  := by
  induction hedited with
  | nil => rfl
  | line hrest ih => rw [Body.value, Body.value, ih]
  | node hnode hrest ih => apply ih

/-- Edits of sub-nodes in which a property stays unfound leave it where it is. -/
theorem Edited.direct {R : Node → Body → Prop} {q : Str} (hedited : Edited R b b')
    (hR : ∀ n b', R n b' → (∀ l ∈ n.body.lines, propertyValue isAlnum l q = none) →
      ∀ l ∈ b'.lines, propertyValue isAlnum l q = none) (h : Direct isAlnum q b) :
  Direct isAlnum q b'
  := by
  induction hedited with
  | nil => trivial
  | line hrest ih =>
      obtain ⟨hline, hlines⟩ := h
      use hline
      intro hnone
      apply ih (hlines hnone)
  | node hnode hrest ih =>
      obtain ⟨hbody, hlines⟩ := h
      use hR _ _ hnode hbody
      apply ih hlines

/-- A line with another text between its white space. -/
def Line.setText (l : Line) (u : Str) (hline : IsLine (u ++ [';']))
    (hbrace : '{' ∉ u ++ [';'] ∧ '}' ∉ u ++ [';']) : Line where
  text := lead l.text ++ (u ++ [';']) ++ tail l.text
  isLine := by
    apply IsLine.append _ _
    · apply IsLine.append _ hline
      intro c hc
      apply l.isLine c ((List.takeWhile_sublist isSpace).subset hc)
    · intro c hc
      apply l.isLine c ((List.rtakeWhile_suffix isSpace l.text).subset hc)
  noBrace := by
    have hnot {c : Char} (hc : isSpace c = false) : c ∉ lead l.text ∧ c ∉ tail l.text := by
      constructor
      · intro hmem
        rw [isSpace_of_mem_lead hmem] at hc
        cases hc
      · intro hmem
        rw [isSpace_of_mem_tail hmem] at hc
        cases hc
    have hopen := hnot (c := '{') rfl
    have hclose := hnot (c := '}') rfl
    constructor
    · rw [List.mem_append, List.mem_append]
      rintro ((h | h) | h)
      · apply hopen.1 h
      · apply hbrace.1 h
      · apply hopen.2 h
    · rw [List.mem_append, List.mem_append]
      rintro ((h | h) | h)
      · apply hclose.1 h
      · apply hbrace.2 h
      · apply hclose.2 h
  closed := by
    right
    rw [rstrip_blank, ← List.append_assoc, rstrip, List.rdropWhile_concat_neg]
    · rw [List.getLast?_concat]
    · decide
    · intro c
      apply isSpace_of_mem_tail

/-- A value that makes a line can be set. -/
theorem exists_sets (hset : (b.value p).isSome) (hline : IsLine (p ++ " = ".toList ++ v ++ [';']))
    (hbrace : '{' ∉ p ++ " = ".toList ++ v ++ [';'] ∧ '}' ∉ p ++ " = ".toList ++ v ++ [';']) :
  ∃ b', Sets p v b b'
  := by
  induction b with
  | nil => cases hset
  | line l rest ih =>
      cases hl : lineValue p l.text with
      | none =>
          rw [Body.value, hl, Option.none_or] at hset
          obtain ⟨rest', hrest⟩ := ih hset
          use .line l rest'
          apply Sets.line hl hrest
      | some w =>
          use .line (l.setText _ hline hbrace) rest
          apply Sets.here
          · rw [hl]
            rfl
          · rfl
  | node h c i rest _ ih =>
      obtain ⟨rest', hrest⟩ := ih hset
      use .node h c i rest'
      apply Sets.node hrest

/-! ### Sub-nodes apart -/

/-- The text of `m` ends with that of `n` but for the value of the property `p`. -/
def Node.Resembles (p : Str) (m n : Node) : Prop :=
  n.header.text <:+ m.header.text ∧ n.body.without p = m.body.without p ∧ n.indent = m.indent

instance (p : Str) (m n : Node) : Decidable (m.Resembles p n) :=
  inferInstanceAs (Decidable (_ ∧ _ ∧ _))

/-- No sub-node that is to be edited is met in the place of another one, whatever its
interrupts are set to. -/
def Apart (P : Node → Prop) : Body → Prop
  | .nil => True
  | .line _ rest => Apart P rest
  | .node h b i rest =>
      (P ⟨h, b, i⟩ → Absent ⟨h, b, i⟩ rest)
        ∧ (∀ n ∈ rest.nodes, P n → ¬ Node.Resembles interrupts ⟨h, b, i⟩ n ∧ Absent n b)
        ∧ Apart P rest

instance decidableApart (P : Node → Prop) [DecidablePred P] : (b : Body) → Decidable (Apart P b)
  | .nil => .isTrue trivial
  | .line _ rest => decidableApart P rest
  | .node _ _ _ rest =>
      have := decidableApart P rest
      inferInstanceAs (Decidable ((_ → _) ∧ _ ∧ _))

theorem Body.text_node (h : Header) (b : Body) (i : Indent) (rest : Body) :
  (Body.node h b i rest).text = (Node.mk h b i).text ++ '\n' :: rest.text
  := by
  simp [Body.text, Node.text]

theorem Node.ne_of_mem {n : Node} {b : Body} (h : n ∈ b.nodes) :
  n.body ≠ b
  := by
  have hlt : sizeOf n.body < sizeOf b := by
    induction b with
    | nil => cases h
    | line l rest ih =>
        have := ih h
        simp
        omega
    | node h' b i rest _ ih =>
        obtain rfl | h := List.mem_cons.mp h
        · simp
          omega
        · have := ih h
          simp
          omega
  rintro rfl
  omega

/-- The text of `n` begins nowhere in `u` when a body of which `n` is a sub-node and then
`post` follow. -/
def ClearBefore (n : Node) (u post : Str) : Prop :=
  ∀ rest : Body, n ∈ rest.nodes → ∀ s, s <:+ u → s ≠ [] → ¬ n.text <+: s ++ (rest.text ++ post)

theorem Clear.before {n : Node} {u : Str} (h : Clear n u) (post : Str) :
  ClearBefore n u post
  := by
  intro rest _ s hs hne
  apply h s hs hne

theorem ClearBefore.append {n : Node} {u post v : Str} (hu : ClearBefore n u post)
    (hv : Clear n v)
    (hbody : ∀ rest : Body, n ∈ rest.nodes → ∃ b : Body, n ∈ b.nodes ∧ b.text = v ++ rest.text) :
  ClearBefore n (u ++ v) post
  := by
  intro rest hrest s hs hne
  obtain hs | ⟨s, hs', hne', rfl⟩ := suffix_append_cases hs
  · apply hv s hs hne
  · obtain ⟨b, hmem, htext⟩ := hbody rest hrest
    have hnot := hu b hmem s hs' hne'
    rw [htext, List.append_assoc] at hnot
    rw [List.append_assoc]
    apply hnot

theorem ClearBefore.line {n : Node} {u post : Str} (hu : ClearBefore n u post) (l : Line) :
  ClearBefore n (u ++ (l.text ++ ['\n'])) post
  := by
  apply hu.append (clear_line n l.noBrace.1)
  intro rest hrest
  use .line l rest, hrest
  simp [Body.text]

theorem ClearBefore.node {n m : Node} {u post : Str} (hu : ClearBefore n u post)
    (hm : Clear n (m.text ++ ['\n'])) :
  ClearBefore n (u ++ (m.text ++ ['\n'])) post
  := by
  apply hu.append hm
  intro rest hrest
  use .node m.header m.body m.indent rest, List.mem_cons_of_mem _ hrest
  rw [Body.text_node]
  simp

/-- A sub-node does not begin in the header of its own node. -/
theorem clearBefore_header {n m : Node} :
  ClearBefore n (m.header.text ++ ['{', '\n']) m.indent.line
  := by
  intro rest hrest s hs hne
  have hends : ¬ Node.EndsIn ⟨m.header, rest, m.indent⟩ n := by
    rintro ⟨-, hbody, -⟩
    apply Node.ne_of_mem hrest hbody
  apply not_prefix_header hends hs hne

/-- Replacing the text of a sub-node replaces the sub-node. -/
theorem replaceAll_node {n : Node} {u post : Str} {rest : Body} (hu : ClearBefore n u post)
    (hrest : Absent n rest) (hpost : '{' ∉ post) (new : Str) :
  replaceAll n.text new (u ++ (n.text ++ '\n' :: (rest.text ++ post)))
    = u ++ (new ++ '\n' :: (rest.text ++ post))
  := by
  have hbody := hu (.node n.header n.body n.indent rest) List.mem_cons_self
  rw [Body.text_node, List.append_assoc, List.cons_append] at hbody
  have hline := (clear_line n (l := []) (by simp)).replaceAll new (rest.text ++ post)
  rw [List.nil_append, List.singleton_append] at hline
  rw [replaceAll_append hbody, n.replaceAll_self, hline, hrest.clear.replaceAll, n.replaceAll_rest new hpost,
    List.singleton_append]

/-- No sub-node is met in a later one. -/
def Parted : Body → Prop
  | .nil => True
  | .line _ rest => Parted rest
  | .node h b i rest => Absent ⟨h, b, i⟩ rest ∧ Parted rest

instance decidableParted : (b : Body) → Decidable (Parted b)
  | .nil => .isTrue trivial
  | .line _ rest => decidableParted rest
  | .node _ _ _ rest =>
      have := decidableParted rest
      inferInstanceAs (Decidable (_ ∧ _))

/-- Erasing the sub-nodes of a body one after the other leaves its own lines. -/
theorem foldl_replaceAll {b : Body} (hparted : Parted b) {u post : Str}
    (hu : ∀ n ∈ b.nodes, Clear n u) (hpost : '{' ∉ post) :
  (b.nodes.map Node.text).foldl (fun own child => replaceAll child [] own) (u ++ (b.text ++ post))
    = u ++ (b.own.text ++ post)
  := by
  induction b generalizing u with
  | nil => rfl
  | line l rest ih =>
      have hnodes := ih hparted (u := u ++ (l.text ++ ['\n'])) (by
        intro n hn
        apply (hu n hn).append (clear_line n l.noBrace.1))
      simpa [Body.text, Body.nodes, Body.own] using hnodes
  | node h b i rest _ ih =>
      obtain ⟨habsent, hrest⟩ := hparted
      have hnode : Clear ⟨h, b, i⟩ u := hu _ List.mem_cons_self
      have hnodes := ih hrest (u := u ++ ['\n']) (by
        intro n hn
        apply (hu n (List.mem_cons_of_mem _ hn)).append (clear_line n (l := []) (by simp)))
      rw [Body.nodes, List.map_cons, List.foldl_cons, Body.text_node, List.append_assoc,
        List.cons_append, replaceAll_node (hnode.before post) habsent hpost]
      simpa [Body.text, Body.own, Body.blankLine] using hnodes

theorem splitNode_children (n : Node) :
  ∃ own, splitNode n.text = .ok (own, n.body.nodes.map Node.text)
  := by
  rw [splitNode, blockBody_text]
  simp only [bind, Except.bind, pure, Except.pure]
  rw [childNodes_inside]
  use (n.body.nodes.map Node.text).foldl (fun own child => replaceAll child [] own) n.inside

theorem splitNode_text (n : Node) (hparted : Parted n.body) :
  splitNode n.text = .ok (n.ownText, n.body.nodes.map Node.text)
  := by
  have hfold := foldl_replaceAll hparted (u := ['\n']) (by
    intro m _
    apply clear_line m (l := []) (by simp)) n.indent.noBrace.1
  have hown : (n.body.nodes.map Node.text).foldl (fun own child => replaceAll child [] own) n.inside
      = n.ownText := hfold
  rw [splitNode, blockBody_text]
  simp only [bind, Except.bind, pure, Except.pure]
  rw [childNodes_inside, hown]

/-! ### Aligning the sub-nodes -/

variable (isAlnum) (byName : List (Str × Str))

/-- What becomes of the body of a sub-node: nothing, or the value of its own interrupts is
set. -/
def Fixed (n : Node) (b' : Body) : Prop :=
  (fixChild isAlnum byName n.text = .ok none ∧ b' = n.body)
    ∨ (fixChild isAlnum byName n.text = .ok (some ({ n with body := b' } : Node).text)
      ∧ (b' = n.body ∨ ∃ v, Sets interrupts v n.body b'))

variable {isAlnum} {byName}

theorem Fixed.absent {n m : Node} (h : Fixed isAlnum byName n b') (hn : Absent m n.body) :
  Absent m b'
  := by
  obtain ⟨-, rfl⟩ | ⟨-, rfl | ⟨v, hset⟩⟩ := h
  · apply hn
  · apply hn
  · apply hset.absent hn

theorem Fixed.without {n : Node} (h : Fixed isAlnum byName n b') :
  b'.without interrupts = n.body.without interrupts
  := by
  obtain ⟨-, rfl⟩ | ⟨-, rfl | ⟨v, hset⟩⟩ := h
  · rfl
  · rfl
  · apply hset.without isName_interrupts

/-- An edited sub-node is met in the place of no other. -/
theorem Fixed.clear {n m : Node} (h : Fixed isAlnum byName n b')
    (hm : ¬ n.Resembles interrupts m) (hn : Absent m n.body) :
  Clear m (({ n with body := b' } : Node).text ++ ['\n'])
  := by
  have habsent : Absent m (.node n.header b' n.indent .nil) := by
    constructor
    · rintro ⟨hheader, hbody, hindent⟩
      apply hm
      use hheader
      rw [hbody, h.without]
      use rfl
    · constructor
      · apply h.absent hn
      · trivial
  have hclear := habsent.clear
  rw [Body.text_node] at hclear
  apply hclear

/-- The loop over the sub-nodes of a body edits each of them and nothing else. -/
theorem alignLoop_edited {P : Node → Prop} {R : Node → Body → Prop}
    (hR : ∀ n b', R n b' → Fixed isAlnum byName n b') {b : Body} (hapart : Apart P b)
    (hP : ∀ n ∈ b.nodes, ¬ P n → fixChild isAlnum byName n.text = .ok none)
    (hfix : ∀ n ∈ b.nodes, ∃ b', R n b') {u post : Str}
    (hu : ∀ n ∈ b.nodes, P n → ClearBefore n u post) (hpost : '{' ∉ post) :
  ∃ b', Edited R b b'
    ∧ alignLoop isAlnum byName (b.nodes.map Node.text) (u ++ (b.text ++ post))
      = .ok (u ++ (b'.text ++ post))
  := by
  induction b generalizing u with
  | nil =>
      use .nil, Edited.nil
      rfl
  | line l rest ih =>
      obtain ⟨rest', hedited, hloop⟩ := ih hapart hP hfix (u := u ++ (l.text ++ ['\n'])) (by
        intro n hn hPn
        apply (hu n hn hPn).line l)
      use .line l rest', Edited.line hedited
      simpa [Body.text, Body.nodes] using hloop
  | node h b i rest _ ih =>
      obtain ⟨habsent, hothers, hrest⟩ := hapart
      obtain ⟨hnode, hnodes⟩ := List.forall_mem_cons.mp hu
      obtain ⟨hPnode, hPnodes⟩ := List.forall_mem_cons.mp hP
      obtain ⟨⟨b', hb'⟩, hfix'⟩ := List.forall_mem_cons.mp hfix
      have hfixed := hR _ _ hb'
      obtain ⟨rest', hedited, hloop⟩ := ih hrest hPnodes hfix'
        (u := u ++ ((Node.mk h b' i).text ++ ['\n'])) (by
          intro n hn hPn
          obtain ⟨hresembles, habsent'⟩ := hothers n hn hPn
          apply (hnodes n hn hPn).node (hfixed.clear hresembles habsent'))
      use .node h b' i rest', Edited.node hb' hedited
      have hgoal : alignLoop isAlnum byName ((Body.node h b i rest).nodes.map Node.text)
          (u ++ ((Body.node h b i rest).text ++ post))
          = alignLoop isAlnum byName (rest.nodes.map Node.text)
            (u ++ ((Node.mk h b' i).text ++ '\n' :: (rest.text ++ post))) := by
        rw [Body.nodes, List.map_cons, alignLoop, Body.text_node, List.append_assoc,
          List.cons_append]
        obtain ⟨hnone, rfl⟩ | ⟨hsome, -⟩ := hfixed
        · rw [hnone]
          rfl
        · have hedits : P ⟨h, b, i⟩ := by
            by_contra hnot
            rw [hPnode hnot] at hsome
            cases hsome
          rw [hsome]
          simp only [bind, Except.bind]
          rw [replaceAll_node (hnode hedits) (habsent hedits) hpost]
      rw [hgoal]
      simpa [Body.text_node] using hloop

theorem Node.text_edges (n : Node) :
  n.text = n.header.text ++ ['{', '\n'] ++ (n.body.text ++ n.indent.line)
  := by
  simp [text, Indent.line]

/-- The loop over the sub-nodes of a node edits each of them and nothing else. -/
theorem alignLoop_text {P : Node → Prop} {R : Node → Body → Prop}
    (hR : ∀ n b', R n b' → Fixed isAlnum byName n b') {n : Node} (hapart : Apart P n.body)
    (hP : ∀ c ∈ n.body.nodes, ¬ P c → fixChild isAlnum byName c.text = .ok none)
    (hfix : ∀ c ∈ n.body.nodes, ∃ b', R c b') :
  ∃ b', Edited R n.body b'
    ∧ alignLoop isAlnum byName (n.body.nodes.map Node.text) n.text
      = .ok ({ n with body := b' } : Node).text
  := by
  have hbrace : '{' ∉ n.indent.line := by simp [Indent.line, n.indent.noBrace.1]
  obtain ⟨b', hedited, hloop⟩ := alignLoop_edited hR hapart hP hfix
    (u := n.header.text ++ ['{', '\n']) (by
      intro c _ _
      apply clearBefore_header) hbrace
  use b', hedited
  rw [n.text_edges, hloop, Node.text_edges]

end Overlay
