import ZynqRtlFlow.Overlay.Tree

/-!
# Searching for a property

The regular expression a property is searched by does not match across the end of a line,
so a search through the text of a tree is a search through its lines, those of the
sub-nodes included.  It finds a node's own property when no line before reads as one.
-/

namespace Text

/-! ### Stretches -/

variable {α : Type} {q : α → Bool} {c : α}

theorem dropWhile_append_cons (h : q c = false) (u t : List α) :
  (u ++ c :: t).dropWhile q = u.dropWhile q ++ c :: t
  := by
  induction u with
  | nil => simp [h]
  | cons d u ih =>
      rw [List.cons_append, List.dropWhile_cons, List.dropWhile_cons, ih]
      split
      · rfl
      · rfl

theorem takeWhile_append_cons (h : q c = false) (u t : List α) :
  (u ++ c :: t).takeWhile q = u.takeWhile q
  := by
  induction u with
  | nil => simp [h]
  | cons d u ih => rw [List.cons_append, List.takeWhile_cons, List.takeWhile_cons, ih]

end Text

namespace Overlay

open Text

variable (isAlnum : Char → Bool)

/-- The name of a property. -/
def IsName (p : Str) : Prop :=
  p ≠ [] ∧ ∀ c ∈ p, isSpace c = false ∧ c ∉ ['=', ';', '{', '}']

instance (p : Str) : Decidable (IsName p) :=
  inferInstanceAs (Decidable (_ ∧ _))

theorem isName_interrupts :
  IsName interrupts
  := by decide

theorem isName_interruptNames :
  IsName interruptNames
  := by decide

theorem isName_compatible :
  IsName compatible
  := by decide

theorem isName_ipName :
  IsName ipName
  := by decide

variable {p : Str}

theorem IsName.notMem (hp : IsName p) {c : Char} (hc : isSpace c = true ∨ c ∈ ['=', ';', '{', '}']) :
  c ∉ p
  := by
  intro hmem
  obtain ⟨hspace, hnot⟩ := hp.2 c hmem
  obtain hc | hc := hc
  · rw [hc] at hspace
    cases hspace
  · apply hnot hc

/-! ### Matching at one place -/

theorem matchProperty_nil (hp : IsName p) :
  matchProperty p [] = none
  := by
  rw [matchProperty, if_neg]
  intro h
  apply hp.1 (List.prefix_nil.mp h)

theorem matchProperty_cons {c : Char} (hc : c ∉ p) (hp : IsName p) (t : Str) :
  matchProperty p (c :: t) = none
  := by
  rw [matchProperty, if_neg]
  intro h
  obtain ⟨d, p', rfl⟩ := List.exists_cons_of_ne_nil hp.1
  rw [List.cons_prefix_cons] at h
  apply hc
  rw [h.1]
  apply List.mem_cons_self

/-- What is matched up to a semicolon does not depend on what follows it. -/
theorem matchProperty_closed (hp : IsName p) (u t : Str) :
  matchProperty p (u ++ ';' :: t) = (matchProperty p (u ++ [';'])).map fun m => (m.1, m.2 ++ t)
  := by
  have hnot : ';' ∉ p := hp.notMem (by simp)
  by_cases hprefix : p <+: u
  · obtain ⟨u, rfl⟩ := hprefix
    rw [List.append_assoc, List.append_assoc, matchProperty, matchProperty,
      if_pos (List.prefix_append _ _), if_pos (List.prefix_append _ _), List.drop_left,
      List.drop_left, dropWhile_append_cons (by decide), dropWhile_append_cons (by decide)]
    cases u.dropWhile isSpace with
    | nil => rfl
    | cons c u =>
        by_cases hc : c = '='
        · subst hc
          simp only [List.cons_append, dropWhile_append_cons (q := isSpace) (c := ';') rfl,
            dropWhile_append_cons (q := (· != ';')) (c := ';') rfl,
            takeWhile_append_cons (q := (· != ';')) (c := ';') rfl]
          have hhead := List.head?_dropWhile_not (· != ';') (u.dropWhile isSpace)
          cases hdrop : (u.dropWhile isSpace).dropWhile (· != ';') with
          | nil => rfl
          | cons d u =>
              rw [hdrop] at hhead
              obtain rfl : d = ';' := by simpa using hhead
              simp
        · simp [hc]
  · have hnone (t : Str) : ¬ p <+: u ++ ';' :: t := by
      intro h
      apply hprefix (prefix_of_prefix_append_cons hnot h)
    rw [matchProperty, if_neg (hnone t), matchProperty, if_neg (hnone [])]
    rfl

/-- Nothing matches up to an opening brace. -/
theorem matchProperty_opened (hp : IsName p) {u : Str} (hu : '=' ∉ u) (t : Str) :
  matchProperty p (u ++ '{' :: t) = none
  := by
  have hnot : '{' ∉ p := hp.notMem (by simp)
  rw [matchProperty]
  split
  next h =>
    obtain ⟨u, rfl⟩ := prefix_of_prefix_append_cons hnot h
    rw [List.append_assoc, List.drop_left, dropWhile_append_cons (by decide)]
    cases hdrop : u.dropWhile isSpace with
    | nil => rfl
    | cons c u' =>
        have hc : c ≠ '=' := by
          rintro rfl
          apply hu
          apply List.mem_append_right
          apply (List.dropWhile_sublist isSpace).subset
          rw [hdrop]
          apply List.mem_cons_self
        simp [hc]
  next h => rfl

/-! ### Lines -/

/-- Matches in a line do not reach beyond its end. -/
def Confined (p l : Str) : Prop :=
  ∀ s, s <:+ l → ∀ t, matchProperty p (s ++ '\n' :: t)
    = (matchProperty p s).map fun m => (m.1, m.2 ++ '\n' :: t)

theorem confined_blank (hp : IsName p) {s : Str} (h : ∀ c ∈ s, isSpace c = true) (t : Str) :
  matchProperty p (s ++ '\n' :: t) = (matchProperty p s).map fun m => (m.1, m.2 ++ '\n' :: t)
  := by
  cases s with
  | nil =>
      rw [List.nil_append, matchProperty_nil hp, matchProperty_cons (hp.notMem (.inl rfl)) hp]
      rfl
  | cons c s =>
      have hc : c ∉ p := hp.notMem (.inl (h c List.mem_cons_self))
      rw [List.cons_append, matchProperty_cons hc hp, matchProperty_cons hc hp]
      rfl

theorem confined_closed (hp : IsName p) (u : Str) {w : Str} (hw : ∀ c ∈ w, isSpace c = true) :
  Confined p (u ++ ';' :: w)
  := by
  intro s hs t
  obtain hs | ⟨s, -, -, rfl⟩ := suffix_append_cases hs
  · obtain rfl | hs := List.suffix_cons_iff.mp hs
    · have hnone (t : Str) := matchProperty_cons (hp.notMem (.inr (by simp))) hp t (c := ';')
      rw [List.cons_append, hnone, hnone]
      rfl
    · apply confined_blank hp
      intro c hc
      apply hw c (hs.subset hc)
  · rw [List.append_assoc, List.cons_append, matchProperty_closed hp, matchProperty_closed hp s w,
      Option.map_map]
    congr 1
    funext m
    simp

theorem Line.confined (hp : IsName p) (l : Line) :
  Confined p l.text
  := by
  obtain h | ⟨u, w, hw, htext⟩ := l.closed_cases
  · intro s hs
    apply confined_blank hp
    intro c hc
    apply h c (hs.subset hc)
  · rw [htext]
    apply confined_closed hp u hw

theorem Indent.confined (hp : IsName p) (i : Indent) :
  Confined p i.line
  := by
  have hline : i.line = (i.text ++ ['}']) ++ ';' :: [] := by
    simp [Indent.line]
  rw [hline]
  apply confined_closed hp
  simp

theorem Header.confined (hp : IsName p) (h : Header) :
  Confined p h.line
  := by
  intro s hs t
  obtain hs | ⟨s, hs', -, rfl⟩ := suffix_append_cases hs
  · obtain rfl | hs := List.suffix_cons_iff.mp hs
    · have hnone (t : Str) := matchProperty_cons (hp.notMem (.inr (by simp))) hp t (c := '{')
      rw [List.cons_append, hnone, hnone]
      rfl
    · rw [List.suffix_nil.mp hs]
      apply confined_blank hp
      simp
  · have hnone (t : Str) := matchProperty_opened hp (u := s) (t := t) (by
      intro heq
      apply h.noEq (hs'.subset heq))
    rw [List.append_assoc, List.singleton_append, hnone, hnone]
    rfl

theorem Body.confined_of_mem (hp : IsName p) {b : Body} {l : Str} (h : l ∈ b.lines) :
  Confined p l
  := by
  induction b with
  | nil => cases h
  | line l' rest ih =>
      obtain rfl | h := List.mem_cons.mp h
      · apply l'.confined hp
      · apply ih h
  | node h' b i rest ihb ih =>
      obtain rfl | h := List.mem_cons.mp h
      · apply h'.confined hp
      · obtain h | h := List.mem_append.mp h
        · apply ihb h
        · obtain rfl | h := List.mem_cons.mp h
          · apply i.confined hp
          · apply ih h

/-! ### Searching -/

theorem searchProperty_cons (w : Bool) (c : Char) (t : Str) :
  searchProperty isAlnum p w (c :: t)
    = ((if w = startsWord isAlnum p then none else matchProperty p (c :: t)).map fun m => ([], m)).or
        ((searchProperty isAlnum p (isWord isAlnum c) t).map fun m => (c :: m.1, m.2))
  := rfl

theorem searchProperty_of_match (hp : IsName p) (hword : startsWord isAlnum p = true) {t : Str}
    {m : Str × Str} (h : matchProperty p t = some m) :
  searchProperty isAlnum p false t = some ([], m)
  := by
  cases t with
  | nil =>
      rw [matchProperty_nil hp] at h
      cases h
  | cons c t =>
      rw [searchProperty_cons, hword, if_neg Bool.false_ne_true, h]
      rfl

/-- A search goes through a line, and on after it if it finds nothing there. -/
theorem searchProperty_line (hp : IsName p) {l : Str} (hl : Confined p l) (w : Bool) (t : Str) :
  searchProperty isAlnum p w (l ++ '\n' :: t)
    = ((searchProperty isAlnum p w l).map fun m => (m.1, m.2.1, m.2.2 ++ '\n' :: t)).or
        ((searchProperty isAlnum p false t).map fun m => (l ++ '\n' :: m.1, m.2))
  := by
  induction l generalizing w with
  | nil =>
      rw [List.nil_append, searchProperty_cons, matchProperty_cons (hp.notMem (.inl rfl)) hp,
        isWord_of_isSpace isAlnum rfl, ite_self]
      rfl
  | cons c l ih =>
      have hcons := hl (c :: l) (List.suffix_refl _) t
      rw [List.cons_append] at hcons ⊢
      rw [searchProperty_cons, hcons, searchProperty_cons, ih]
      · by_cases hw : w = startsWord isAlnum p
        · simp [hw, Option.map_or, Function.comp_def]
        · simp [hw, Option.map_or, Option.or_assoc, Function.comp_def]
      · intro s hs
        apply hl s (hs.trans (List.suffix_cons _ _))

/-- A search passes over lines in which it finds nothing. -/
theorem searchProperty_unlines (hp : IsName p) {ls : List Str} (hlines : ∀ l ∈ ls, Confined p l)
    (h : ∀ l ∈ ls, searchProperty isAlnum p false l = none) (t : Str) :
  searchProperty isAlnum p false (unlines ls ++ t)
    = (searchProperty isAlnum p false t).map fun m => (unlines ls ++ m.1, m.2)
  := by
  induction ls with
  | nil => simp
  | cons l ls ih =>
      obtain ⟨hl, hls⟩ := List.forall_mem_cons.mp h
      obtain ⟨hl', hls'⟩ := List.forall_mem_cons.mp hlines
      rw [unlines_cons, List.append_assoc, List.cons_append, searchProperty_line isAlnum hp hl', hl,
        Option.map_none, Option.none_or, ih hls' hls, Option.map_map]
      congr 1
      funext m
      simp

theorem searchProperty_lines (hp : IsName p) {b : Body}
    (h : ∀ l ∈ b.lines, propertyValue isAlnum l p = none) (t : Str) :
  searchProperty isAlnum p false (b.text ++ t)
    = (searchProperty isAlnum p false t).map fun m => (b.text ++ m.1, m.2)
  := by
  rw [← Body.unlines_lines]
  apply searchProperty_unlines isAlnum hp
  · intro l
    apply Body.confined_of_mem hp
  · intro l hl
    apply Option.map_eq_none_iff.mp (h l hl)

theorem searchProperty_blank (hp : IsName p) {u : Str} (h : ∀ c ∈ u, isSpace c = true) (t : Str) :
  searchProperty isAlnum p false (u ++ t)
    = (searchProperty isAlnum p false t).map fun m => (u ++ m.1, m.2)
  := by
  induction u with
  | nil => simp
  | cons c u ih =>
      obtain ⟨hc, hu⟩ := List.forall_mem_cons.mp h
      rw [List.cons_append, searchProperty_cons, matchProperty_cons (hp.notMem (.inl hc)) hp,
        isWord_of_isSpace isAlnum hc, ih hu, ite_self, Option.map_none, Option.none_or,
        Option.map_map]
      rfl

/-! ### A node's own property -/

/-- The value a line gives to the property `p`. -/
def lineValue (p l : Str) : Option Str :=
  if p <+: l.dropWhile isSpace then
    match ((l.dropWhile isSpace).drop p.length).dropWhile isSpace with
    | '=' :: t => some ((rstrip t).dropLast.dropWhile isSpace)
    | _ => none
  else none

/-- The value of a node's own property. -/
def Body.value (p : Str) : Body → Option Str
  | .nil => none
  | .line l rest => (lineValue p l.text).or (rest.value p)
  | .node _ _ _ rest => rest.value p

/-- Down to the node's own line of the property, every line that reads as one is one, and
is read as it is meant. -/
def Direct (p : Str) : Body → Prop
  | .nil => True
  | .line l rest =>
      propertyValue isAlnum l.text p = lineValue p l.text ∧ (lineValue p l.text = none → Direct p rest)
  | .node _ b _ rest => (∀ l ∈ b.lines, propertyValue isAlnum l p = none) ∧ Direct p rest

instance decidableDirect (p : Str) : (b : Body) → Decidable (Direct isAlnum p b)
  | .nil => .isTrue trivial
  | .line _ rest =>
      have := decidableDirect p rest
      inferInstanceAs (Decidable (_ ∧ (_ → _)))
  | .node _ _ _ rest =>
      have := decidableDirect p rest
      inferInstanceAs (Decidable (_ ∧ _))

theorem lineValue_eq_some {l v : Str} (h : lineValue p l = some v) :
  ∃ gap t, (∀ c ∈ gap, isSpace c = true) ∧ l = lead l ++ (p ++ (gap ++ '=' :: t))
    ∧ v = (rstrip t).dropLast.dropWhile isSpace
  := by
  rw [lineValue] at h
  split at h
  next hprefix =>
    obtain ⟨r, hr⟩ := hprefix
    rw [← hr, List.drop_left] at h
    split at h
    next t ht =>
      use r.takeWhile isSpace, t
      constructor
      · intro c hc
        apply List.mem_takeWhile_imp hc
      · constructor
        · rw [← ht, List.takeWhile_append_dropWhile, hr, lead, List.takeWhile_append_dropWhile]
        · injection h with h
          symm
          apply h
    next => cases h
  next => cases h

/-- After an equals sign a line goes on to the semicolon that closes it. -/
theorem Line.closed_after (l : Line) {u t : Str} (h : l.text = u ++ '=' :: t) :
  t = (rstrip t).dropLast ++ ';' :: tail l.text
  := by
  have hne : rstrip l.text ≠ [] := by
    intro hnil
    have hspace := List.rdropWhile_eq_nil_iff.mp hnil '=' (by simp [h])
    cases hspace
  have hlast := l.closed.resolve_left hne
  rw [List.append_cons] at h
  by_cases ht : rstrip t = []
  · have hline : rstrip l.text = u ++ ['='] := by
      rw [h, rstrip, List.rdropWhile, List.reverse_append, List.dropWhile_append_of_pos]
      · simp [isSpace, spaces]
      · intro c hc
        apply List.rdropWhile_eq_nil_iff.mp ht c (List.mem_reverse.mp hc)
    rw [hline, List.getLast?_concat] at hlast
    cases hlast
  · have hline := rstrip_append ht (u ++ ['='])
    have htail := tail_append ht (u ++ ['='])
    rw [← h] at hline htail
    rw [hline, List.getLast?_append_of_ne_nil _ ht] at hlast
    rw [htail, List.append_cons, List.dropLast_append_getLast? _ hlast, rstrip_append_tail]

theorem matchProperty_own {gap : Str} (hgap : ∀ c ∈ gap, isSpace c = true) (u w : Str) :
  ∃ after, matchProperty p (p ++ (gap ++ '=' :: (u ++ ';' :: w)))
      = some ((u.dropWhile isSpace).takeWhile (· != ';'), after)
    ∧ ((u.dropWhile isSpace).takeWhile (· != ';') = u.dropWhile isSpace → after = w)
  := by
  rw [matchProperty, if_pos (List.prefix_append _ _), List.drop_left,
    List.dropWhile_append_of_pos hgap]
  simp only [List.dropWhile_cons_of_neg (p := isSpace) (a := '=') (by decide),
    dropWhile_append_cons (q := isSpace) (c := ';') rfl,
    dropWhile_append_cons (q := (· != ';')) (c := ';') rfl,
    takeWhile_append_cons (q := (· != ';')) (c := ';') rfl]
  have hhead := List.head?_dropWhile_not (· != ';') (u.dropWhile isSpace)
  cases hdrop : (u.dropWhile isSpace).dropWhile (· != ';') with
  | nil =>
      use w
      constructor
      · rfl
      · intro _
        rfl
  | cons c t =>
      rw [hdrop] at hhead
      obtain rfl : c = ';' := by simpa using hhead
      use t ++ ';' :: w
      constructor
      · rfl
      · intro htake
        have hall := List.takeWhile_append_dropWhile (p := (· != ';')) (l := u.dropWhile isSpace)
        rw [htake, hdrop, List.append_right_eq_self] at hall
        cases hall

/-- A node's own line of the property, read as it is meant, is matched where the name
stands, up to the semicolon that closes it. -/
theorem searchProperty_own (hp : IsName p) (hword : startsWord isAlnum p = true) (l : Line) {v : Str}
    (hv : lineValue p l.text = some v) (h : propertyValue isAlnum l.text p = some v) :
  searchProperty isAlnum p false l.text = some (lead l.text, v, tail l.text)
  := by
  obtain ⟨gap, t, hgap, htext, rfl⟩ := lineValue_eq_some hv
  have hclosed := l.closed_after (u := lead l.text ++ (p ++ gap)) (t := t) (by
    rw [List.append_assoc, List.append_assoc]
    apply htext)
  obtain ⟨after, hmatch, hafter⟩ := matchProperty_own (p := p) hgap (rstrip t).dropLast (tail l.text)
  have hsearch : searchProperty isAlnum p false l.text
      = some (lead l.text, ((rstrip t).dropLast.dropWhile isSpace).takeWhile (· != ';'), after) := by
    have hlead : ∀ c ∈ lead l.text, isSpace c = true := by
      intro c
      apply isSpace_of_mem_lead
    rw [← hclosed] at hmatch
    have hblank := searchProperty_blank isAlnum hp hlead (p ++ (gap ++ '=' :: t))
    rw [← htext, searchProperty_of_match isAlnum hp hword hmatch] at hblank
    simpa using hblank
  rw [propertyValue, hsearch] at h
  simp only [Option.map_some, Option.some.injEq] at h
  rw [hsearch, h, hafter h]

/-! ### Values -/

variable {isAlnum}

theorem searchProperty_eq_none {u : Str} (h : ∀ s, s <:+ u → matchProperty p s = none) (w : Bool) :
  searchProperty isAlnum p w u = none
  := by
  induction u generalizing w with
  | nil => rfl
  | cons c u ih =>
      rw [searchProperty_cons, h _ (List.suffix_refl _), ite_self, ih]
      · rfl
      · intro s hs
        apply h s (hs.trans (List.suffix_cons _ _))

/-- Nothing matches in a header. -/
theorem Header.matchProperty (hp : IsName p) (h : Header) {s : Str} (hs : s <:+ h.line) :
  matchProperty p s = none
  := by
  obtain hs | ⟨s, hs', -, rfl⟩ := suffix_append_cases hs
  · obtain rfl | hs := List.suffix_cons_iff.mp hs
    · apply matchProperty_cons (hp.notMem (.inr (by simp))) hp
    · rw [List.suffix_nil.mp hs, matchProperty_nil hp]
  · apply matchProperty_opened hp
    intro heq
    apply h.noEq (hs'.subset heq)

theorem Header.searchProperty (hp : IsName p) (h : Header) (w : Bool) :
  searchProperty isAlnum p w h.line = none
  := by
  apply searchProperty_eq_none
  intro s hs
  apply h.matchProperty hp hs

theorem searchProperty_eq_none_of_notMem (hp : IsName p) {u : Str} (h : ∀ c ∈ u, c ∉ p) (w : Bool) :
  searchProperty isAlnum p w u = none
  := by
  apply searchProperty_eq_none
  intro s hs
  cases s with
  | nil => apply matchProperty_nil hp
  | cons c s => apply matchProperty_cons (h c (hs.subset List.mem_cons_self)) hp

/-- A property with a character that is not in the text is not found there. -/
theorem propertyValue_eq_none {c : Char} (hc : c ∈ p) {u : Str} (h : c ∉ u) :
  propertyValue isAlnum u p = none
  := by
  rw [propertyValue, Option.map_eq_none_iff]
  apply searchProperty_eq_none
  intro s hs
  rw [matchProperty, if_neg]
  intro hstart
  apply h (hs.subset (hstart.subset hc))

/-- Nothing of a closing brace is in a name. -/
theorem Indent.notMem_line (hp : IsName p) (i : Indent) {c : Char} (hc : c ∈ i.line) :
  c ∉ p
  := by
  obtain hc | hc := List.mem_append.mp hc
  · apply hp.notMem (.inl (i.blank c hc))
  · apply hp.notMem
    right
    simp at hc
    obtain rfl | rfl := hc
    · simp
    · simp

theorem Indent.searchProperty (hp : IsName p) (i : Indent) (w : Bool) :
  searchProperty isAlnum p w i.line = none
  := by
  apply searchProperty_eq_none_of_notMem hp
  intro c hc
  apply i.notMem_line hp hc

theorem Indent.searchProperty_text (hp : IsName p) (i : Indent) (w : Bool) :
  Overlay.searchProperty isAlnum p w i.text = none
  := by
  apply searchProperty_eq_none_of_notMem hp
  intro c hc
  apply hp.notMem (.inl (i.blank c hc))

theorem propertyValue_line (hp : IsName p) {l : Str} (hl : Confined p l) (t : Str) :
  propertyValue isAlnum (l ++ '\n' :: t) p
    = (propertyValue isAlnum l p).or (propertyValue isAlnum t p)
  := by
  simp only [propertyValue, searchProperty_line isAlnum hp hl, Option.map_or, Option.map_map]
  rfl

/-- The value found in the text of a body is that of the node's own property. -/
theorem propertyValue_body (hp : IsName p) {b : Body} (h : Direct isAlnum p b) (t : Str) :
  propertyValue isAlnum (b.text ++ t) p = (b.value p).or (propertyValue isAlnum t p)
  := by
  induction b with
  | nil => rfl
  | line l b ih =>
      obtain ⟨hl, hrest⟩ := h
      rw [Body.text, List.append_assoc, List.cons_append,
        propertyValue_line hp (l.confined hp), hl, Body.value]
      cases hvalue : lineValue p l.text with
      | none => rw [Option.none_or, Option.none_or, ih (hrest hvalue)]
      | some v => rfl
  | node h' b i b' _ ih =>
      obtain ⟨hlines, hrest⟩ := h
      have htext : (Body.node h' b i b').text ++ t
          = h'.line ++ '\n' :: (b.text ++ (i.line ++ '\n' :: (b'.text ++ t))) := by
        simp [Body.text, Header.line, Indent.line]
      have hheader : propertyValue isAlnum h'.line p = none := by
        rw [propertyValue, h'.searchProperty hp]
        rfl
      have hindent : propertyValue isAlnum i.line p = none := by
        rw [propertyValue, i.searchProperty hp]
        rfl
      have hskip (t : Str) : propertyValue isAlnum (b.text ++ t) p = propertyValue isAlnum t p := by
        rw [propertyValue, searchProperty_lines isAlnum hp hlines, Option.map_map]
        rfl
      rw [htext, propertyValue_line hp (h'.confined hp), hheader, hskip,
        propertyValue_line hp (i.confined hp), hindent, ih hrest]
      rfl

theorem Node.propertyValue_text (hp : IsName p) (n : Node) (h : Direct isAlnum p n.body) :
  propertyValue isAlnum n.text p = n.body.value p
  := by
  have htext : n.text = n.header.line ++ '\n' :: (n.body.text ++ n.indent.line) := by
    simp [Node.text, Header.line, Indent.line]
  rw [htext, propertyValue_line hp (n.header.confined hp), propertyValue_body hp h, propertyValue,
    n.header.searchProperty hp, propertyValue, n.indent.searchProperty hp]
  simp

/-- What stands between the braces of a node, without its sub-nodes. -/
def Node.ownText (n : Node) : Str :=
  '\n' :: (n.body.own.text ++ n.indent.text)

theorem Body.value_own (hp : IsName p) (b : Body) :
  b.own.value p = b.value p
  := by
  induction b with
  | nil => rfl
  | line l b ih => rw [own, value, value, ih]
  | node h b i b' _ ih =>
      have hblank : lineValue p blankLine.text = none := by
        rw [lineValue, if_neg]
        intro hprefix
        apply hp.1 (List.prefix_nil.mp hprefix)
      rw [own, value, value, hblank, ih, Option.none_or]

theorem Node.propertyValue_ownText (hp : IsName p) (n : Node) (h : Direct isAlnum p n.body.own) :
  propertyValue isAlnum n.ownText p = n.body.value p
  := by
  have hempty : Confined p [] := Body.blankLine.confined hp
  rw [Node.ownText, ← List.nil_append ('\n' :: _), propertyValue_line hp hempty,
    propertyValue_body hp h, Body.value_own hp, propertyValue, propertyValue,
    n.indent.searchProperty_text hp]
  simp [searchProperty]

/-! ### Where a value comes from -/

theorem matchProperty_subset {t v after : Str} (h : matchProperty p t = some (v, after)) :
  ∀ c ∈ v, c ∈ t
  := by
  intro c hc
  rw [matchProperty] at h
  split at h
  next =>
    split at h
    next t' heq =>
      split at h
      next =>
        obtain ⟨rfl, -⟩ := Prod.mk.inj (Option.some.inj h)
        have hmem := (List.dropWhile_sublist _).subset ((List.takeWhile_sublist _).subset hc)
        apply (List.drop_sublist p.length t).subset
        apply (List.dropWhile_sublist isSpace).subset
        rw [heq]
        apply List.mem_cons_of_mem _ hmem
      next => cases h
    next => cases h
  next => cases h

theorem propertyValue_subset {t v : Str} (h : propertyValue isAlnum t p = some v) :
  ∀ c ∈ v, c ∈ t
  := by
  rw [propertyValue] at h
  generalize false = w at h
  induction t generalizing w with
  | nil => cases h
  | cons d t ih =>
      rw [searchProperty_cons, Option.map_or, Option.or_eq_some_iff] at h
      intro c hc
      obtain h | ⟨-, h⟩ := h
      · split at h
        next => cases h
        next =>
          rw [Option.map_map, Option.map_eq_some_iff] at h
          obtain ⟨⟨v', after⟩, hmatch, rfl⟩ := h
          apply matchProperty_subset hmatch c hc
      · rw [Option.map_map] at h
        apply List.mem_cons_of_mem
        apply ih _ h c hc

/-- A value found among a node's own lines stands in one of them. -/
theorem Node.of_propertyValue_ownText (hp : IsName p) (n : Node) {v : Str}
    (h : propertyValue isAlnum n.ownText p = some v) :
  ∃ l : Line, ∀ c ∈ v, c ∈ l.text
  := by
  have hempty : Confined p [] := Body.blankLine.confined hp
  have hnil : propertyValue isAlnum [] p = none := rfl
  rw [ownText, ← List.nil_append ('\n' :: _), propertyValue_line hp hempty, hnil,
    Option.none_or] at h
  generalize n.body = b at h
  induction b with
  | nil =>
      have hindent : propertyValue isAlnum n.indent.text p = none := by
        rw [propertyValue, n.indent.searchProperty_text hp]
        rfl
      rw [Body.own, Body.text, List.nil_append, hindent] at h
      cases h
  | line l rest ih =>
      rw [Body.own, Body.text, List.append_assoc, List.cons_append,
        propertyValue_line hp (l.confined hp), Option.or_eq_some_iff] at h
      obtain h | ⟨-, h⟩ := h
      · use l, propertyValue_subset h
      · apply ih h
  | node _ _ _ rest _ ih =>
      rw [Body.own, Body.text, List.append_assoc, List.cons_append, Body.blankLine,
        propertyValue_line hp hempty, hnil, Option.none_or] at h
      apply ih h

end Overlay
