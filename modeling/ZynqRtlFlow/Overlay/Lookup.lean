import ZynqRtlFlow.Overlay.Format
import ZynqRtlFlow.Overlay.Interrupts

/-!
# Looking up a property

`property_value` searches the whole text of a node, so what it finds is the first line that
reads as the property: one whose name ends in the name at a word boundary, or whose value
has it before an equals sign, in the node itself or in a node in it.
-/

namespace Overlay

open Text

variable (isAlnum : Char → Bool)

/-- A property's name that is its own regular expression. -/
structure PlainName (p : Str) : Prop where
  isName : IsName p
  plain : ∀ c ∈ p, c ∉ ".^$*+?[]\\|()".toList

/-- What a search finds: where it stands, and the value. -/
def found (name t : Str) : Option (Str × Str) :=
  (searchProperty isAlnum name false t).map fun m => (m.1, m.2.1)

/-! ### The node's own property -/

namespace Content

/-- All properties, those of the sub-nodes included. -/
def all : Content → List Property
  | nil => []
  | property q rest => q :: rest.all
  | node _ c rest => c.all ++ rest.all

/-- Where the node's own property stands that has the name and a value, and its value
without white space before it. -/
def ownProperty (p : Str) : ℕ → Content → Option (Str × Str)
  | _, nil => none
  | d, property q rest =>
      ((if q.name = p then q.value else none).map fun v => (tabs d, v.dropWhile isSpace)).or
        ((rest.ownProperty p d).map fun m => ((q.line d).text ++ '\n' :: m.1, m.2))
  | d, node t c rest =>
      (rest.ownProperty p d).map fun m => (Tree.text d ⟨t, c⟩ ++ '\n' :: m.1, m.2)

end Content

/-- The value of the node's own property, and where it stands in the text of the node. -/
def Tree.ownProperty (p : Str) (d : ℕ) (t : Tree) : Option (Str × Str) :=
  (t.content.ownProperty p (d + 1)).map fun m => ((t.title.header d).line ++ '\n' :: m.1, m.2)

/-- `property_value` reads the property it is asked for: it returns the value of the node's
own property of that name, found where that property stands, and nothing if there is
none. -/
structure ReadsOwn (p : Str) (t : Tree) (d : ℕ) : Prop where
  value : propertyValue isAlnum (t.text d) p = (t.ownProperty p d).map (·.2)
  place : (searchProperty isAlnum p false (t.text d)).map (·.1) = (t.ownProperty p d).map (·.1)

/-! ### What reads as the property -/

/-- Whether a word character precedes what follows a text. -/
def afterWord (w : Bool) (u : Str) : Bool :=
  u.foldl (fun _ c => isWord isAlnum c) w

/-- Somewhere in a value the name begins at a word boundary, and an equals sign follows. -/
def Mentions (p v : Str) : Prop :=
  ∃ u gap rest, v = u ++ (p ++ (gap ++ '=' :: rest)) ∧ (∀ c ∈ gap, isSpace c = true)
    ∧ afterWord isAlnum false u ≠ startsWord isAlnum p

/-- The line of a property reads as one of the name. -/
def Property.ReadsAs (p : Str) (q : Property) : Prop :=
  ∃ v, q.value = some v
    ∧ ((∃ u, q.name = u ++ p ∧ afterWord isAlnum false u ≠ startsWord isAlnum p)
      ∨ Mentions isAlnum p v)

/-- The node's own property is the first to read as one of the name; or, if there is none
with a value, no property does. -/
def ReadFirst (p : Str) : Content → Prop
  | .nil => True
  | .property q rest =>
      if q.name = p ∧ q.value.isSome then startsWord isAlnum p = true
      else ¬ q.ReadsAs isAlnum p ∧ ReadFirst p rest
  | .node _ c rest => (∀ q ∈ c.all, ¬ q.ReadsAs isAlnum p) ∧ ReadFirst p rest

variable {isAlnum} {p : Str}

/-! ### Searching -/

/-- A match begins at a word boundary within the text. -/
theorem of_searchProperty {w : Bool} {t : Str} {m : Str × Str × Str}
    (h : searchProperty isAlnum p w t = some m) :
  ∃ s, t = m.1 ++ s ∧ s ≠ [] ∧ afterWord isAlnum w m.1 ≠ startsWord isAlnum p
    ∧ matchProperty p s = some m.2
  := by
  induction t generalizing w m with
  | nil => cases h
  | cons c t ih =>
      rw [searchProperty_cons, Option.or_eq_some_iff] at h
      obtain h | ⟨-, h⟩ := h
      · split at h
        next => cases h
        next hw =>
          obtain ⟨m', hm', rfl⟩ := Option.map_eq_some_iff.mp h
          use c :: t, rfl, List.cons_ne_nil c t, hw
      · obtain ⟨m', hm', rfl⟩ := Option.map_eq_some_iff.mp h
        obtain ⟨s, rfl, hs⟩ := ih hm'
        use s, rfl, hs.1, hs.2.1, hs.2.2

/-- Where a match can begin, one is found. -/
theorem searchProperty_isSome {w : Bool} {u s : Str} (hs : s ≠ [])
    (hw : afterWord isAlnum w u ≠ startsWord isAlnum p) (hmatch : (matchProperty p s).isSome) :
  (searchProperty isAlnum p w (u ++ s)).isSome
  := by
  induction u generalizing w with
  | nil =>
      obtain ⟨c, s, rfl⟩ := List.exists_cons_of_ne_nil hs
      have hfirst : w ≠ startsWord isAlnum p := hw
      rw [List.nil_append, searchProperty_cons, if_neg hfirst, Option.isSome_or, Option.isSome_map, hmatch,
        Bool.true_or]
  | cons c u ih =>
      rw [List.cons_append, searchProperty_cons, Option.isSome_or, Option.isSome_map, Option.isSome_map,
        ih hw, Bool.or_true]

/-! ### Lines that read as the property -/

/-- A match begins with the name and an equals sign, and a semicolon follows. -/
theorem matchProperty_isSome {s : Str} :
  (matchProperty p s).isSome
    ↔ ∃ gap rest, s = p ++ (gap ++ '=' :: rest) ∧ (∀ c ∈ gap, isSpace c = true) ∧ ';' ∈ rest
  := by
  constructor
  · intro h
    rw [matchProperty] at h
    split at h
    next hstart =>
      obtain ⟨r, rfl⟩ := hstart
      rw [List.drop_left] at h
      split at h
      next rest hrest =>
        split at h
        next after hafter =>
          use r.takeWhile isSpace, rest
          constructor
          · rw [← hrest, List.takeWhile_append_dropWhile]
          · constructor
            · intro c hc
              apply List.mem_takeWhile_imp hc
            · apply (List.dropWhile_sublist isSpace).subset
              apply (List.dropWhile_sublist (· != ';')).subset
              rw [hafter]
              apply List.mem_cons_self
        next => cases h
      next => cases h
    next => cases h
  · rintro ⟨gap, rest, rfl, hgap, hsemi⟩
    obtain ⟨u, w, rfl⟩ := List.append_of_mem hsemi
    obtain ⟨after, hmatch, -⟩ := matchProperty_own (p := p) hgap u w
    rw [hmatch]
    rfl

theorem afterWord_append (w : Bool) (u v : Str) :
  afterWord isAlnum w (u ++ v) = afterWord isAlnum (afterWord isAlnum w u) v
  := List.foldl_append

/-- White space parts words. -/
theorem afterWord_blank {u : Str} (h : ∀ c ∈ u, isSpace c = true) :
  afterWord isAlnum false u = false
  := by
  induction u with
  | nil => rfl
  | cons c u ih =>
      obtain ⟨hc, hu⟩ := List.forall_mem_cons.mp h
      rw [← ih hu, afterWord, List.foldl_cons, isWord_of_isSpace isAlnum hc]
      rfl

theorem afterWord_tabs (d : ℕ) (u : Str) :
  afterWord isAlnum false (tabs d ++ u) = afterWord isAlnum false u
  := by
  rw [afterWord_append, afterWord_blank (isSpace_tabs d)]

theorem afterWord_concat (w : Bool) (u : Str) (c : Char) :
  afterWord isAlnum w (u ++ [c]) = isWord isAlnum c
  := by
  rw [afterWord_append]
  rfl

theorem IsName.isWord (hp : IsName p) :
  IsWord p
  := by
  use hp.1
  intro c hc
  apply (hp.2 c hc).1

theorem Property.text_of_value {q : Property} {v : Str} (h : q.value = some v) (d : ℕ) :
  (q.line d).text = tabs d ++ q.name ++ [' '] ++ '=' :: (' ' :: v ++ [';'])
  := by
  rw [text_line, text, assigned, h]
  simp

theorem Property.eq_notMem_line {q : Property} (h : q.value = none) (d : ℕ) :
  '=' ∉ (q.line d).text
  := by
  have heq : '=' ∉ q.name := q.isName.notMem (by simp)
  simp [text_line, text, assigned, h, heq, notMem_tabs]

/-- What begins after an equals sign and ends where a text does, without another one, is an
end of what follows the sign. -/
theorem suffix_of_after {u v x y : Str} (hv : '=' ∉ v) (h : u ++ v = x ++ '=' :: y) :
  ∃ u', y = u' ++ v ∧ u = x ++ '=' :: u'
  := by
  rw [List.append_cons] at h
  obtain ⟨u', rfl⟩ | ⟨s, hs, hne, rfl⟩ := suffix_append_cases ⟨u, h⟩
  · use u', rfl
    rw [← List.append_assoc] at h
    rw [List.append_cons]
    apply List.append_cancel_right h
  · obtain ⟨s, c, rfl⟩ := (List.eq_nil_or_concat' s).resolve_left hne
    obtain ⟨w, hw⟩ := hs
    rw [← List.append_assoc] at hw
    obtain ⟨-, hlast⟩ := List.append_inj' hw rfl
    rw [hlast] at hv
    cases hv (by simp)

/-- Only the name itself ends where a name does. -/
theorem suffix_of_ends {d : ℕ} {name u gap : Str} (hp : IsName p) (hname : IsName name)
    (hgap : ∀ c ∈ gap, isSpace c = true) (h : u ++ p ++ gap = tabs d ++ name ++ [' ']) :
  ∃ x, name = x ++ p ∧ u = tabs d ++ x
  := by
  have hend {n : Str} (hn : IsName n) (t : Str) : rstrip (t ++ n) = t ++ n := by
    have hrstrip := rstrip_of_isWord hn.isWord
    rw [rstrip_append, hrstrip]
    rw [hrstrip]
    apply hn.1
  have hstrip := congrArg rstrip h
  rw [rstrip_blank hgap, hend hp, rstrip_blank (w := [' ']) (by decide), hend hname] at hstrip
  obtain ⟨x, rfl⟩ | ⟨s, hs, hne, rfl⟩ := suffix_append_cases ⟨u, hstrip⟩
  · use x, rfl
    rw [← List.append_assoc] at hstrip
    apply List.append_cancel_right hstrip
  · obtain ⟨c, s, rfl⟩ := List.exists_cons_of_ne_nil hne
    have hspace := isSpace_tabs d c (hs.subset List.mem_cons_self)
    rw [(hp.2 c List.mem_cons_self).1] at hspace
    cases hspace

/-- A match past the first equals sign of a property's line is in its value. -/
theorem mentions_of_match (hp : IsName p) {v u gap rest x y : Str}
    (hgap : ∀ c ∈ gap, isSpace c = true) (hsemi : ';' ∈ rest)
    (hbefore : u ++ p ++ gap = x ++ '=' :: y) (hafter : ' ' :: v ++ [';'] = y ++ '=' :: rest)
    (hboundary : afterWord isAlnum false u ≠ startsWord isAlnum p) :
  Mentions isAlnum p v
  := by
  have hnot : '=' ∉ p ++ gap := by
    rw [List.mem_append, not_or]
    use hp.notMem (by simp)
    intro hmem
    cases hgap _ hmem
  rw [List.append_assoc] at hbefore
  obtain ⟨u, rfl, hplace⟩ := suffix_of_after hnot hbefore
  obtain ⟨r, c, rfl⟩ := (List.eq_nil_or_concat' rest).resolve_left (List.ne_nil_of_mem hsemi)
  rw [← List.cons_append, ← List.append_assoc] at hafter
  obtain ⟨hafter, -⟩ := List.append_inj' hafter rfl
  cases u with
  | nil =>
      obtain ⟨a, p', hp'⟩ := List.exists_cons_of_ne_nil hp.1
      have hblank : ' ' ∉ p := hp.notMem (.inl rfl)
      rw [hp', List.cons_append, List.nil_append] at hafter
      obtain ⟨rfl, -⟩ := List.cons.inj hafter
      rw [hp'] at hblank
      cases hblank List.mem_cons_self
  | cons a u =>
      obtain ⟨rfl, rfl⟩ := List.cons.inj hafter
      rw [hplace, List.append_cons, List.append_cons, afterWord_append, afterWord_concat,
        isWord_of_isSpace isAlnum rfl] at hboundary
      use u, gap, r
      constructor
      · simp
      · use hgap, hboundary

theorem Property.readsAs_of_find (hp : IsName p) {q : Property} {d : ℕ}
    (h : (searchProperty isAlnum p false (q.line d).text).isSome) :
  q.ReadsAs isAlnum p
  := by
  obtain ⟨m, hm⟩ := Option.isSome_iff_exists.mp h
  obtain ⟨s, hs, -, hboundary, hmatch⟩ := of_searchProperty hm
  obtain ⟨gap, rest, rfl, hgap, hsemi⟩ := matchProperty_isSome.mp (by rw [hmatch]; rfl)
  cases hvalue : q.value with
  | none =>
      apply absurd _ (q.eq_notMem_line hvalue d)
      rw [hs]
      simp
  | some v =>
      use v, hvalue
      rw [text_of_value hvalue, ← List.append_assoc, ← List.append_assoc] at hs
      have hfirst : '=' ∉ tabs d ++ q.name ++ [' '] := by
        simp [q.isName.notMem (c := '=') (by simp), notMem_tabs]
      obtain ⟨hname, -⟩ | ⟨y, hbefore, hafter⟩ := append_cons_cases hfirst hs.symm
      · obtain ⟨x, hx, hplace⟩ := suffix_of_ends hp q.isName hgap hname
        left
        use x, hx
        rw [hplace, afterWord_tabs] at hboundary
        apply hboundary
      · right
        apply mentions_of_match hp hgap hsemi hbefore hafter hboundary

/-- Something is found in a line exactly if it reads as the property. -/
theorem Property.find_isSome_iff (hp : IsName p) (q : Property) (d : ℕ) :
  (searchProperty isAlnum p false (q.line d).text).isSome ↔ q.ReadsAs isAlnum p
  := by
  constructor
  · apply q.readsAs_of_find hp
  · rintro ⟨v, hvalue, ⟨u, hname, hboundary⟩ | ⟨u, gap, rest, rfl, hgap, hboundary⟩⟩
    · have hline : (q.line d).text = (tabs d ++ u) ++ (p ++ ([' '] ++ '=' :: (' ' :: v ++ [';']))) := by
        rw [text_of_value hvalue, hname]
        simp
      rw [hline]
      apply searchProperty_isSome
      · simp
      · rw [afterWord_tabs]
        apply hboundary
      · apply matchProperty_isSome.mpr
        use [' '], ' ' :: v ++ [';'], rfl, by decide
        simp
    · have hline : (q.line d).text = (tabs d ++ q.name ++ [' '] ++ ['='] ++ [' '] ++ u)
          ++ (p ++ (gap ++ '=' :: (rest ++ [';']))) := by
        rw [text_of_value hvalue]
        simp
      rw [hline]
      apply searchProperty_isSome
      · simp
      · rw [afterWord_append, afterWord_concat, isWord_of_isSpace isAlnum rfl]
        apply hboundary
      · apply matchProperty_isSome.mpr
        use gap, rest ++ [';'], rfl, hgap
        simp

/-! ### The first line that reads as the property -/

/-- Nothing is found in the lines of a content exactly if none of its properties reads as
the one looked for. -/
theorem Content.silent_iff (hp : IsName p) (c : Content) (d : ℕ) :
  (∀ l ∈ (c.body d).lines, Overlay.searchProperty isAlnum p false l = none)
    ↔ ∀ q ∈ c.all, ¬ q.ReadsAs isAlnum p
  := by
  induction c generalizing d with
  | nil => simp [body, Body.lines, all]
  | property q rest ih =>
      rw [body, Body.lines, List.forall_mem_cons, ih, all, List.forall_mem_cons,
        ← q.find_isSome_iff hp d, Option.not_isSome_iff_eq_none]
  | node t c rest ihc ih =>
      rw [body, Body.lines, ← Header.line, ← Indent.line, List.forall_mem_cons,
        List.forall_mem_append, List.forall_mem_cons, Header.searchProperty hp, Indent.searchProperty hp,
        ihc, ih, all, List.forall_mem_append]
      simp

variable {ls : List Str}

/-- A search among lines in which there is something to find does not go beyond them. -/
theorem searchProperty_stops (hp : IsName p) (hlines : ∀ l ∈ ls, Confined p l)
    (h : ¬ ∀ l ∈ ls, searchProperty isAlnum p false l = none) (t : Str) :
  ∃ m, searchProperty isAlnum p false (unlines ls ++ t) = some m ∧ m.1.length < (unlines ls).length
  := by
  induction ls with
  | nil => simp at h
  | cons l ls ih =>
      obtain ⟨hl, hls⟩ := List.forall_mem_cons.mp hlines
      rw [unlines_cons, List.append_assoc, List.cons_append, searchProperty_line isAlnum hp hl]
      cases hfind : searchProperty isAlnum p false l with
      | some m =>
          obtain ⟨s, hs, -⟩ := of_searchProperty hfind
          use (m.1, m.2.1, m.2.2 ++ '\n' :: (unlines ls ++ t)), rfl
          rw [hs, List.length_append, List.length_append]
          simp only [List.length_cons]
          omega
      | none =>
          rw [List.forall_mem_cons, hfind] at h
          obtain ⟨m, hm, hlength⟩ := ih hls (by simpa using h)
          use (l ++ '\n' :: m.1, m.2)
          rw [hm]
          use rfl
          simp only [List.length_append, List.length_cons]
          omega

variable (isAlnum) in
/-- Something beyond a stretch of a node is found exactly if no property in the stretch reads
as the one looked for. -/
theorem found_beyond (hp : IsName p) (c : Content) (d : ℕ) (t : Str) (own : Option (Str × Str)) :
  found isAlnum p ((c.body d).text ++ t) = own.map (fun m => ((c.body d).text ++ m.1, m.2))
    ↔ (∀ q ∈ c.all, ¬ q.ReadsAs isAlnum p) ∧ found isAlnum p t = own
  := by
  have hlines : ∀ l ∈ (c.body d).lines, Confined p l := by
    intro l
    apply Body.confined_of_mem hp
  rw [← c.silent_iff hp d, ← Body.unlines_lines]
  by_cases h : ∀ l ∈ (c.body d).lines, searchProperty isAlnum p false l = none
  · have hinjective : Function.Injective fun m : Str × Str => (unlines (c.body d).lines ++ m.1, m.2) :=
      (List.append_right_injective _).prodMap Function.injective_id
    have hfound : found isAlnum p (unlines (c.body d).lines ++ t)
        = (found isAlnum p t).map fun m => (unlines (c.body d).lines ++ m.1, m.2) := by
      rw [found, searchProperty_unlines isAlnum hp hlines h, found, Option.map_map, Option.map_map]
      rfl
    rw [hfound, (Option.map_injective hinjective).eq_iff, and_iff_right h]
  · obtain ⟨m, hm, hlength⟩ := searchProperty_stops hp hlines h t
    constructor
    · intro hfound
      rw [found, hm, eq_comm, Option.map_some, Option.map_eq_some_iff] at hfound
      obtain ⟨m', -, hm'⟩ := hfound
      obtain ⟨hplace, -⟩ := Prod.mk.inj hm'
      rw [← hplace, List.length_append] at hlength
      omega
    · rintro ⟨hnone, -⟩
      cases h hnone

/-- The node's own property is found where it stands exactly if its name begins with a word
character. -/
theorem found_own {q : Property} (hname : q.name = p) {v : Str} (hvalue : q.value = some v)
    (hsemi : ';' ∉ v) (d : ℕ) (t : Str) :
  found isAlnum p ((q.line d).text ++ '\n' :: t) = some (tabs d, v.dropWhile isSpace)
    ↔ startsWord isAlnum p = true
  := by
  subst hname
  constructor
  · intro h
    obtain ⟨m, hm, hpair⟩ := Option.map_eq_some_iff.mp h
    obtain ⟨hplace, -⟩ := Prod.mk.inj hpair
    obtain ⟨-, -, -, hboundary, -⟩ := of_searchProperty hm
    rw [hplace, afterWord_blank (isSpace_tabs d)] at hboundary
    simpa using hboundary
  · intro h
    have htext : (q.line d).text ++ '\n' :: t
        = tabs d ++ (q.name ++ ([' '] ++ '=' :: ((' ' :: v) ++ ';' :: '\n' :: t))) := by
      rw [q.text_of_value hvalue]
      simp
    have hdrop : (' ' :: v).dropWhile isSpace = v.dropWhile isSpace := List.dropWhile_cons_of_pos rfl
    have htake : (v.dropWhile isSpace).takeWhile (· != ';') = v.dropWhile isSpace := by
      apply List.takeWhile_eq_self_iff.mpr
      intro c hc
      rw [bne_iff_ne]
      rintro rfl
      apply hsemi ((List.dropWhile_sublist isSpace).subset hc)
    have hgap : ∀ c ∈ [' '], isSpace c = true := by decide
    obtain ⟨after, hmatch, -⟩ := matchProperty_own (p := q.name) hgap (' ' :: v) ('\n' :: t)
    rw [hdrop, htake] at hmatch
    rw [found, htext, searchProperty_blank isAlnum q.isName (isSpace_tabs d),
      searchProperty_of_match isAlnum q.isName h hmatch]
    simp

/-- In a content whose values have no semicolon, the node's own property is found exactly if
it is the first to read as one. -/
theorem found_iff (hp : IsName p) {c : Content} (hsemi : ∀ q ∈ c.properties, ';' ∉ q.value.getD [])
    (d : ℕ) {t : Str} (ht : found isAlnum p t = none) :
  found isAlnum p ((c.body d).text ++ t) = c.ownProperty p d ↔ ReadFirst isAlnum p c
  := by
  induction c with
  | nil => simp [Content.body, Body.text, Content.ownProperty, ReadFirst, ht]
  | property q rest ih =>
      obtain ⟨hq, hrest⟩ := List.forall_mem_cons.mp hsemi
      have htext : ((Content.property q rest).body d).text ++ t
          = (q.line d).text ++ '\n' :: ((rest.body d).text ++ t) := by
        simp [Content.body, Body.text]
      rw [htext, ReadFirst, Content.ownProperty]
      by_cases hown : q.name = p ∧ q.value.isSome
      · obtain ⟨v, hvalue⟩ := Option.isSome_iff_exists.mp hown.2
        rw [hvalue, Option.getD_some] at hq
        rw [if_pos hown, if_pos hown.1, hvalue]
        apply found_own hown.1 hvalue hq
      · have hnone : (if q.name = p then q.value else none) = none := by
          split
          next hname =>
            rw [not_and, Option.not_isSome_iff_eq_none] at hown
            apply hown hname
          next => rfl
        have hbeyond := found_beyond isAlnum hp (.property q .nil) d
          ((rest.body d).text ++ t) (rest.ownProperty p d)
        simp only [Content.body, Body.text, List.append_assoc, List.cons_append, List.nil_append,
          Content.all, List.forall_mem_singleton] at hbeyond
        rw [if_neg hown, hnone, Option.map_none, Option.none_or, hbeyond, ih hrest]
  | node s c rest _ ih =>
      have hbeyond := found_beyond isAlnum hp (.node s c .nil) d
        ((rest.body d).text ++ t) (rest.ownProperty p d)
      simp only [Content.body, Body.text_node, Body.text, List.append_assoc, List.cons_append,
        List.nil_append, Content.all, List.append_nil] at hbeyond
      rw [ReadFirst, Content.ownProperty, Content.body, Body.text_node, List.append_assoc,
        List.cons_append, ← ih hsemi]
      apply hbeyond

theorem readsOwn_iff_found (t : Tree) (d : ℕ) :
  ReadsOwn isAlnum p t d ↔ found isAlnum p (t.text d) = t.ownProperty p d
  := by
  constructor
  · rintro ⟨hvalue, hplace⟩
    rw [propertyValue] at hvalue
    rw [found]
    cases hfind : searchProperty isAlnum p false (t.text d) with
    | none =>
        rw [hfind, Option.map_none, eq_comm, Option.map_eq_none_iff] at hplace
        rw [hplace, Option.map_none]
    | some m =>
        rw [hfind, eq_comm, Option.map_some, Option.map_eq_some_iff] at hvalue hplace
        obtain ⟨own, hown, hvalue⟩ := hvalue
        obtain ⟨own', hown', hplace⟩ := hplace
        obtain rfl := Option.some.inj (hown.symm.trans hown')
        rw [hown, Option.map_some, ← hvalue, ← hplace]
  · intro h
    constructor
    · rw [← h, found, propertyValue, Option.map_map]
      rfl
    · rw [← h, found, Option.map_map]
      rfl

/-- `property_value` reads the property it is asked for exactly if that is the first to read
as one of the name, or there is none and no property does. -/
theorem reads_own_iff (hp : PlainName p) (t : Tree) (d : ℕ)
    (hsemi : ∀ q ∈ t.content.properties, ';' ∉ q.value.getD []) :
  ReadsOwn isAlnum p t d ↔ ReadFirst isAlnum p t.content
  := by
  have htext : t.text d
      = (t.title.header d).line ++ '\n' :: ((t.content.body (d + 1)).text ++ (tabIndent d).line) := by
    simp [Tree.text, Tree.node, Node.text, Header.line, Indent.line]
  have hheader : found isAlnum p (t.text d)
      = (found isAlnum p ((t.content.body (d + 1)).text ++ (tabIndent d).line)).map
        fun m => ((t.title.header d).line ++ '\n' :: m.1, m.2) := by
    rw [found, htext, searchProperty_line isAlnum hp.isName ((t.title.header d).confined hp.isName),
      Header.searchProperty hp.isName, found, Option.map_none, Option.none_or, Option.map_map,
      Option.map_map]
    rfl
  have hinjective : Function.Injective
      fun m : Str × Str => ((t.title.header d).line ++ '\n' :: m.1, m.2) :=
    ((List.append_right_injective _).comp List.cons_injective).prodMap Function.injective_id
  have hclosing : found isAlnum p (tabIndent d).line = none := by
    rw [found, Indent.searchProperty hp.isName, Option.map_none]
  rw [readsOwn_iff_found, hheader, Tree.ownProperty, (Option.map_injective hinjective).eq_iff,
    found_iff hp.isName hsemi _ hclosing]

/-- A property whose name ends in that of another. -/
def numInterrupts : Property where
  name := "xlnx,num-interrupts".toList
  value := some "<1>".toList

/-- That other. -/
def ownInterrupts : Property where
  name := interrupts
  value := some "<0 91 4>".toList
  isName := isName_interrupts

/-- A node with two properties, the name of one of which ends in that of the other. -/
def counter (q q' : Property) : Tree where
  title := { text := "counter_0: counter@a0020000 ".toList }
  content := .property q (.property q' .nil)

theorem plainName_interrupts :
  PlainName interrupts
  := by
  constructor
  · apply isName_interrupts
  · decide

theorem readFirst_ownInterrupts (rest : Content) :
  ReadFirst ascii interrupts (.property ownInterrupts rest)
  := by
  have hown : ownInterrupts.name = interrupts ∧ ownInterrupts.value.isSome := ⟨rfl, rfl⟩
  rw [ReadFirst, if_pos hown]
  decide +kernel

theorem interrupts_read_first :
  ReadsOwn ascii interrupts (counter ownInterrupts numInterrupts) 1
  := by
  have hsemi : ';' ∉ ownInterrupts.value.getD [] ∧ ';' ∉ numInterrupts.value.getD [] := by
    decide +kernel
  apply (reads_own_iff plainName_interrupts (counter ownInterrupts numInterrupts) 1 _).mpr
  · apply readFirst_ownInterrupts
  · intro q hq
    obtain rfl | hq := List.mem_cons.mp hq
    · apply hsemi.1
    · obtain rfl := List.mem_singleton.mp hq
      apply hsemi.2

/-- The value of a property whose name only ends in the one asked for. -/
theorem num_interrupts_read :
  propertyValue ascii ((counter numInterrupts ownInterrupts).text 1) interrupts = some "<1>".toList
    ∧ ¬ ReadsOwn ascii interrupts (counter numInterrupts ownInterrupts) 1
  := by
  have hvalue : propertyValue ascii ((counter numInterrupts ownInterrupts).text 1) interrupts
      = some "<1>".toList := by decide +kernel
  use hvalue
  rintro ⟨h, -⟩
  rw [hvalue] at h
  revert h
  decide +kernel

end Overlay
