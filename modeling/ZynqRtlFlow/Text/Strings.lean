import Mathlib.Data.List.DropRight
import ZynqRtlFlow.Text.Replace

/-!
# Strings

A string is the list of its characters, with the methods of `str` the scripts use.
Splitting a text into lines gives back the lines it was put together from.
-/

/-- `str`. -/
abbrev Str : Type := List Char

namespace Text

/-- What is said of every character of a string is decided by going through the string. -/
instance (priority := high) decidableBAll {p : Char → Prop} [DecidablePred p] (t : Str) :
    Decidable (∀ c ∈ t, p c) :=
  List.decidableBAll p t

/-! ### Characters -/

/-- The characters that are white space. -/
def spaces : Str :=
  ['\t', '\n', '\x0B', '\x0C', '\r', '\x1C', '\x1D', '\x1E', '\x1F', ' ', '\u0085', '\u00A0',
    '\u1680', '\u2000', '\u2001', '\u2002', '\u2003', '\u2004', '\u2005', '\u2006', '\u2007',
    '\u2008', '\u2009', '\u200A', '\u2028', '\u2029', '\u202F', '\u205F', '\u3000']

/-- `str.isspace` of a character, which is also `\s`. -/
def isSpace (c : Char) : Bool :=
  c ∈ spaces

/-- The characters that end a line. -/
def lineBreaks : Str :=
  ['\n', '\x0B', '\x0C', '\r', '\x1C', '\x1D', '\x1E', '\u0085', '\u2028', '\u2029']

/-- Where `str.splitlines` breaks a line. -/
def isLineBreak (c : Char) : Bool :=
  c ∈ lineBreaks

/-- `[A-Za-z_]`. -/
def isIdentStart (c : Char) : Bool :=
  c.isAlpha || c == '_'

/-- `\w`, where `isAlnum` says which characters beyond ASCII are alphanumeric; white space
is not. -/
def isWord (isAlnum : Char → Bool) (c : Char) : Bool :=
  !isSpace c && if c.toNat < 128 then c.isAlphanum || c == '_' else isAlnum c

theorem isLineBreak_of_isSpace {c : Char} (h : isSpace c = false) :
  isLineBreak c = false
  := by
  have hall : ∀ d ∈ lineBreaks, isSpace d = true := by decide
  cases hbreak : isLineBreak c with
  | false => rfl
  | true =>
      rw [hall c (of_decide_eq_true hbreak)] at h
      cases h

theorem isSpace_of_isIdentStart {c : Char} (h : isIdentStart c = true) :
  isSpace c = false
  := by
  have hall : ∀ d ∈ spaces, isIdentStart d = false := by decide
  cases hspace : isSpace c with
  | false => rfl
  | true =>
      rw [hall c (of_decide_eq_true hspace)] at h
      cases h

theorem isWord_of_isSpace (isAlnum : Char → Bool) {c : Char} (h : isSpace c = true) :
  isWord isAlnum c = false
  := by
  rw [isWord, h]
  rfl

/-! ### Methods -/

/-- `str.splitlines`. -/
def splitlines : Str → List Str
  | [] => []
  | '\r' :: '\n' :: t => [] :: splitlines t
  | c :: t =>
      if isLineBreak c then [] :: splitlines t
      else
        match splitlines t with
        | [] => [[c]]
        | l :: ls => (c :: l) :: ls

/-- `str.rstrip`. -/
def rstrip (t : Str) : Str :=
  t.rdropWhile isSpace

/-- `str.strip`. -/
def strip (t : Str) : Str :=
  rstrip (t.dropWhile isSpace)

/-- The white space a text begins with. -/
def lead (t : Str) : Str :=
  t.takeWhile isSpace

/-- The white space a text ends with. -/
def tail (t : Str) : Str :=
  t.rtakeWhile isSpace

theorem isSpace_of_mem_lead {c : Char} {t : Str} (h : c ∈ lead t) :
  isSpace c = true
  := List.mem_takeWhile_imp h

theorem isSpace_of_mem_tail {c : Char} {t : Str} (h : c ∈ tail t) :
  isSpace c = true
  := List.mem_rtakeWhile_imp h

theorem rstrip_append_tail (t : Str) :
  rstrip t ++ tail t = t
  := List.rdropWhile_append_rtakeWhile

theorem rstrip_append {t : Str} (h : rstrip t ≠ []) (u : Str) :
  rstrip (u ++ t) = u ++ rstrip t
  := by
  have hne : t.reverse.dropWhile isSpace ≠ [] := by
    intro hnil
    apply h
    rw [rstrip, List.rdropWhile, hnil, List.reverse_nil]
  rw [rstrip, rstrip, List.rdropWhile, List.rdropWhile, List.reverse_append, List.dropWhile_append,
    if_neg (by rw [List.isEmpty_iff]; apply hne)]
  simp

theorem rstrip_blank {w : Str} (hw : ∀ c ∈ w, isSpace c = true) (u : Str) :
  rstrip (u ++ w) = rstrip u
  := by
  rw [rstrip, List.rdropWhile, List.reverse_append, List.dropWhile_append_of_pos]
  · rfl
  · intro c hc
    apply hw c (List.mem_reverse.mp hc)

theorem tail_append {t : Str} (h : rstrip t ≠ []) (u : Str) :
  tail (u ++ t) = tail t
  := by
  have happend : (u ++ rstrip t) ++ tail (u ++ t) = (u ++ rstrip t) ++ tail t := by
    rw [← rstrip_append h, rstrip_append_tail, rstrip_append h, List.append_assoc, rstrip_append_tail]
  apply List.append_cancel_left happend

/-- `str.split` at white space. -/
def split (t : Str) : List Str :=
  (t.splitOnP isSpace).filter (· ≠ [])

/-- `str.join`. -/
def join (sep : Str) (ts : List Str) : Str :=
  sep.intercalate ts

/-- `in`. -/
def contains (pat t : Str) : Bool :=
  (findSub pat t).isSome

/-- `str.index` of a character. -/
def index (c : Char) (t : Str) : Option ℕ :=
  t.idxOf? c

/-- `str.rindex` of a character. -/
def rindex (c : Char) (t : Str) : Option ℕ :=
  (t.reverse.idxOf? c).map fun k => t.length - 1 - k

/-! ### Words -/

theorem of_mem_splitOnP {q : Char → Bool} {t w : Str} (h : w ∈ t.splitOnP q) :
  ∀ c ∈ w, q c = false ∧ c ∈ t
  := by
  induction t generalizing w with
  | nil =>
      rw [List.splitOnP_nil, List.mem_singleton] at h
      rw [h]
      intro c hc
      cases hc
  | cons d t ih =>
      rw [List.splitOnP_cons_eq_if_modifyHead] at h
      split at h
      next hd =>
        obtain rfl | h := List.mem_cons.mp h
        · intro c hc
          cases hc
        · intro c hc
          obtain ⟨hq, hmem⟩ := ih h c hc
          use hq, List.mem_cons_of_mem _ hmem
      next hd =>
        obtain ⟨r, rs, hr⟩ := List.exists_cons_of_ne_nil (List.splitOnP_ne_nil q t)
        rw [hr] at h ih
        obtain rfl | h := List.mem_cons.mp h
        · intro c hc
          obtain rfl | hc := List.mem_cons.mp hc
          · use by simpa using hd
            apply List.mem_cons_self
          · obtain ⟨hq, hmem⟩ := ih List.mem_cons_self c hc
            use hq, List.mem_cons_of_mem _ hmem
        · intro c hc
          obtain ⟨hq, hmem⟩ := ih (List.mem_cons_of_mem _ h) c hc
          use hq, List.mem_cons_of_mem _ hmem

/-- A word is not empty and has no white space. -/
def IsWord (w : Str) : Prop :=
  w ≠ [] ∧ ∀ c ∈ w, isSpace c = false

theorem isWord_of_mem_split {t w : Str} (h : w ∈ split t) :
  IsWord w ∧ ∀ c ∈ w, c ∈ t
  := by
  obtain ⟨hw, hne⟩ := List.mem_filter.mp h
  constructor
  · use by simpa using hne
    intro c hc
    apply (of_mem_splitOnP hw c hc).1
  · intro c hc
    apply (of_mem_splitOnP hw c hc).2

theorem index_append_cons {c : Char} {u : Str} (h : c ∉ u) (t : Str) :
  index c (u ++ c :: t) = some u.length
  := by
  induction u with
  | nil => simp [index, List.idxOf?_cons]
  | cons d u ih =>
      rw [List.mem_cons, not_or] at h
      obtain ⟨hd, hu⟩ := h
      rw [index] at ih ⊢
      rw [List.cons_append, List.idxOf?_cons, ih hu]
      simp [Ne.symm hd]

theorem rindex_append_cons {c : Char} {t : Str} (h : c ∉ t) (u : Str) :
  rindex c (u ++ c :: t) = some u.length
  := by
  have hreverse : index c (u ++ c :: t).reverse = some t.length := by
    have hindex := index_append_cons (u := t.reverse) (by simpa using h) u.reverse
    rw [List.length_reverse] at hindex
    rw [← hindex]
    simp
  rw [rindex, ← index, hreverse, Option.map_some, List.length_append, List.length_cons]
  congr 1
  omega

/-! ### Lines -/

/-- Lines, each followed by a newline. -/
def unlines (ls : List Str) : Str :=
  ls.flatMap (· ++ ['\n'])

@[simp]
theorem unlines_nil :
  unlines [] = []
  := rfl

@[simp]
theorem unlines_cons (l : Str) (ls : List Str) :
  unlines (l :: ls) = l ++ '\n' :: unlines ls
  := by
  simp [unlines]

@[simp]
theorem unlines_append (ls ls' : List Str) :
  unlines (ls ++ ls') = unlines ls ++ unlines ls'
  := List.flatMap_append

/-- A line has no line break. -/
def IsLine (l : Str) : Prop :=
  ∀ c ∈ l, isLineBreak c = false

theorem IsLine.append {l l' : Str} (h : IsLine l) (h' : IsLine l') :
  IsLine (l ++ l')
  := by
  intro c hc
  obtain hc | hc := List.mem_append.mp hc
  · apply h c hc
  · apply h' c hc

theorem newline_notMem {l : Str} (h : IsLine l) :
  '\n' ∉ l
  := by
  intro hmem
  cases h '\n' hmem

theorem splitlines_cons {c : Char} (hc : isLineBreak c = false) (t : Str) :
  splitlines (c :: t) = match splitlines t with
    | [] => [[c]]
    | l :: ls => (c :: l) :: ls
  := by
  rw [splitlines, if_neg (by rw [hc]; apply Bool.false_ne_true)]
  rintro t' rfl rfl
  cases hc

theorem splitlines_line {l : Str} (h : IsLine l) (t : Str) :
  splitlines (l ++ '\n' :: t) = l :: splitlines t
  := by
  induction l with
  | nil => rfl
  | cons c l ih =>
      obtain ⟨hc, hl⟩ := List.forall_mem_cons.mp h
      rw [List.cons_append, splitlines_cons hc, ih hl]

theorem splitlines_unlines {ls : List Str} (h : ∀ l ∈ ls, IsLine l) (t : Str) :
  splitlines (unlines ls ++ t) = ls ++ splitlines t
  := by
  induction ls with
  | nil => rfl
  | cons l ls ih =>
      obtain ⟨hl, hls⟩ := List.forall_mem_cons.mp h
      rw [unlines_cons, List.append_assoc, List.cons_append, splitlines_line hl, ih hls]
      rfl

/-- A last line that no newline ends. -/
theorem splitlines_last {l : Str} (h : IsLine l) :
  splitlines l = if l = [] then [] else [l]
  := by
  induction l with
  | nil => rfl
  | cons c l ih =>
      obtain ⟨hc, hl⟩ := List.forall_mem_cons.mp h
      rw [splitlines_cons hc, ih hl, if_neg (List.cons_ne_nil c l)]
      by_cases hnil : l = []
      · rw [if_pos hnil, hnil]
      · rw [if_neg hnil]

/-! ### Joining -/

theorem join_cons_cons (sep t t' : Str) (ts : List Str) :
  join sep (t :: t' :: ts) = t ++ (sep ++ join sep (t' :: ts))
  := by
  rw [join, List.intercalate, List.intersperse_cons_cons, List.flatten_cons, List.flatten_cons,
    ← List.intercalate, ← join]

theorem join_singleton (sep t : Str) :
  join sep [t] = t
  := by
  simp [join, List.intercalate]

/-- The last of the texts joined comes after the others, each followed by the separator. -/
theorem join_concat (sep : Str) (ts : List Str) (t : Str) :
  join sep (ts ++ [t]) = ts.flatMap (· ++ sep) ++ t
  := by
  induction ts with
  | nil => rw [List.nil_append, join_singleton, List.flatMap_nil, List.nil_append]
  | cons t' ts ih =>
      obtain ⟨x, xs, hxs⟩ := List.exists_cons_of_ne_nil (List.append_ne_nil_of_right_ne_nil ts
        (List.cons_ne_nil t []))
      rw [List.cons_append, hxs, join_cons_cons, ← hxs, ih]
      simp

theorem join_eq_nil {sep : Str} {ts : List Str} (h : ∀ t ∈ ts, t ≠ []) :
  join sep ts = [] ↔ ts = []
  := by
  constructor
  · intro hjoin
    obtain rfl | ⟨init, t, rfl⟩ := List.eq_nil_or_concat' ts
    · rfl
    · rw [join_concat, List.append_eq_nil_iff] at hjoin
      cases h t (by simp) hjoin.2
  · rintro rfl
    rfl

theorem length_join (sep : Str) {ts : List Str} (hne : ts ≠ []) {w : ℕ} (h : ∀ t ∈ ts, t.length = w) :
  (join sep ts).length + sep.length = ts.length * (w + sep.length)
  := by
  induction ts with
  | nil => cases hne rfl
  | cons t ts ih =>
      obtain ⟨ht, hts⟩ := List.forall_mem_cons.mp h
      cases ts with
      | nil => rw [join_singleton, ht, List.length_singleton, Nat.one_mul]
      | cons t' ts =>
          have hrest := ih (List.cons_ne_nil t' ts) hts
          rw [join_cons_cons, List.length_append, List.length_append, ht, List.length_cons,
            Nat.succ_mul, ← hrest]
          omega

theorem mem_join {sep : Str} {ts : List Str} {c : Char} (h : c ∈ join sep ts) :
  c ∈ sep ∨ ∃ t ∈ ts, c ∈ t
  := by
  obtain rfl | ⟨init, t, rfl⟩ := List.eq_nil_or_concat' ts
  · cases h
  · rw [join_concat, List.mem_append, List.mem_flatMap] at h
    obtain ⟨t', ht', h⟩ | h := h
    · obtain h | h := List.mem_append.mp h
      · right
        use t', List.mem_append_left _ ht'
      · left
        apply h
    · right
      use t, by simp

theorem split_append_space {c : Char} (hc : isSpace c = true) (t u : Str) :
  split (t ++ c :: u) = split t ++ split u
  := by
  rw [split, List.splitOnP_append_cons t u hc, List.filter_append]
  rfl

theorem split_of_isWord {w : Str} (h : IsWord w) :
  split w = [w]
  := by
  rw [split, List.splitOnP_eq_singleton h.2]
  simp [h.1]

/-- Words joined by blanks are the words of the text. -/
theorem split_join {ws : List Str} (h : ∀ w ∈ ws, IsWord w) :
  split (join [' '] ws) = ws
  := by
  induction ws with
  | nil => rfl
  | cons w ws ih =>
      obtain ⟨hw, hws⟩ := List.forall_mem_cons.mp h
      cases ws with
      | nil => rw [join_singleton, split_of_isWord hw]
      | cons w' ws =>
          rw [join_cons_cons, List.singleton_append, split_append_space rfl, split_of_isWord hw,
            ih hws]
          rfl

theorem rstrip_of_isWord {w : Str} (h : IsWord w) :
  rstrip w = w
  := by
  apply List.rdropWhile_eq_self_iff.mpr
  intro hne
  rw [h.2 _ (List.getLast_mem hne)]
  apply Bool.false_ne_true

/-- Words joined have no white space around them. -/
theorem strip_join {ws : List Str} (h : ∀ w ∈ ws, IsWord w) :
  strip (join [' '] ws) = join [' '] ws
  := by
  obtain rfl | ⟨init, w, rfl⟩ := List.eq_nil_or_concat' ws
  · rfl
  · have hw : IsWord w := h w (by simp)
    have hlast : rstrip (join [' '] (init ++ [w])) = join [' '] (init ++ [w]) := by
      rw [join_concat, rstrip_append, rstrip_of_isWord hw]
      rw [rstrip_of_isWord hw]
      apply hw.1
    have hfirst : (join [' '] (init ++ [w])).dropWhile isSpace = join [' '] (init ++ [w]) := by
      rw [join_concat]
      cases init with
      | nil =>
          obtain ⟨c, w, rfl⟩ := List.exists_cons_of_ne_nil hw.1
          have hc := hw.2 c List.mem_cons_self
          simp [hc]
      | cons w' init =>
          have hw' : IsWord w' := h w' (by simp)
          obtain ⟨c, w', rfl⟩ := List.exists_cons_of_ne_nil hw'.1
          have hc := hw'.2 c List.mem_cons_self
          simp [hc]
    rw [strip, hfirst, hlast]

end Text
