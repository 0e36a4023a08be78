import ZynqRtlFlow.Overlay.Edit

/-!
# The interrupts of the channels

Each channel of a DMA is a sub-node of it and is to take the interrupt the DMA itself has
for its direction.  `align_channel_interrupts` does this by name, when the names of the
DMA's interrupts and their cells line up and the properties it searches for are the nodes'
own; when the names and the cells do not line up it leaves the generator's numbers.
-/

namespace Overlay

open Text

variable (isAlnum : Char → Bool)

/-- The interrupt a sub-node wants, if its own compatible names a channel. -/
def Node.wanted (n : Node) : Option Str :=
  (n.body.value compatible).bind wantedInterrupt

/-- The entries of a node's own interrupt-names. -/
def Body.names (b : Body) : List Str :=
  quoted ((b.value interruptNames).getD [])

/-- The cells of a node's own interrupts. -/
def Body.cells (b : Body) : List Str :=
  cellsOf ((b.value interrupts).getD [])

/-- `spec` is the specifier among the cells at the position of `name` among the names, when
all specifiers have the same width. -/
def SpecifierIn (names cells : List Str) (name spec : Str) : Prop :=
  ∃ width k, 0 < width ∧ cells.length = width * names.length ∧ names[k]? = some name
    ∧ spec = join [' '] ((cells.drop (k * width)).take width)

/-- `spec` is the specifier in a node's own interrupts at the position of `name` in its own
interrupt-names. -/
def SpecifierOf (b : Body) (name spec : Str) : Prop :=
  SpecifierIn b.names b.cells name spec

/-- `b'` is the body of a sub-node of `b` once its interrupt is aligned: a channel's own
interrupts are the specifier for its direction, and nothing else has changed. -/
def Aligned (b : Body) (n : Node) (b' : Body) : Prop :=
  match n.wanted with
  | none => b' = n.body
  | some name => ∃ spec, SpecifierOf b name spec ∧ Sets interrupts ('<' :: spec ++ ['>']) n.body b'

/-- The script stops, or every channel ends on the interrupt for its direction. -/
def AlignsOrStops (n : Node) : Prop :=
  ∀ t, alignChannelInterrupts isAlnum n.text = .ok t →
    ∃ b', Edited (Aligned n.body) n.body b' ∧ t = ({ n with body := b' } : Node).text

/-- The names a search for interrupt-names finds in a node's own text. -/
def Node.foundNames (n : Node) : List Str :=
  quoted ((propertyValue isAlnum n.ownText interruptNames).getD [])

/-- The cells a search for interrupts finds there. -/
def Node.foundCells (n : Node) : List Str :=
  cellsOf ((propertyValue isAlnum n.ownText interrupts).getD [])

/-- The channels can be edited one by one: the sub-nodes can be parted from the node's own
lines, no channel is met in the place of another sub-node, its own interrupts are the first
to be found in it, and no specifier found for its name has a backslash. -/
structure Editable (n : Node) : Prop where
  parted : Parted n.body
  apart : Apart (fun c => c.wanted.isSome) n.body
  channels : ∀ c ∈ n.body.nodes, c.wanted.isSome → Direct isAlnum interrupts c.body
  plain : ∀ c ∈ n.body.nodes, ∀ name spec, c.wanted = some name →
    SpecifierIn (n.foundNames isAlnum) (n.foundCells isAlnum) name spec → '\\' ∉ spec

/-- The node's own interrupt-names, and its own interrupts if there are names, are found
where they are meant. -/
structure OwnFound (n : Node) : Prop where
  parted : Parted n.body
  names : Direct isAlnum interruptNames n.body.own
  interrupts : n.body.names ≠ [] → Direct isAlnum interrupts n.body.own

/-- The sub-nodes are recognised by their own compatible, and the channels among them can be
edited. -/
structure SubnodesFound (n : Node) : Prop where
  compatible : ∀ c ∈ n.body.nodes, Direct isAlnum compatible c.body
  channels : (∃ c ∈ n.body.nodes, c.wanted.isSome) → Editable isAlnum n

/-- There is one name for each specifier, and there are specifiers. -/
structure Body.Even (b : Body) : Prop where
  names : b.names ≠ []
  cells : b.cells ≠ []
  even : b.cells.length % b.names.length = 0

/-- A sub-node that is recognised by its own compatible is a channel the node has no
interrupt for. -/
def Lacking (n : Node) : Prop :=
  ∃ c ∈ n.body.nodes, Direct isAlnum compatible c.body ∧ ∃ name, c.wanted = some name
    ∧ name ∉ n.body.names

/-- What the result depends on is found where it is meant.  It depends on no property of the
node if none of the sub-nodes, recognised by their own compatible, is a channel; and on none
of the sub-nodes if the node's own names and cells do not line up, or if one of the sub-nodes
stops the script. -/
def Regular (n : Node) : Prop :=
  (∀ c ∈ n.body.nodes, Direct isAlnum compatible c.body ∧ c.wanted = none)
    ∨ OwnFound isAlnum n ∧ (n.body.Even → Lacking isAlnum n ∨ SubnodesFound isAlnum n)

/-- There is no channel; or there is one name for each specifier, and an interrupt is
missing altogether or every channel has interrupts of its own to be set. -/
def LinesUp (b : Body) : Prop :=
  (∀ c ∈ b.nodes, c.wanted = none)
    ∨ (b.names ≠ [] ∧ b.cells.length % b.names.length = 0
      ∧ (b.cells = [] ∨ (∃ c ∈ b.nodes, ∃ name, c.wanted = some name ∧ name ∉ b.names)
        ∨ ∀ c ∈ b.nodes, c.wanted.isSome → (c.body.value interrupts).isSome))

/-! ### Specifiers -/

theorem mem_cellsOf {value w : Str} (h : w ∈ cellsOf value) :
  IsWord w ∧ ∀ c ∈ w, c ∈ value
  := by
  obtain ⟨hword, hmem⟩ := isWord_of_mem_split h
  use hword
  intro c hc
  obtain ⟨d, hd, hcd⟩ := List.mem_map.mp (hmem c hc)
  split at hcd
  next =>
    have hspace := hword.2 c hc
    rw [← hcd] at hspace
    cases hspace
  next =>
    rw [← hcd]
    apply hd

theorem mem_specsOf {width : ℕ} {cells : List Str} {s : Str} (h : s ∈ specsOf width cells) :
  ∃ k < cells.length / width, s = join [' '] ((cells.drop (k * width)).take width)
  := by
  obtain ⟨k, hk, rfl⟩ := List.mem_map.mp h
  use k, List.mem_range.mp hk

/-- The characters of a specifier are those of the property, and blanks. -/
theorem of_mem_spec {value : Str} {width : ℕ} {s : Str} (h : s ∈ specsOf width (cellsOf value)) :
  strip s = s ∧ ∀ c ∈ s, c = ' ' ∨ c ∈ value
  := by
  obtain ⟨k, -, rfl⟩ := mem_specsOf h
  have hcells : ∀ w ∈ ((cellsOf value).drop (k * width)).take width, w ∈ cellsOf value := by
    intro w hw
    apply List.mem_of_mem_drop (List.mem_of_mem_take hw)
  constructor
  · apply strip_join
    intro w hw
    apply (mem_cellsOf (hcells w hw)).1
  · intro c hc
    obtain hc | ⟨w, hw, hc⟩ := mem_join hc
    · left
      apply List.mem_singleton.mp hc
    · right
      apply (mem_cellsOf (hcells w hw)).2 c hc

/-- No specifier has one of the characters that part the cells. -/
theorem notMem_spec {value : Str} {width : ℕ} {s : Str} (h : s ∈ specsOf width (cellsOf value))
    {c : Char} (hc : c ∈ ['<', '>', ',']) :
  c ∉ s
  := by
  obtain ⟨k, -, rfl⟩ := mem_specsOf h
  have hblank : c ≠ ' ' := by
    rintro rfl
    revert hc
    decide
  intro hmem
  obtain hmem | ⟨w, hw, hmem⟩ := mem_join hmem
  · apply hblank (List.mem_singleton.mp hmem)
  · obtain ⟨-, hcells⟩ := isWord_of_mem_split (List.mem_of_mem_drop (List.mem_of_mem_take hw))
    obtain ⟨d, -, hd⟩ := List.mem_map.mp (hcells c hmem)
    split at hd
    next => apply hblank hd.symm
    next hnot =>
      apply hnot
      rw [hd]
      simpa using hc

variable {isAlnum}

theorem template_eq (s : Str) :
  "interrupts = <".toList ++ s ++ ">;".toList
    = interrupts ++ " = ".toList ++ ('<' :: s ++ ['>']) ++ [';']
  := by
  simp [interrupts]

/-- A specifier of the node's own lines makes a line. -/
theorem Node.spec_fits (n : Node) {width : ℕ} {s : Str}
    (hs : s ∈ specsOf width (cellsOf ((propertyValue isAlnum n.ownText interrupts).getD []))) :
  IsLine (interrupts ++ " = ".toList ++ ('<' :: s ++ ['>']) ++ [';'])
    ∧ '{' ∉ interrupts ++ " = ".toList ++ ('<' :: s ++ ['>']) ++ [';']
    ∧ '}' ∉ interrupts ++ " = ".toList ++ ('<' :: s ++ ['>']) ++ [';']
  := by
  have hspec := (of_mem_spec hs).2
  have hchar : ∀ c ∈ s, isLineBreak c = false ∧ c ≠ '{' ∧ c ≠ '}' := by
    intro c hc
    cases hvalue : propertyValue isAlnum n.ownText interrupts with
    | none =>
        obtain rfl | hc := hspec c hc
        · decide
        · rw [hvalue] at hc
          cases hc
    | some v =>
        obtain ⟨l, hl⟩ := n.of_propertyValue_ownText isName_interrupts hvalue
        obtain rfl | hc := hspec c hc
        · decide
        · rw [hvalue] at hc
          use l.isLine c (hl c hc)
          constructor
          · rintro rfl
            apply l.noBrace.1 (hl _ hc)
          · rintro rfl
            apply l.noBrace.2 (hl _ hc)
  have hline : ∀ c ∈ interrupts ++ " = ".toList ++ ('<' :: s ++ ['>']) ++ [';'],
      isLineBreak c = false ∧ c ≠ '{' ∧ c ≠ '}' := by
    intro c hc
    rw [← template_eq, List.mem_append, List.mem_append] at hc
    obtain (hc | hc) | hc := hc
    · revert c
      decide
    · apply hchar c hc
    · revert c
      decide
  constructor
  · intro c hc
    apply (hline c hc).1
  · constructor
    · intro hmem
      apply (hline _ hmem).2.1 rfl
    · intro hmem
      apply (hline _ hmem).2.2 rfl

/-! ### Editing a channel -/

theorem expandFrom_plain {t : Str} (h : '\\' ∉ t) :
  expandFrom 0 t = .ok t
  := by
  induction t with
  | nil => rfl
  | cons c t ih =>
      rw [List.mem_cons, not_or] at h
      rw [expandFrom, if_neg (Ne.symm h.1), ih h.2]
      rfl

/-- A channel without interrupts of its own is left as it is. -/
theorem subInterrupts_none {n : Node} (hdirect : Direct isAlnum interrupts n.body)
    (hvalue : n.body.value interrupts = none) {template : Str} (hplain : '\\' ∉ template) :
  subInterrupts isAlnum template n.text = .ok n.text
  := by
  have hnone : searchProperty isAlnum interrupts false n.text = none := by
    rw [← n.propertyValue_text isName_interrupts hdirect, propertyValue,
      Option.map_eq_none_iff] at hvalue
    apply hvalue
  rw [subInterrupts, expandFrom_plain hplain]
  simp only [bind, Except.bind, hnone]
  rfl

/-- The channel's own interrupts are set. -/
theorem subInterrupts_sets {n : Node} {v : Str} {b' : Body}
    (hdirect : Direct isAlnum interrupts n.body) (hset : Sets interrupts v n.body b')
    (hplain : '\\' ∉ interrupts ++ " = ".toList ++ v ++ [';']) :
  subInterrupts isAlnum (interrupts ++ " = ".toList ++ v ++ [';']) n.text
    = .ok ({ n with body := b' } : Node).text
  := by
  obtain ⟨before, value, after, htext, hsearch⟩ := hset.search isName_interrupts rfl hdirect
  have hnode (b : Body) : ({ n with body := b } : Node).text
      = n.header.line ++ '\n' :: (b.text ++ n.indent.line) := by
    simp [Node.text, Header.line, Indent.line]
  have hfound : searchProperty isAlnum interrupts false n.text
      = some (n.header.line ++ '\n' :: before, value, after ++ n.indent.line) := by
    rw [hnode n.body, searchProperty_line isAlnum isName_interrupts
      (n.header.confined isName_interrupts), n.header.searchProperty isName_interrupts, hsearch]
    rfl
  rw [subInterrupts, expandFrom_plain hplain]
  simp only [bind, Except.bind, hfound]
  rw [hnode b', htext]
  simp [pure, Except.pure]

theorem fixChild_text (byName : List (Str × Str)) {n : Node}
    (hdirect : Direct isAlnum compatible n.body) :
  fixChild isAlnum byName n.text
    = match n.wanted with
      | none => .ok none
      | some wanted =>
          match byName.reverse.lookup wanted with
          | none => .error (.exit (headerOf n.text ++ " wants the ".toList ++ wanted
              ++ " interrupt and the IP node does not carry one".toList))
          | some spec => do
              return some (← subInterrupts isAlnum
                ("interrupts = <".toList ++ strip spec ++ ">;".toList) n.text)
  := by
  rw [fixChild, n.propertyValue_text isName_compatible hdirect, Node.wanted]
  cases n.body.value compatible with
  | none => rfl
  | some value => rfl

/-- A channel whose interrupt is known is edited: its own interrupts are set if it has any. -/
theorem exists_fixed {n c : Node} (hedit : Editable isAlnum n) (hc : c ∈ n.body.nodes)
    (hdirect : Direct isAlnum compatible c.body) {name s : Str} (hwanted : c.wanted = some name)
    {byName : List (Str × Str)} (hlookup : byName.reverse.lookup name = some s) {width : ℕ}
    (hs : s ∈ specsOf width (n.foundCells isAlnum))
    (hspecifier : SpecifierIn (n.foundNames isAlnum) (n.foundCells isAlnum) name s) :
  ∃ b', Fixed isAlnum byName c b'
    ∧ (c.body.value interrupts = none ∧ b' = c.body ∨ Sets interrupts ('<' :: s ++ ['>']) c.body b')
  := by
  obtain ⟨hline, hbrace⟩ := n.spec_fits hs
  obtain ⟨hstrip, -⟩ := of_mem_spec hs
  have hchannel := hedit.channels c hc (by rw [hwanted]; rfl)
  have hplain : '\\' ∉ interrupts ++ " = ".toList ++ ('<' :: s ++ ['>']) ++ [';'] := by
    rw [← template_eq, List.mem_append, List.mem_append]
    rintro ((hmem | hmem) | hmem)
    · revert hmem
      decide
    · apply hedit.plain c hc name s hwanted hspecifier hmem
    · revert hmem
      decide
  have hfix : fixChild isAlnum byName c.text
      = (subInterrupts isAlnum (interrupts ++ " = ".toList ++ ('<' :: s ++ ['>']) ++ [';']) c.text).map
        some := by
    rw [fixChild_text byName hdirect, hwanted]
    simp only [hlookup]
    rw [hstrip, template_eq]
    rfl
  cases hvalue : c.body.value interrupts with
  | none =>
      use c.body
      constructor
      · right
        use by rw [hfix, subInterrupts_none hchannel hvalue hplain]; rfl
        left
        rfl
      · left
        use rfl
  | some v =>
      obtain ⟨b', hset⟩ := exists_sets (by rw [hvalue]; rfl) hline hbrace
      use b'
      constructor
      · right
        use by rw [hfix, subInterrupts_sets hchannel hset hplain]; rfl
        right
        use '<' :: s ++ ['>']
      · right
        apply hset

/-! ### Names and specifiers -/

theorem Node.foundNames_own {n : Node} (h : Direct isAlnum interruptNames n.body.own) :
  n.foundNames isAlnum = n.body.names
  := by rw [foundNames, n.propertyValue_ownText isName_interruptNames h, Body.names]

theorem Node.foundCells_own {n : Node} (h : Direct isAlnum interrupts n.body.own) :
  n.foundCells isAlnum = n.body.cells
  := by rw [foundCells, n.propertyValue_ownText isName_interrupts h, Body.cells]

theorem interruptSpecs_uneven {own : Str} {names cells : List Str}
    (hcells : cellsOf ((propertyValue isAlnum own interrupts).getD []) = cells)
    (h : names = [] ∨ cells.length % names.length ≠ 0) :
  interruptSpecs isAlnum own names = .ok []
  := by
  rw [interruptSpecs, hcells]
  simp only
  rw [if_pos h]

theorem interruptSpecs_even {own : Str} {names cells : List Str}
    (hcells : cellsOf ((propertyValue isAlnum own interrupts).getD []) = cells)
    (hnames : names ≠ []) (heven : cells.length % names.length = 0) :
  interruptSpecs isAlnum own names
    = if cells = [] then .error .valueError
      else .ok (specsOf (cells.length / names.length) cells)
  := by
  rw [interruptSpecs, hcells]
  simp only
  have hpos := List.length_pos_iff.mpr hnames
  have hdvd := Nat.dvd_of_mod_eq_zero heven
  have hnot : ¬ (names = [] ∨ cells.length % names.length ≠ 0) := by
    rintro (h | h)
    · apply hnames h
    · apply h heven
  rw [if_neg hnot]
  congr 1
  rw [Nat.div_eq_zero_iff_lt hpos, eq_iff_iff]
  constructor
  · intro hlt
    apply List.length_eq_zero_iff.mp (Nat.eq_zero_of_dvd_of_lt hdvd hlt)
  · rintro rfl
    apply hpos

theorem length_specsOf (width : ℕ) (cells : List Str) :
  (specsOf width cells).length = cells.length / width
  := by
  rw [specsOf, List.length_map, List.length_range]

/-- The entry of a name is a specifier at one of its positions. -/
theorem getElem?_of_lookup {names specs : List Str} {name s : Str}
    (h : (names.zip specs).reverse.lookup name = some s) :
  ∃ k : ℕ, names[k]? = some name ∧ specs[k]? = some s
  := by
  obtain ⟨l, l', heq, -⟩ := List.lookup_eq_some_iff.mp h
  have hmem : (name, s) ∈ names.zip specs := by
    rw [← List.mem_reverse, heq]
    simp
  obtain ⟨k, hk⟩ := List.mem_iff_getElem?.mp hmem
  use k
  apply List.getElem?_zip_eq_some.mp hk

/-- Every name has an entry, if there are as many specifiers as names. -/
theorem lookup_zip {names specs : List Str} (hlength : names.length = specs.length) {name : Str}
    (hname : name ∈ names) :
  ∃ (k : ℕ) (s : Str), names[k]? = some name ∧ specs[k]? = some s
    ∧ (names.zip specs).reverse.lookup name = some s
  := by
  cases hlookup : (names.zip specs).reverse.lookup name with
  | none =>
      have hmem : name ∈ (names.zip specs).map Prod.fst := by
        rw [List.map_fst_zip (Nat.le_of_eq hlength)]
        apply hname
      obtain ⟨e, he, rfl⟩ := List.mem_map.mp hmem
      have hne := List.lookup_eq_none_iff.mp hlookup e (List.mem_reverse.mpr he)
      simp at hne
  | some s =>
      obtain ⟨k, hname, hspec⟩ := getElem?_of_lookup hlookup
      use k, s, hname, hspec

theorem lookup_zip_none {names specs : List Str} {name : Str} (hname : name ∉ names) :
  (names.zip specs).reverse.lookup name = none
  := by
  rw [List.lookup_eq_none_iff]
  rintro ⟨x, s⟩ hmem
  rw [List.mem_reverse] at hmem
  have hx := (List.of_mem_zip hmem).1
  rw [bne_iff_ne]
  rintro rfl
  apply hname hx

/-! ### The loop -/

theorem alignLoop_none {byName : List (Str × Str)} {children : List Str}
    (h : ∀ child ∈ children, fixChild isAlnum byName child = .ok none) (block : Str) :
  alignLoop isAlnum byName children block = .ok block
  := by
  induction children with
  | nil => rfl
  | cons child children ih =>
      obtain ⟨hchild, hchildren⟩ := List.forall_mem_cons.mp h
      rw [alignLoop, hchild]
      apply ih hchildren

theorem alignLoop_error {byName : List (Str × Str)} {children : List Str} {child : Str}
    (hmem : child ∈ children) {e : Stop} (h : fixChild isAlnum byName child = .error e) (block : Str) :
  ∃ e, alignLoop isAlnum byName children block = .error e
  := by
  induction children generalizing block with
  | nil => cases hmem
  | cons child' children ih =>
      rw [alignLoop]
      cases hfix : fixChild isAlnum byName child' with
      | error e => use e; rfl
      | ok fixed =>
          obtain rfl | hmem := List.mem_cons.mp hmem
          · rw [hfix] at h
            cases h
          · cases fixed with
            | none => apply ih hmem
            | some fixed => apply ih hmem

theorem alignChannelInterrupts_parted {n : Node} (hparted : Parted n.body) :
  alignChannelInterrupts isAlnum n.text = (do
    let names := n.foundNames isAlnum
    let byName := names.zip (← interruptSpecs isAlnum n.ownText names)
    if byName = [] then return n.text
    alignLoop isAlnum byName (n.body.nodes.map Node.text) n.text)
  := by
  rw [alignChannelInterrupts, splitNode_text n hparted]
  rfl

/-- A node without a channel is left as it is. -/
theorem alignChannelInterrupts_no_channel {n : Node}
    (hcompatible : ∀ c ∈ n.body.nodes, Direct isAlnum compatible c.body)
    (hnone : ∀ c ∈ n.body.nodes, c.wanted = none) {t : Str}
    (h : alignChannelInterrupts isAlnum n.text = .ok t) :
  t = n.text
  := by
  obtain ⟨own, hsplit⟩ := splitNode_children n
  have hchildren (byName : List (Str × Str)) :
      ∀ child ∈ n.body.nodes.map Node.text, fixChild isAlnum byName child = .ok none := by
    intro child hchild
    obtain ⟨c, hc, rfl⟩ := List.mem_map.mp hchild
    rw [fixChild_text byName (hcompatible c hc), hnone c hc]
  rw [alignChannelInterrupts, hsplit] at h
  simp only [bind, Except.bind] at h
  split at h
  next => cases h
  next specs _ =>
    split at h
    next =>
      injection h with h
      symm
      apply h
    next =>
      rw [alignLoop_none (hchildren _)] at h
      injection h with h
      symm
      apply h

/-! ### Aligning -/

theorem getElem?_specsOf {width k : ℕ} {cells : List Str} {s : Str}
    (h : (specsOf width cells)[k]? = some s) :
  s = join [' '] ((cells.drop (k * width)).take width)
  := by
  rw [specsOf, List.getElem?_map, Option.map_eq_some_iff] at h
  obtain ⟨j, hj, rfl⟩ := h
  obtain ⟨hlt, hj⟩ := List.getElem?_eq_some_iff.mp hj
  rw [List.getElem_range] at hj
  rw [hj]

/-- As many specifiers of a common width as there are names. -/
theorem specsOf_even {names cells : List Str} (hne : names ≠ [])
    (heven : cells.length % names.length = 0) (hcells : cells ≠ []) :
  0 < cells.length / names.length
    ∧ cells.length = cells.length / names.length * names.length
    ∧ names.length = (specsOf (cells.length / names.length) cells).length
    ∧ names.zip (specsOf (cells.length / names.length) cells) ≠ []
  := by
  have hpos := List.length_pos_iff.mpr hne
  have hlength := Nat.div_mul_cancel (Nat.dvd_of_mod_eq_zero heven)
  have hwidth : 0 < cells.length / names.length := by
    apply Nat.pos_of_ne_zero
    intro hzero
    rw [hzero, Nat.zero_mul] at hlength
    apply hcells (List.length_eq_zero_iff.mp hlength.symm)
  have hspecs : names.length = (specsOf (cells.length / names.length) cells).length := by
    rw [length_specsOf, Nat.div_eq_of_eq_mul_right hwidth hlength.symm]
  use hwidth, hlength.symm, hspecs
  rw [Ne, List.zip_eq_nil_iff]
  rintro (h | h)
  · apply hne h
  · rw [h] at hspecs
    apply hne (List.length_eq_zero_iff.mp hspecs)

/-- Where names and specifiers line up and no interrupt is missing, every channel is
aligned that has interrupts of its own. -/
theorem alignChannelInterrupts_aligned {n : Node} (hown : OwnFound isAlnum n)
    (hcompatible : ∀ c ∈ n.body.nodes, Direct isAlnum compatible c.body)
    (hedit : Editable isAlnum n) (heven : n.body.Even)
    (hpresent : ∀ c ∈ n.body.nodes, ∀ name, c.wanted = some name → name ∈ n.body.names) :
  ∃ b', Edited (fun c b' => (c.wanted.isSome → (c.body.value interrupts).isSome) →
        Aligned n.body c b') n.body b'
    ∧ alignChannelInterrupts isAlnum n.text = .ok ({ n with body := b' } : Node).text
  := by
  have hnames' := Node.foundNames_own hown.names
  have hcells' := Node.foundCells_own (hown.interrupts heven.names)
  have hspecs := interruptSpecs_even hcells' heven.names heven.even
  rw [if_neg heven.cells] at hspecs
  obtain ⟨hwidth, hlength, hzip, hbyName⟩ := specsOf_even heven.names heven.even heven.cells
  generalize hwidth' : n.body.cells.length / n.body.names.length = width at *
  have hnone (byName : List (Str × Str)) :
      ∀ c ∈ n.body.nodes, ¬ c.wanted.isSome → fixChild isAlnum byName c.text = .ok none := by
    intro c hc hwanted
    rw [fixChild_text _ (hcompatible c hc), Option.not_isSome_iff_eq_none.mp hwanted]
  obtain ⟨b', hedited, hloop⟩ := alignLoop_text
    (R := fun c b' => Fixed isAlnum (n.body.names.zip (specsOf width n.body.cells)) c b'
      ∧ ((c.wanted.isSome → (c.body.value interrupts).isSome) → Aligned n.body c b'))
    (fun _ _ h => h.1) hedit.apart (hnone _) (by
      intro c hc
      cases hwanted : c.wanted with
      | none =>
          use c.body
          constructor
          · left
            use by rw [fixChild_text _ (hcompatible c hc), hwanted]
          · intro _
            rw [Aligned, hwanted]
      | some name =>
          obtain ⟨k, s, hname, hs, hlookup⟩ := lookup_zip hzip (hpresent c hc name hwanted)
          have hspecifier : SpecifierOf n.body name s := by
            use width, k, hwidth, hlength, hname
            apply getElem?_specsOf hs
          obtain ⟨b', hfixed, hset⟩ := exists_fixed hedit hc (hcompatible c hc) hwanted hlookup
            (by rw [hcells']; apply List.mem_of_getElem? hs)
            (by rw [hnames', hcells']; apply hspecifier)
          use b', hfixed
          intro hsome
          rw [Aligned, hwanted]
          use s
          constructor
          · apply hspecifier
          · obtain ⟨hnone, -⟩ | hset := hset
            · rw [hnone] at hsome
              cases hsome rfl
            · apply hset)
  use b'
  constructor
  · apply hedited.imp
    intro c _ b' h
    apply h.2
  · rw [alignChannelInterrupts_parted hown.parted, hnames']
    simp only [bind, Except.bind]
    rw [hspecs]
    simp only
    rw [if_neg hbyName, hloop]

/-- Where names and specifiers do not line up, the node is left as it is. -/
theorem alignChannelInterrupts_uneven {n : Node} (hown : OwnFound isAlnum n)
    (h : n.body.names = [] ∨ n.body.cells.length % n.body.names.length ≠ 0) :
  alignChannelInterrupts isAlnum n.text = .ok n.text
  := by
  have hspecs : interruptSpecs isAlnum n.ownText n.body.names = .ok [] := by
    by_cases hnames : n.body.names = []
    · apply interruptSpecs_uneven rfl (.inl hnames)
    · apply interruptSpecs_uneven (Node.foundCells_own (hown.interrupts hnames)) h
  rw [alignChannelInterrupts_parted hown.parted, Node.foundNames_own hown.names]
  simp only [bind, Except.bind]
  rw [hspecs]
  simp [pure, Except.pure]

/-- Where an interrupt is missing the script stops. -/
theorem alignChannelInterrupts_missing {n : Node} (hown : OwnFound isAlnum n)
    (hne : n.body.names ≠ []) (heven : n.body.cells.length % n.body.names.length = 0)
    (h : n.body.cells = [] ∨ Lacking isAlnum n) :
  ∃ e, alignChannelInterrupts isAlnum n.text = .error e
  := by
  have hspecs := interruptSpecs_even (Node.foundCells_own (hown.interrupts hne)) hne heven
  rw [alignChannelInterrupts_parted hown.parted, Node.foundNames_own hown.names]
  simp only [bind, Except.bind]
  rw [hspecs]
  by_cases hcells : n.body.cells = []
  · rw [if_pos hcells]
    use .valueError
  · obtain ⟨c, hc, hcompatible, name, hwanted, hmissing⟩ := h.resolve_left hcells
    obtain ⟨-, -, -, hbyName⟩ := specsOf_even hne heven hcells
    rw [if_neg hcells]
    simp only
    rw [if_neg hbyName]
    apply alignLoop_error (List.mem_map_of_mem hc)
    · rw [fixChild_text _ hcompatible, hwanted]
      simp only
      rw [lookup_zip_none hmissing]

/-! ### Channels -/

theorem aligns_of_no_channel {n : Node}
    (hcompatible : ∀ c ∈ n.body.nodes, Direct isAlnum compatible c.body)
    (hnone : ∀ c ∈ n.body.nodes, c.wanted = none) :
  AlignsOrStops isAlnum n
  := by
  intro t ht
  use n.body
  constructor
  · apply Edited.refl
    intro c hc
    rw [Aligned, hnone c hc]
  · apply alignChannelInterrupts_no_channel hcompatible hnone ht

/-- What an aligned channel says of its node and of itself. -/
theorem of_aligned {b : Body} {c : Node} {b' : Body} {name : Str} (hwanted : c.wanted = some name)
    (h : Aligned b c b') :
  b.names ≠ [] ∧ b.cells.length % b.names.length = 0 ∧ (c.body.value interrupts).isSome
  := by
  rw [Aligned, hwanted] at h
  obtain ⟨spec, ⟨width, k, hwidth, hlength, hname, -⟩, hset⟩ := h
  constructor
  · intro hnil
    rw [hnil] at hname
    cases hname
  · constructor
    · rw [hlength, Nat.mul_mod_left]
    · apply hset.isSome

/-- Where names and cells do not line up, no sub-node may be a channel. -/
theorem aligns_iff_of_uneven {n : Node} (hown : OwnFound isAlnum n)
    (h : n.body.names = [] ∨ n.body.cells.length % n.body.names.length ≠ 0) :
  AlignsOrStops isAlnum n ↔ LinesUp n.body
  := by
  have halign := alignChannelInterrupts_uneven hown h
  constructor
  · intro haligns
    obtain ⟨b', hedited, -⟩ := haligns _ halign
    left
    intro c hc
    by_contra hne
    obtain ⟨name, hwanted⟩ := Option.ne_none_iff_exists'.mp hne
    obtain ⟨b'', haligned⟩ := hedited.exists_of_mem hc
    obtain ⟨hnames, heven, -⟩ := of_aligned hwanted haligned
    apply h.elim hnames
    intro huneven
    apply huneven heven
  · rintro (hnone | ⟨hnames, heven, -⟩) t ht
    · rw [halign] at ht
      injection ht with ht
      use n.body
      constructor
      · apply Edited.refl
        intro c hc
        rw [Aligned, hnone c hc]
      · symm
        apply ht
    · cases h.elim hnames fun huneven => huneven heven

/-- Where an interrupt is missing the script stops, as it is to. -/
theorem aligns_iff_of_missing {n : Node} (hown : OwnFound isAlnum n)
    (hne : n.body.names ≠ []) (heven : n.body.cells.length % n.body.names.length = 0)
    (h : n.body.cells = [] ∨ Lacking isAlnum n) :
  AlignsOrStops isAlnum n ↔ LinesUp n.body
  := by
  obtain ⟨e, he⟩ := alignChannelInterrupts_missing hown hne heven h
  constructor
  · intro _
    right
    use hne, heven
    obtain hcells | ⟨c, hc, -, name, hmissing⟩ := h
    · left
      apply hcells
    · right
      left
      use c, hc, name
  · intro _ t ht
    rw [he] at ht
    cases ht

/-- Where names and cells line up and no interrupt is missing, every channel has to have
interrupts of its own. -/
theorem aligns_iff_of_even {n : Node} (hown : OwnFound isAlnum n) (heven : n.body.Even)
    (hfound : SubnodesFound isAlnum n)
    (hpresent : ∀ c ∈ n.body.nodes, ∀ name, c.wanted = some name → name ∈ n.body.names) :
  AlignsOrStops isAlnum n ↔ LinesUp n.body
  := by
  by_cases hchannel : ∃ c ∈ n.body.nodes, c.wanted.isSome
  · obtain ⟨b', hedited, halign⟩ := alignChannelInterrupts_aligned hown hfound.compatible
      (hfound.channels hchannel) heven hpresent
    constructor
    · intro haligns
      obtain ⟨b'', hedited', -⟩ := haligns _ halign
      right
      use heven.names, heven.even
      right
      right
      intro c hc hsome
      obtain ⟨name, hwanted⟩ := Option.isSome_iff_exists.mp hsome
      obtain ⟨_, haligned⟩ := hedited'.exists_of_mem hc
      apply (of_aligned hwanted haligned).2.2
    · intro hlines t ht
      have hsome : ∀ c ∈ n.body.nodes, c.wanted.isSome → (c.body.value interrupts).isSome := by
        obtain hnone | ⟨-, -, hcells | ⟨c, hc, name, hwanted, hmissing⟩ | hsome⟩ := hlines
        · intro c hc hwanted
          rw [hnone c hc] at hwanted
          cases hwanted
        · cases heven.cells hcells
        · cases hmissing (hpresent c hc name hwanted)
        · apply hsome
      rw [halign] at ht
      injection ht with ht
      use b'
      constructor
      · apply hedited.imp
        intro c hc _ haligned
        apply haligned (hsome c hc)
      · symm
        apply ht
  · have hnone : ∀ c ∈ n.body.nodes, c.wanted = none := by simpa using hchannel
    constructor
    · intro _
      left
      apply hnone
    · intro _
      apply aligns_of_no_channel hfound.compatible hnone

/-- `align_channel_interrupts` stops or leaves every channel on the interrupt for its
direction exactly when names and specifiers line up. -/
theorem aligns_or_stops_iff (n : Node) (h : Regular isAlnum n) :
  AlignsOrStops isAlnum n ↔ LinesUp n.body
  := by
  obtain hnone | ⟨hown, hfound⟩ := h
  · constructor
    · intro _
      left
      intro c hc
      apply (hnone c hc).2
    · intro _
      apply aligns_of_no_channel
      · intro c hc
        apply (hnone c hc).1
      · intro c hc
        apply (hnone c hc).2
  · by_cases huneven : n.body.names = [] ∨ n.body.cells.length % n.body.names.length ≠ 0
    · apply aligns_iff_of_uneven hown huneven
    · rw [not_or, not_not] at huneven
      obtain ⟨hne, heven⟩ := huneven
      by_cases hmissing : n.body.cells = [] ∨ Lacking isAlnum n
      · apply aligns_iff_of_missing hown hne heven hmissing
      · rw [not_or] at hmissing
        obtain ⟨hcells, hlacking⟩ := hmissing
        have hsub := (hfound ⟨hne, hcells, heven⟩).resolve_left hlacking
        apply aligns_iff_of_even hown ⟨hne, hcells, heven⟩ hsub
        intro c hc name hwanted
        by_contra hmem
        apply hlacking
        use c, hc, hsub.compatible c hc, name

/-! ### Two channels -/

/-- The header of a DMA. -/
def dmaHeader : Header where
  text := "\taxi_dma_0: dma@a0010000 ".toList

/-- What makes it one. -/
def dmaCompatible : Line where
  text := "\t\tcompatible = \"xlnx,axi-dma-7.1\";".toList

/-- The indentation of a node of the programmable logic. -/
def nodeIndent : Indent where
  text := "\t".toList

/-- The indentation of its sub-nodes. -/
def channelIndent : Indent where
  text := "\t\t".toList

/-- The header of a channel. -/
def mm2sHeader : Header where
  text := "\t\tdma-channel@a0010000 ".toList

/-- What makes it the one that reads memory. -/
def mm2sCompatible : Line where
  text := "\t\t\tcompatible = \"xlnx,axi-dma-mm2s-channel\";".toList

/-- The number the generator gave it. -/
def mm2sInterrupts : Line where
  text := "\t\t\tinterrupts = <0 101 4>;".toList

/-- The channel that reads memory. -/
def mm2sChannel : Node where
  header := mm2sHeader
  body := .line mm2sCompatible (.line mm2sInterrupts .nil)
  indent := channelIndent

/-- The channel that writes memory. -/
def s2mmChannel : Node where
  header := { text := "\t\tdma-channel@a0010030 ".toList }
  body := .line { text := "\t\t\tcompatible = \"xlnx,axi-dma-s2mm-channel\";".toList }
    (.line { text := "\t\t\tinterrupts = <0 102 4>;".toList } .nil)
  indent := channelIndent

/-- A DMA with two channels and the given line for its interrupts. -/
def twoChannels (specs : Line) : Node where
  header := dmaHeader
  body := .line dmaCompatible
    (.line { text := "\t\tinterrupt-names = \"mm2s_introut\", \"s2mm_introut\";".toList }
      (.line specs
        (.node mm2sChannel.header mm2sChannel.body mm2sChannel.indent
          (.node s2mmChannel.header s2mmChannel.body s2mmChannel.indent .nil))))
  indent := nodeIndent

/-- Interrupts for both channels. -/
def twoSpecifiers : Line where
  text := "\t\tinterrupts = < 0 89 4 0 90 4 >;".toList

/-- Interrupts for one of them. -/
def oneSpecifier : Line where
  text := "\t\tinterrupts = <0 89 4>;".toList

/-- No character beyond ASCII is taken for alphanumeric. -/
def ascii (_ : Char) : Bool :=
  false

theorem ownFound_twoSpecifiers :
  OwnFound ascii (twoChannels twoSpecifiers)
  := by
  constructor
  · decide +kernel
  · decide +kernel
  · intro _
    decide +kernel

theorem subnodesFound_twoSpecifiers :
  SubnodesFound ascii (twoChannels twoSpecifiers)
  := by
  constructor
  · decide +kernel
  · intro _
    constructor
    · decide +kernel
    · decide +kernel
    · decide +kernel
    · rintro c - name spec - ⟨width, k, -, -, -, rfl⟩ hmem
      have hcells : (twoChannels twoSpecifiers).foundCells ascii
          = ["0".toList, "89".toList, "4".toList, "0".toList, "90".toList, "4".toList] := by
        decide +kernel
      rw [hcells] at hmem
      obtain hmem | ⟨w, hw, hmem⟩ := mem_join hmem
      · revert hmem
        decide
      · have hplain : ∀ w ∈ ["0".toList, "89".toList, "4".toList, "0".toList, "90".toList,
            "4".toList], '\\' ∉ w := by decide
        apply hplain w (List.mem_of_mem_drop (List.mem_of_mem_take hw)) hmem

theorem regular_twoSpecifiers :
  Regular ascii (twoChannels twoSpecifiers)
  := by
  right
  use ownFound_twoSpecifiers
  intro _
  right
  apply subnodesFound_twoSpecifiers

theorem two_specifiers_align :
  AlignsOrStops ascii (twoChannels twoSpecifiers)
  := by
  apply (aligns_or_stops_iff (twoChannels twoSpecifiers) regular_twoSpecifiers).mpr
  right
  use by decide +kernel, by decide +kernel
  right
  right
  decide +kernel

/-- Where the DMA has a name for each channel and one specifier, both channels keep the
numbers the generator gave them. -/
theorem channels_keep_their_numbers :
  alignChannelInterrupts ascii (twoChannels oneSpecifier).text = .ok (twoChannels oneSpecifier).text
    ∧ ¬ AlignsOrStops ascii (twoChannels oneSpecifier)
  := by
  have halign : alignChannelInterrupts ascii (twoChannels oneSpecifier).text
      = .ok (twoChannels oneSpecifier).text := by decide +kernel
  use halign
  intro haligns
  obtain ⟨b', hedited, -⟩ := haligns _ halign
  have hmem : s2mmChannel ∈ (twoChannels oneSpecifier).body.nodes := by decide +kernel
  obtain ⟨b'', haligned⟩ := hedited.exists_of_mem hmem
  have hwanted : s2mmChannel.wanted = some "s2mm_introut".toList := by decide +kernel
  have heven := (of_aligned hwanted haligned).2.1
  revert heven
  decide +kernel

end Overlay
