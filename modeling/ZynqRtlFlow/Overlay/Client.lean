import ZynqRtlFlow.Overlay.Interrupts

/-!
# The client of the stream

`link_dma_client` gives the one client of the stream the channels of the one DMA: a line
with the references and a line with the names a driver asks for them by.  Nodes, labels and
channels are recognised by the text, and it is the tree's own when the properties searched
for are the nodes' own; a kind of channel that occurs twice is listed twice.
-/

namespace Overlay

open Text

variable (isAlnum : Char → Bool) (ip : Str)

/-- The node is an AXI DMA, by its own compatible. -/
def Node.isDma (n : Node) : Bool :=
  contains "\"xlnx,axi-dma".toList ((n.body.value compatible).getD [])

/-- The node is the client of the stream, by its own name of the IP. -/
def Node.isClient (n : Node) : Bool :=
  (n.body.value ipName).getD [] == quote ip

/-- The label a node carries. -/
def Node.label (n : Node) : Option Str :=
  (matchLabel isAlnum n.header.text).map (·.1)

/-- A sub-node is a channel of a kind, by its own compatible. -/
def Node.isKind (k : Str × DmaChannel) (n : Node) : Bool :=
  contains (quote k.1) ((n.body.value compatible).getD [])

/-- The white space of the line after the header. -/
def Node.firstIndent (n : Node) : Str :=
  lead ((n.body.lines ++ [n.indent.line]).headD [])

/-- One entry for each kind of channel the DMA has and no other, by ascending cell. -/
structure ChannelsOf (dma : Node) (channels : List DmaChannel) : Prop where
  kinds : ∀ k ∈ dmaChannels, k.2 ∈ channels ↔ ∃ c ∈ dma.body.nodes, c.isKind k
  known : ∀ ch ∈ channels, ∃ k ∈ dmaChannels, ch = k.2
  ascending : channels.Pairwise fun c d => c.cell < d.cell
  paired : ∀ ch ∈ channels, ch.cell = 0 ∧ ch.name = "tx".toList ∨ ch.cell = 1 ∧ ch.name = "rx".toList

/-- A channel of the DMA that carries the label. -/
def reference (label : Str) (ch : DmaChannel) : Str :=
  "<&".toList ++ label ++ " ".toList ++ (Nat.repr ch.cell).toList ++ ">".toList

/-- The client with the two lines after its header. -/
def Node.linked (n : Node) (dmas dmaNames : Line) : Node :=
  { n with body := .line dmas (.line dmaNames n.body) }

/-- The texts are those of the nodes, with the two lines in the only client, for the
channels of the only DMA. -/
def Linked (nodes : List Node) (ts : List Str) : Prop :=
  ∃ dma client label channels, ∃ dmas dmaNames : Line,
    nodes.filter Node.isDma = [dma] ∧ nodes.filter (Node.isClient ip) = [client]
      ∧ dma.label isAlnum = some label ∧ channels ≠ [] ∧ ChannelsOf dma channels
      ∧ dmas.text = client.firstIndent ++ "dmas = ".toList
        ++ join ", ".toList (channels.map (reference label)) ++ ";".toList
      ∧ dmaNames.text = client.firstIndent ++ "dma-names = ".toList
        ++ join ", ".toList (channels.map fun ch => quote ch.name) ++ ";".toList
      ∧ ts = nodes.map fun n => if n.isClient ip then (n.linked dmas dmaNames).text else n.text

/-- The script stops, or there is nothing to link and nothing changes, or the client is
given the channels of the DMA. -/
def LinksOrStops (nodes : List Node) : Prop :=
  ∀ ts, linkDmaClient isAlnum ip (nodes.map Node.text) = .ok ts →
    (nodes.filter Node.isDma = [] ∧ nodes.filter (Node.isClient ip) = [] ∧ ts = nodes.map Node.text)
      ∨ Linked isAlnum ip nodes ts

/-- The properties the nodes are recognised by are found where they are meant, and those of
the sub-nodes where there is one client to be linked with one DMA that has a label. -/
structure Recognised (nodes : List Node) : Prop where
  compatible : ∀ n ∈ nodes, Direct isAlnum compatible n.body
  ipName : ∀ n ∈ nodes, Direct isAlnum ipName n.body
  channels : ∀ dma client label, nodes.filter Node.isDma = [dma] →
    nodes.filter (Node.isClient ip) = [client] → dma.label isAlnum = some label →
    ∀ c ∈ dma.body.nodes, Direct isAlnum Overlay.compatible c.body

/-- The DMA that is linked has at most one sub-node of each kind of channel. -/
def OneEach (nodes : List Node) : Prop :=
  ∀ dma client label, nodes.filter Node.isDma = [dma] → nodes.filter (Node.isClient ip) = [client] →
    dma.label isAlnum = some label → ∀ k ∈ dmaChannels, dma.body.nodes.countP (Node.isKind k) ≤ 1

/-! ### Recognition -/

variable {isAlnum} {ip}

theorem isDma_text {n : Node} (h : Direct isAlnum compatible n.body) :
  isDma isAlnum n.text = n.isDma
  := by
  rw [isDma, n.propertyValue_text isName_compatible h, Node.isDma]

theorem isClient_text {n : Node} (h : Direct isAlnum ipName n.body) :
  isClient isAlnum ip n.text = n.isClient ip
  := by
  rw [isClient, n.propertyValue_text isName_ipName h, Node.isClient]

theorem matchIdent_append {c : Char} (hc : isIdentStart c = false)
    (hc' : isWord isAlnum c = false ∧ c ≠ '-') (u t : Str) :
  matchIdent isAlnum (u ++ c :: t) = (matchIdent isAlnum u).map fun m => (m.1, m.2 ++ c :: t)
  := by
  cases u with
  | nil => simp [matchIdent, hc]
  | cons d u =>
      have hmore : (isWord isAlnum c || c == '-') = false := by simp [hc']
      rw [List.cons_append, matchIdent, matchIdent,
        takeWhile_append_cons (q := fun c => isWord isAlnum c || c == '-') hmore,
        dropWhile_append_cons (q := fun c => isWord isAlnum c || c == '-') hmore]
      cases isIdentStart d with
      | false => rfl
      | true => rfl

/-- A label stands before the brace that opens a node and before the semicolon that closes
a line. -/
theorem matchLabel_append {e : Char} (he : e ∈ ['{', ';']) (u t : Str) :
  (matchLabel isAlnum (u ++ e :: t)).map (·.1) = (matchLabel isAlnum u).map (·.1)
  := by
  have hstart : isIdentStart e = false ∧ isSpace e = false ∧ e ≠ '-' ∧ e ≠ ':' := by
    revert e
    decide
  have hword : isWord isAlnum e = false := by
    simp only [List.mem_cons, List.not_mem_nil, or_false] at he
    obtain rfl | rfl := he
    · rfl
    · rfl
  obtain ⟨hstart, hspace, hdash, hcolon⟩ := hstart
  rw [matchLabel, matchLabel, dropWhile_append_cons hspace, matchIdent_append hstart ⟨hword, hdash⟩]
  cases matchIdent isAlnum (u.dropWhile isSpace) with
  | none => rfl
  | some m =>
      simp only [Option.map_some]
      rw [dropWhile_append_cons hspace]
      cases m.2.dropWhile isSpace with
      | nil => simp [hcolon]
      | cons c t' =>
          by_cases hc : c = ':'
          · subst hc
            rfl
          · simp [hc]

theorem labelled_text (n : Node) :
  labelled isAlnum n.text = n.label isAlnum
  := by
  rw [labelled, Node.text, matchLabel_append (by simp), Node.label]

theorem of_mem_ident {u label t : Str} (h : matchIdent isAlnum u = some (label, t)) :
  ∀ c ∈ label, isIdentStart c = true ∨ isWord isAlnum c = true ∨ c = '-'
  := by
  cases u with
  | nil => cases h
  | cons d u =>
      rw [matchIdent] at h
      split at h
      next hd =>
        obtain ⟨rfl, -⟩ := Prod.mk.inj (Option.some.inj h)
        intro c hc
        obtain rfl | hc := List.mem_cons.mp hc
        · left
          apply hd
        · right
          simpa using List.mem_takeWhile_imp hc
      next => cases h

/-- A label is no white space and no brace. -/
theorem of_mem_label {n : Node} {label : Str} (h : n.label isAlnum = some label) :
  ∀ c ∈ label, isSpace c = false ∧ c ∉ ['{', '}']
  := by
  obtain ⟨⟨label', after⟩, hmatch, rfl⟩ := Option.map_eq_some_iff.mp h
  intro c hc
  have hident : isIdentStart c = true ∨ isWord isAlnum c = true ∨ c = '-' := by
    rw [matchLabel] at hmatch
    split at hmatch
    next => cases hmatch
    next label t hmatch' =>
      split at hmatch
      next =>
        obtain ⟨rfl, -⟩ := Prod.mk.inj (Option.some.inj hmatch)
        apply of_mem_ident hmatch' c hc
      next => cases hmatch
  constructor
  · obtain hc | hc | rfl := hident
    · apply isSpace_of_isIdentStart hc
    · rw [isWord, Bool.and_eq_true] at hc
      simpa using hc.1
    · rfl
  · intro hbrace
    have hstart : isIdentStart c = false ∧ isWord isAlnum c = false ∧ c ≠ '-' := by
      simp only [List.mem_cons, List.not_mem_nil, or_false] at hbrace
      obtain rfl | rfl := hbrace
      · use rfl, rfl
        decide
      · use rfl, rfl
        decide
    obtain hc | hc | rfl := hident
    · rw [hstart.1] at hc
      cases hc
    · rw [hstart.2.1] at hc
      cases hc
    · apply hstart.2.2 rfl

/-! ### The two lines -/

/-- The line a text without line breaks and braces makes. -/
def closedLine (u : Str) (h : ∀ c ∈ u, isLineBreak c = false ∧ c ∉ ['{', '}']) : Line where
  text := u ++ [';']
  isLine := by
    apply IsLine.append _ (by decide)
    intro c hc
    apply (h c hc).1
  noBrace := by
    constructor
    · rw [List.mem_append]
      rintro (hmem | hmem)
      · apply (h _ hmem).2 (by simp)
      · revert hmem
        decide
    · rw [List.mem_append]
      rintro (hmem | hmem)
      · apply (h _ hmem).2 (by simp)
      · revert hmem
        decide
  closed := by
    right
    rw [rstrip, List.rdropWhile_concat_neg]
    · rw [List.getLast?_concat]
    · decide

theorem Node.of_mem_firstIndent (n : Node) :
  ∀ c ∈ n.firstIndent, isLineBreak c = false ∧ c ∉ ['{', '}']
  := by
  have hline : IsLine ((n.body.lines ++ [n.indent.line]).headD []) := by
    cases hlines : n.body.lines with
    | nil => apply n.indent.isLine_line
    | cons l ls =>
        apply Body.isLine_of_mem (b := n.body)
        rw [hlines]
        apply List.mem_cons_self
  intro c hc
  use hline c ((List.takeWhile_sublist isSpace).subset hc)
  intro hbrace
  have hspace := isSpace_of_mem_lead hc
  simp only [List.mem_cons, List.not_mem_nil, or_false] at hbrace
  obtain rfl | rfl := hbrace
  · cases hspace
  · cases hspace

/-- Two lines fit the client when the label and the channels have neither a line break nor
a brace. -/
theorem exists_lines (n : Node) {label : Str} {channels : List DmaChannel}
    (hlabel : ∀ c ∈ label, isLineBreak c = false ∧ c ∉ ['{', '}'])
    (hknown : ∀ ch ∈ channels, ∃ k ∈ dmaChannels, ch = k.2) :
  ∃ dmas dmaNames : Line,
    dmas.text = n.firstIndent ++ "dmas = ".toList
        ++ join ", ".toList (channels.map (reference label)) ++ ";".toList
      ∧ dmaNames.text = n.firstIndent ++ "dma-names = ".toList
        ++ join ", ".toList (channels.map fun ch => quote ch.name) ++ ";".toList
  := by
  have htable : ∀ k ∈ dmaChannels, ∀ c ∈ (Nat.repr k.2.cell).toList ++ quote k.2.name,
      isLineBreak c = false ∧ c ∉ ['{', '}'] := by decide
  have hjoin (sep name : Str) (ts : List Str)
      (hconst : ∀ c ∈ name ++ sep, isLineBreak c = false ∧ c ∉ ['{', '}'])
      (hts : ∀ t ∈ ts, ∀ c ∈ t, isLineBreak c = false ∧ c ∉ ['{', '}']) :
      ∀ c ∈ n.firstIndent ++ name ++ join sep ts, isLineBreak c = false ∧ c ∉ ['{', '}'] := by
    intro c hc
    rw [List.mem_append, List.mem_append] at hc
    obtain (hc | hc) | hc := hc
    · apply n.of_mem_firstIndent c hc
    · apply hconst c (List.mem_append_left _ hc)
    · obtain hc | ⟨t, ht, hc⟩ := mem_join hc
      · apply hconst c (List.mem_append_right _ hc)
      · apply hts t ht c hc
  use closedLine _ (hjoin ", ".toList "dmas = ".toList (channels.map (reference label)) (by decide) (by
    intro t ht c hc
    obtain ⟨ch, hch, rfl⟩ := List.mem_map.mp ht
    obtain ⟨k, hk, rfl⟩ := hknown ch hch
    simp only [reference, List.mem_append] at hc
    obtain (((hc | hc) | hc) | hc) | hc := hc
    · revert c
      decide
    · apply hlabel c hc
    · revert c
      decide
    · apply htable k hk c (List.mem_append_left _ hc)
    · revert c
      decide))
  use closedLine _ (hjoin ", ".toList "dma-names = ".toList (channels.map fun ch => quote ch.name)
    (by decide) (by
      intro t ht c hc
      obtain ⟨ch, hch, rfl⟩ := List.mem_map.mp ht
      obtain ⟨k, hk, rfl⟩ := hknown ch hch
      apply htable k hk c (List.mem_append_right _ hc)))
  use rfl
  rfl

/-- The client is given the two lines after its header. -/
theorem linkClient_text (n : Node) {label : Str} {channels : List DmaChannel} {dmas dmaNames : Line}
    (hdmas : dmas.text = n.firstIndent ++ "dmas = ".toList
      ++ join ", ".toList (channels.map (reference label)) ++ ";".toList)
    (hnames : dmaNames.text = n.firstIndent ++ "dma-names = ".toList
      ++ join ", ".toList (channels.map fun ch => quote ch.name) ++ ";".toList) :
  linkClient label channels n.text = .ok (n.linked dmas dmaNames).text
  := by
  have hlines : splitlines n.text = n.header.line :: (n.body.lines ++ [n.indent.line]) := by
    rw [n.text_eq, splitlines_unlines, splitlines_last n.indent.isLine_line, if_neg]
    · rfl
    · simp [Indent.line]
    · intro l hl
      obtain rfl | hl := List.mem_cons.mp hl
      · apply n.header.isLine_line
      · apply Body.isLine_of_mem hl
  have hfirst : (splitlines n.text)[1]? = some ((n.body.lines ++ [n.indent.line]).headD []) := by
    rw [hlines]
    cases n.body.lines with
    | nil => rfl
    | cons l ls => rfl
  have hheader : ∀ s, s <:+ n.header.text → s ≠ [] → ∀ t, ¬ ['{'] <+: s ++ t := by
    intro s hs hne t hstart
    obtain ⟨c, s, rfl⟩ := List.exists_cons_of_ne_nil hne
    rw [List.cons_append, List.cons_prefix_cons] at hstart
    apply n.header.noBrace.1
    rw [hstart.1]
    apply hs.subset List.mem_cons_self
  have hbrace (new t : Str) : replaceFirst ['{'] new ('{' :: t) = new ++ t := by
    rw [replaceFirst, if_pos (by simp)]
    rfl
  have hreference : (fun ch : DmaChannel => "<&".toList ++ label ++ " ".toList
      ++ (Nat.repr ch.cell).toList ++ ">".toList) = reference label := rfl
  rw [linkClient, hfirst]
  simp only
  rw [Node.text, replaceFirst_append fun s hs hne => hheader s hs hne _, hbrace, clientLines,
    hreference]
  simp [Node.linked, Node.text, Body.text, hdmas, hnames, Node.firstIndent, lead]

/-! ### Channels -/

/-- The channels the compatible of a sub-node names. -/
def Node.kinds (n : Node) : List DmaChannel :=
  (dmaChannels.filter fun k => n.isKind k).map (·.2)

theorem channelsOf_text {b : Body} (h : ∀ c ∈ b.nodes, Direct isAlnum compatible c.body) :
  channelsOf isAlnum (b.nodes.map Node.text)
    = (b.nodes.flatMap Node.kinds).insertionSort fun c d => c.cell ≤ d.cell
  := by
  rw [channelsOf, List.flatMap_map]
  congr 1
  apply List.flatMap_congr
  intro c hc
  rw [c.propertyValue_text isName_compatible (h c hc)]
  rfl

theorem count_kinds (n : Node) {k : Str × DmaChannel} (hk : k ∈ dmaChannels) :
  n.kinds.count k.2 = if n.isKind k then 1 else 0
  := by
  simp only [dmaChannels, List.mem_cons, List.not_mem_nil, or_false] at hk
  simp only [Node.kinds, dmaChannels, List.filter_cons, List.filter_nil]
  obtain rfl | rfl := hk
  · split <;> split <;> decide
  · split <;> split <;> decide

theorem count_flatMap_kinds (ns : List Node) {k : Str × DmaChannel} (hk : k ∈ dmaChannels) :
  (ns.flatMap Node.kinds).count k.2 = ns.countP (Node.isKind k)
  := by
  induction ns with
  | nil => rfl
  | cons n ns ih => rw [List.flatMap_cons, List.count_append, count_kinds n hk, ih, List.countP_cons,
      Nat.add_comm]

theorem known_of_mem {ns : List Node} {ch : DmaChannel} (h : ch ∈ ns.flatMap Node.kinds) :
  ∃ k ∈ dmaChannels, ch = k.2
  := by
  obtain ⟨n, -, hch⟩ := List.mem_flatMap.mp h
  obtain ⟨k, hk, rfl⟩ := List.mem_map.mp hch
  use k, List.mem_of_mem_filter hk

theorem mem_flatMap_kinds {ns : List Node} {k : Str × DmaChannel} (hk : k ∈ dmaChannels) :
  k.2 ∈ ns.flatMap Node.kinds ↔ ∃ c ∈ ns, c.isKind k
  := by
  rw [← List.count_pos_iff, count_flatMap_kinds ns hk, List.countP_pos_iff]

instance : Std.Total fun c d : DmaChannel => c.cell ≤ d.cell where
  total c d := Nat.le_total c.cell d.cell

instance : IsTrans DmaChannel fun c d => c.cell ≤ d.cell where
  trans _ _ _ := Nat.le_trans

/-- With at most one sub-node of each kind, the channels listed are those of the DMA. -/
theorem channelsOf_sorted {dma : Node}
    (h : ∀ k ∈ dmaChannels, dma.body.nodes.countP (Node.isKind k) ≤ 1) :
  ChannelsOf dma ((dma.body.nodes.flatMap Node.kinds).insertionSort fun c d => c.cell ≤ d.cell)
  := by
  have hknown : ∀ ch ∈ (dma.body.nodes.flatMap Node.kinds).insertionSort
      fun c d => c.cell ≤ d.cell, ∃ k ∈ dmaChannels, ch = k.2 := by
    intro ch hch
    apply known_of_mem ((List.mem_insertionSort _).mp hch)
  constructor
  · intro k hk
    rw [List.mem_insertionSort, mem_flatMap_kinds hk]
  · apply hknown
  · have hnodup : ((dma.body.nodes.flatMap Node.kinds).insertionSort
        fun c d => c.cell ≤ d.cell).Nodup := by
      rw [(List.perm_insertionSort _ _).nodup_iff, List.nodup_iff_count_le_one]
      intro ch
      by_cases hch : ch ∈ dma.body.nodes.flatMap Node.kinds
      · obtain ⟨k, hk, rfl⟩ := known_of_mem hch
        rw [count_flatMap_kinds _ hk]
        apply h k hk
      · rw [List.count_eq_zero_of_not_mem hch]
        omega
    have hsorted := List.pairwise_insertionSort (fun c d : DmaChannel => c.cell ≤ d.cell)
      (dma.body.nodes.flatMap Node.kinds)
    have hcells : ∀ k ∈ dmaChannels, ∀ k' ∈ dmaChannels, k.2 ≠ k'.2 → k.2.cell ≤ k'.2.cell →
        k.2.cell < k'.2.cell := by decide
    apply (hsorted.and hnodup).imp_of_mem
    intro c d hc hd hcd
    obtain ⟨k, hk, rfl⟩ := hknown c hc
    obtain ⟨k', hk', rfl⟩ := hknown d hd
    apply hcells k hk k' hk' hcd.2 hcd.1
  · have htable : ∀ k ∈ dmaChannels, k.2.cell = 0 ∧ k.2.name = "tx".toList
        ∨ k.2.cell = 1 ∧ k.2.name = "rx".toList := by decide
    intro ch hch
    obtain ⟨k, hk, rfl⟩ := hknown ch hch
    apply htable k hk

/-! ### Linking -/

theorem filter_isDma {nodes : List Node} (h : ∀ n ∈ nodes, Direct isAlnum compatible n.body) :
  (nodes.map Node.text).filter (isDma isAlnum) = (nodes.filter Node.isDma).map Node.text
  := by
  rw [List.filter_map]
  congr 1
  apply List.filter_congr
  intro n hn
  apply isDma_text (h n hn)

theorem filter_isClient {nodes : List Node} (h : ∀ n ∈ nodes, Direct isAlnum ipName n.body) :
  (nodes.map Node.text).filter (isClient isAlnum ip)
    = (nodes.filter (Node.isClient ip)).map Node.text
  := by
  rw [List.filter_map]
  congr 1
  apply List.filter_congr
  intro n hn
  apply isClient_text (h n hn)

/-- Replacing the text of the only client replaces the client. -/
theorem map_client {nodes : List Node} (h : ∀ n ∈ nodes, Direct isAlnum ipName n.body) {client : Node}
    (hclient : nodes.filter (Node.isClient ip) = [client]) (f : Node → Node) :
  (nodes.map Node.text).map (fun b => if isClient isAlnum ip b then (f client).text else b)
    = nodes.map fun n => if n.isClient ip then (f n).text else n.text
  := by
  rw [List.map_map]
  apply List.map_congr_left
  intro n hn
  rw [Function.comp_apply, isClient_text (h n hn)]
  split
  next hisClient =>
    have hn' : n ∈ nodes.filter (Node.isClient ip) := List.mem_filter.mpr ⟨hn, hisClient⟩
    rw [hclient, List.mem_singleton] at hn'
    rw [hn']
  next => rfl

/-- The one client is given the channels of the one DMA. -/
theorem linkDmaClient_linked {nodes : List Node} (h : Recognised isAlnum ip nodes) {dma client : Node}
    (hdma : nodes.filter Node.isDma = [dma]) (hclient : nodes.filter (Node.isClient ip) = [client])
    {label : Str} (hlabel : dma.label isAlnum = some label) {channels : List DmaChannel}
    (hchannels : channels
      = (dma.body.nodes.flatMap Node.kinds).insertionSort fun c d => c.cell ≤ d.cell)
    (hne : channels ≠ []) {dmas dmaNames : Line}
    (hdmas : dmas.text = client.firstIndent ++ "dmas = ".toList
      ++ join ", ".toList (channels.map (reference label)) ++ ";".toList)
    (hnames : dmaNames.text = client.firstIndent ++ "dma-names = ".toList
      ++ join ", ".toList (channels.map fun ch => quote ch.name) ++ ";".toList) :
  linkDmaClient isAlnum ip (nodes.map Node.text)
    = .ok (nodes.map fun n => if n.isClient ip then (n.linked dmas dmaNames).text else n.text)
  := by
  obtain ⟨own, hsplit⟩ := splitNode_children dma
  have hchildren : channelsOf isAlnum (dma.body.nodes.map Node.text) = channels := by
    rw [channelsOf_text (h.channels dma client label hdma hclient hlabel), hchannels]
  have hmap := map_client h.ipName hclient fun n => n.linked dmas dmaNames
  rw [linkDmaClient]
  simp only
  rw [filter_isDma h.compatible, filter_isClient h.ipName, hdma, hclient]
  simp only [List.map_cons, List.map_nil]
  rw [if_neg (by simp), labelled_text, hlabel]
  simp only [bind, Except.bind, hsplit, hchildren, linkClient_text client hdmas hnames]
  rw [if_neg hne, hmap]
  rfl

/-- What has to be there for the script not to stop. -/
theorem of_linkDmaClient {nodes : List Node} (h : Recognised isAlnum ip nodes) {ts : List Str}
    (hok : linkDmaClient isAlnum ip (nodes.map Node.text) = .ok ts) :
  (nodes.filter Node.isDma = [] ∧ nodes.filter (Node.isClient ip) = [] ∧ ts = nodes.map Node.text)
    ∨ ∃ dma client label, nodes.filter Node.isDma = [dma] ∧ nodes.filter (Node.isClient ip) = [client]
      ∧ dma.label isAlnum = some label
      ∧ ((dma.body.nodes.flatMap Node.kinds).insertionSort fun c d => c.cell ≤ d.cell) ≠ []
  := by
  rw [linkDmaClient] at hok
  simp only at hok
  rw [filter_isDma h.compatible, filter_isClient h.ipName] at hok
  split at hok
  next hnone =>
    left
    use List.map_eq_nil_iff.mp hnone.1, List.map_eq_nil_iff.mp hnone.2
    injection hok with hok
    symm
    apply hok
  next hsome =>
    right
    split at hok
    next t t' hdmas hclients =>
      obtain ⟨dma, hdma, rfl⟩ := List.map_eq_singleton_iff.mp hdmas
      obtain ⟨client, hclient, rfl⟩ := List.map_eq_singleton_iff.mp hclients
      obtain ⟨own, hsplit⟩ := splitNode_children dma
      rw [labelled_text] at hok
      split at hok
      next => cases hok
      next label hlabel =>
        use dma, client, label, hdma, hclient, hlabel
        rw [← channelsOf_text (h.channels dma client label hdma hclient hlabel)]
        intro hnil
        simp only [bind, Except.bind, hsplit, hnil] at hok
        cases hok
    next => cases hok

/-- The names of channels listed tell how many there are. -/
theorem length_of_names {channels channels' : List DmaChannel} (hne : channels ≠ [])
    (hne' : channels' ≠ []) (h : ∀ ch ∈ channels, ∃ k ∈ dmaChannels, ch = k.2)
    (h' : ∀ ch ∈ channels', ∃ k ∈ dmaChannels, ch = k.2)
    (heq : join ", ".toList (channels.map fun ch => quote ch.name)
      = join ", ".toList (channels'.map fun ch => quote ch.name)) :
  channels.length = channels'.length
  := by
  have htable : ∀ k ∈ dmaChannels, (quote k.2.name).length = 4 := by decide
  have hlength {channels : List DmaChannel} (hne : channels ≠ [])
      (h : ∀ ch ∈ channels, ∃ k ∈ dmaChannels, ch = k.2) :
      (join ", ".toList (channels.map fun ch => quote ch.name)).length + 2 = channels.length * 6 := by
    have hnames : ∀ t ∈ channels.map fun ch => quote ch.name, t.length = 4 := by
      intro t ht
      obtain ⟨ch, hch, rfl⟩ := List.mem_map.mp ht
      obtain ⟨k, hk, rfl⟩ := h ch hch
      apply htable k hk
    have hjoin := length_join ", ".toList (by simpa using hne) hnames
    rw [List.length_map] at hjoin
    apply hjoin
  have hchannels := hlength hne h
  have hchannels' := hlength hne' h'
  rw [heq] at hchannels
  omega

/-- Channels each listed once, and as many as there are sub-nodes that name one: no kind
occurs twice. -/
theorem countP_le_one {dma : Node} {channels : List DmaChannel} (h : ChannelsOf dma channels)
    (hlength : channels.length = (dma.body.nodes.flatMap Node.kinds).length)
    {k : Str × DmaChannel} (hk : k ∈ dmaChannels) :
  dma.body.nodes.countP (Node.isKind k) ≤ 1
  := by
  have hnodup : channels.Nodup := by
    apply h.ascending.imp
    rintro c d hcd rfl
    omega
  have hsubset : channels ⊆ dma.body.nodes.flatMap Node.kinds := by
    intro ch hch
    obtain ⟨k, hk, rfl⟩ := h.known ch hch
    apply (mem_flatMap_kinds hk).mpr ((h.kinds k hk).mp hch)
  have hperm := (List.subperm_of_subset hnodup hsubset).perm_of_length_le (Nat.le_of_eq hlength.symm)
  rw [← count_flatMap_kinds _ hk]
  apply List.nodup_iff_count_le_one.mp (hperm.nodup_iff.mp hnodup)

theorem plain_of_label {n : Node} {label : Str} (h : n.label isAlnum = some label) :
  ∀ c ∈ label, isLineBreak c = false ∧ c ∉ ['{', '}']
  := by
  intro c hc
  obtain ⟨hspace, hbrace⟩ := of_mem_label h c hc
  use isLineBreak_of_isSpace hspace, hbrace

/-- A kind of channel that occurs twice is listed twice. -/
theorem LinksOrStops.oneEach {nodes : List Node} (h : Recognised isAlnum ip nodes)
    (hlinks : LinksOrStops isAlnum ip nodes) :
  OneEach isAlnum ip nodes
  := by
  intro dma client label hdma hclient hlabel k hk
  generalize hchannels : ((dma.body.nodes.flatMap Node.kinds).insertionSort
    fun c d => c.cell ≤ d.cell) = channels
  have hknown : ∀ ch ∈ channels, ∃ k ∈ dmaChannels, ch = k.2 := by
    intro ch hch
    rw [← hchannels, List.mem_insertionSort] at hch
    apply known_of_mem hch
  have hlength : channels.length = (dma.body.nodes.flatMap Node.kinds).length := by
    rw [← hchannels, List.length_insertionSort]
  by_cases hne : channels = []
  · rw [hne, List.length_nil, eq_comm, List.length_eq_zero_iff] at hlength
    rw [← count_flatMap_kinds _ hk, hlength]
    apply Nat.zero_le
  · obtain ⟨dmas, dmaNames, hdmas, hnames⟩ := exists_lines client (plain_of_label hlabel) hknown
    have hok := linkDmaClient_linked h hdma hclient hlabel hchannels.symm hne hdmas hnames
    obtain ⟨hnone, -⟩ | ⟨dma', client', label', channels', dmas', dmaNames', hdma', hclient', -, hne',
      hchannels', -, hnames', heq⟩ := hlinks _ hok
    · rw [hdma] at hnone
      cases hnone
    · rw [hdma, List.singleton_inj] at hdma'
      rw [hclient, List.singleton_inj] at hclient'
      subst hdma'
      subst hclient'
      have hmem : client ∈ nodes.filter (Node.isClient ip) := by
        rw [hclient]
        apply List.mem_singleton_self
      obtain ⟨hnodes, hisClient⟩ := List.mem_filter.mp hmem
      have htext := List.map_inj_left.mp heq client hnodes
      rw [if_pos hisClient, if_pos hisClient] at htext
      have hbody := congrArg Node.body (Node.text_injective htext)
      have hline : dmaNames = dmaNames' := by
        simp only [Node.linked, Body.line.injEq] at hbody
        apply hbody.2.1
      rw [hline, hnames', List.append_cancel_right_eq, List.append_cancel_left_eq] at hnames
      have hcount := length_of_names hne' hne hchannels'.known hknown hnames
      apply countP_le_one hchannels' (hcount.trans hlength) hk

theorem OneEach.linksOrStops {nodes : List Node} (h : Recognised isAlnum ip nodes)
    (hone : OneEach isAlnum ip nodes) :
  LinksOrStops isAlnum ip nodes
  := by
  intro ts hts
  obtain hnone | ⟨dma, client, label, hdma, hclient, hlabel, hne⟩ := of_linkDmaClient h hts
  · left
    apply hnone
  · right
    have hchannels := channelsOf_sorted (hone dma client label hdma hclient hlabel)
    obtain ⟨dmas, dmaNames, hdmas, hnames⟩ := exists_lines client (plain_of_label hlabel)
      hchannels.known
    have hok := linkDmaClient_linked h hdma hclient hlabel rfl hne hdmas hnames
    rw [hts] at hok
    injection hok with hok
    use dma, client, label
    use (dma.body.nodes.flatMap Node.kinds).insertionSort fun c d => c.cell ≤ d.cell
    use dmas, dmaNames

/-- `link_dma_client` gives the client exactly the channels of the DMA, or stops, exactly
when no kind of channel occurs twice in the DMA it links. -/
theorem links_or_stops_iff (nodes : List Node) (h : Recognised isAlnum ip nodes) :
  LinksOrStops isAlnum ip nodes ↔ OneEach isAlnum ip nodes
  := by
  constructor
  · apply LinksOrStops.oneEach h
  · apply OneEach.linksOrStops h

/-! ### An accelerator and its DMA -/

/-- The client of the stream. -/
def accelerator : Node where
  header := { text := "\taccel: relu_axi@a0000000 ".toList }
  body := .line { text := "\t\tcompatible = \"xlnx,relu-axi-1.0\";".toList }
    (.line { text := "\t\txlnx,ip-name = \"relu_axi\";".toList } .nil)
  indent := nodeIndent

/-- A DMA with two sub-nodes for one direction. -/
def sameChannels : Node where
  header := dmaHeader
  body := .line dmaCompatible
    (.node mm2sChannel.header mm2sChannel.body mm2sChannel.indent
      (.node s2mmChannel.header mm2sChannel.body mm2sChannel.indent .nil))
  indent := nodeIndent

/-- The accelerator and a DMA are told apart, and the sub-nodes of the DMA recognised. -/
theorem recognised_pair {dma : Node} (hcompatible : Direct ascii compatible dma.body)
    (hipName : Direct ascii ipName dma.body) (hdma : dma.isDma = true)
    (hchannels : ∀ c ∈ dma.body.nodes, Direct ascii compatible c.body) :
  Recognised ascii "relu_axi".toList [accelerator, dma]
  := by
  have haccelerator : accelerator.isDma = false := by decide +kernel
  constructor
  · rw [List.forall_mem_cons, List.forall_mem_singleton]
    use by decide +kernel, hcompatible
  · rw [List.forall_mem_cons, List.forall_mem_singleton]
    use by decide +kernel, hipName
  · intro dma' client label hfilter _ _
    rw [List.filter_cons_of_neg (by simp [haccelerator]), List.filter_cons_of_pos hdma,
      List.filter_nil, List.singleton_inj] at hfilter
    rw [← hfilter]
    apply hchannels

theorem both_channels_link :
  LinksOrStops ascii "relu_axi".toList [accelerator, twoChannels twoSpecifiers]
  := by
  apply (links_or_stops_iff [accelerator, twoChannels twoSpecifiers] _).mpr
  · intro dma client label hdma _ _
    have hfilter : [accelerator, twoChannels twoSpecifiers].filter Node.isDma
        = [twoChannels twoSpecifiers] := by decide +kernel
    rw [hfilter, List.singleton_inj] at hdma
    rw [← hdma]
    decide +kernel
  · apply recognised_pair
    · decide +kernel
    · decide +kernel
    · decide +kernel
    · decide +kernel

/-- Where two sub-nodes of the DMA are for one direction the client is given it twice. -/
theorem channel_listed_twice :
  ¬ LinksOrStops ascii "relu_axi".toList [accelerator, sameChannels]
  := by
  intro hlinks
  have hrecognised : Recognised ascii "relu_axi".toList [accelerator, sameChannels] := by
    apply recognised_pair
    · decide +kernel
    · decide +kernel
    · decide +kernel
    · decide +kernel
  have hcount := hlinks.oneEach hrecognised sameChannels accelerator "axi_dma_0".toList
    (by decide +kernel) (by decide +kernel) (by decide +kernel) _ List.mem_cons_self
  revert hcount
  decide +kernel

end Overlay
