import Mathlib.Data.List.Forall2
import ZynqRtlFlow.Overlay.Gic
import ZynqRtlFlow.Overlay.Labels

/-!
# The nodes carried over

The script takes the sub-nodes of `amba_pl` out of the generated tree and puts them under
the bus of the live tree.  Each is carried over as it is, but for the controller its
interrupts go to, the interrupts of its channels and the two lines the client is given,
when the script's edits by text are edits of the nodes they are meant for.
-/

namespace Overlay

open Text

variable (isAlnum : Char → Bool) (ip : Str)

/-- The label of `amba_pl` is first met in the header of the node itself. -/
def FirstMention (before : Str) (n : Node) (after : Str) : Prop :=
  ∃ u v, n.header.text = u ++ (ambaPl ++ v)
    ∧ findSub ambaPl (before ++ (n.text ++ after)) = some (before.length + u.length)

/-- The body of a sub-node may differ in the value of its own interrupts, if it is a
channel. -/
def Realigned (n : Node) (b' : Body) : Prop :=
  b' = n.body ∨ n.wanted.isSome ∧ ∃ v, Sets interrupts v n.body b'

/-- The two lines stand after the header, with whatever references and names. -/
def Node.LinkedFrom (n' n : Node) : Prop :=
  ∃ (dmas dmaNames : Line) (references names : Str),
    dmas.text = n.firstIndent ++ "dmas = ".toList ++ references ++ ";".toList
      ∧ dmaNames.text = n.firstIndent ++ "dma-names = ".toList ++ names ++ ";".toList
      ∧ n' = n.linked dmas dmaNames

/-- `n'` is `n` with `gic` for `imux`, the interrupts of its channels realigned, and the two
lines inserted if it is the client. -/
def Carried (n n' : Node) : Prop :=
  ∃ b', Edited Realigned n.onGic.body b'
    ∧ (n' = { n.onGic with body := b' }
      ∨ n.onGic.isClient ip ∧ n'.LinkedFrom { n.onGic with body := b' })

/-- The text written before the nodes' bus. -/
def preface (firmware : Str) : Str :=
  "/dts-v1/;\n/plugin/;\n\n".toList ++ "&fpga_full \x7b\n\tfirmware-name = \"".toList ++ firmware
    ++ "\";\n\x7d;\n\n".toList

/-- Nodes with an empty line between them. -/
def spaced : List Node → Body
  | [] => .nil
  | [n] => .node n.header n.body n.indent .nil
  | n :: m :: ns => .node n.header n.body n.indent (.line Body.blankLine (spaced (m :: ns)))

/-- The fragment for the live tree's bus. -/
def amba (ns : List Node) : Node where
  header := { text := "&amba ".toList }
  body := .line { text := "\t#address-cells = <2>;".toList }
    (.line { text := "\t#size-cells = <2>;".toList } (.line Body.blankLine (spaced ns)))
  indent := Body.noIndent

/-- What is written has the sub-nodes of `n` carried over under the bus, in their order, and
every reference in them is to a label of the board or of one of them. -/
def Carries (firmware : Str) (n : Node) (out : Str) : Prop :=
  ∃ ns, List.Forall₂ (Carried ip) n.body.nodes ns
    ∧ out = preface firmware ++ (amba ns).text ++ ['\n']
    ∧ ∀ m ∈ ns, ∀ label, Refers isAlnum m.text label →
      label ∈ resolvable ∨ ∃ d ∈ ns, d.Defines isAlnum label

/-- The edits by text of a node are edits of the node: no sub-node is looked at, as the
node's own names and cells do not line up, or the sub-nodes are recognised and edited one by
one; and it is told by its own name of the IP whether the node is the client. -/
structure Carryable (n : Node) : Prop where
  subnodes : OwnFound isAlnum n ∧ ¬ n.body.Even ∨ SubnodesFound isAlnum n
  ipName : Direct isAlnum ipName n.body

variable {isAlnum} {ip}

/-! ### Taking the nodes out -/

theorem nodeBody_text {before after : Str} {n : Node} (h : FirstMention before n after) :
  nodeBody (before ++ (n.text ++ after)) ambaPl = .ok n.inside
  := by
  obtain ⟨u, v, hheader, hfind⟩ := h
  apply nodeBody_first hfind (Nat.le_add_right _ _)
  rw [hheader, List.length_append]
  omega

/-! ### Realigning a node -/

/-- As `Realigned`, by a value without a comma. -/
def Regrouped (n : Node) (b' : Body) : Prop :=
  b' = n.body ∨ n.wanted.isSome ∧ ∃ v, ',' ∉ v ∧ Sets interrupts v n.body b'

theorem Regrouped.realigned {n : Node} {b' : Body} (h : Regrouped n b') :
  Realigned n b'
  := by
  obtain rfl | ⟨hwanted, v, -, hset⟩ := h
  · left
    rfl
  · right
    use hwanted, v

theorem Regrouped.silent {n : Node} {b' : Body} (h : Regrouped n b')
    (hbody : ∀ l ∈ n.body.lines, propertyValue isAlnum l Overlay.ipName = none) :
  ∀ l ∈ b'.lines, propertyValue isAlnum l Overlay.ipName = none
  := by
  obtain rfl | ⟨-, v, hv, hset⟩ := h
  · apply hbody
  · apply hset.silent (c := ',') (by decide) rfl _ hbody
    rw [List.mem_append, List.mem_append]
    rintro ((hmem | hmem) | hmem)
    · revert hmem
      decide
    · apply hv hmem
    · revert hmem
      decide

/-- The entry of a name is the specifier at its position, and one of the slices. -/
theorem of_interruptSpecs {own : Str} {names specs : List Str}
    (h : interruptSpecs isAlnum own names = .ok specs) {name s : Str}
    (hlookup : (names.zip specs).reverse.lookup name = some s) :
  SpecifierIn names (cellsOf ((propertyValue isAlnum own interrupts).getD [])) name s
    ∧ ∃ width, s ∈ specsOf width (cellsOf ((propertyValue isAlnum own interrupts).getD []))
  := by
  obtain ⟨k, hname, hs⟩ := getElem?_of_lookup hlookup
  rw [interruptSpecs] at h
  generalize cellsOf ((propertyValue isAlnum own interrupts).getD []) = cells at *
  simp only at h
  split at h
  next =>
    injection h with h
    rw [← h, List.getElem?_nil] at hs
    cases hs
  next heven =>
    rw [not_or, not_not] at heven
    split at h
    next => cases h
    next hwidth =>
      injection h with h
      rw [← h] at hs
      constructor
      · use cells.length / names.length, k, Nat.pos_of_ne_zero hwidth
        use (Nat.div_mul_cancel (Nat.dvd_of_mod_eq_zero heven.2)).symm, hname
        apply getElem?_specsOf hs
      · use cells.length / names.length
        apply List.mem_of_getElem? hs

/-- Each sub-node of a node whose channels can be edited is edited, or the script stops. -/
theorem exists_regrouped {n c : Node} (h : SubnodesFound isAlnum n) (hedit : Editable isAlnum n)
    (hc : c ∈ n.body.nodes) {specs : List Str}
    (hspecs : interruptSpecs isAlnum n.ownText (n.foundNames isAlnum) = .ok specs) {t : Str}
    (hloop : alignLoop isAlnum ((n.foundNames isAlnum).zip specs) (n.body.nodes.map Node.text) n.text
      = .ok t) :
  ∃ b', Fixed isAlnum ((n.foundNames isAlnum).zip specs) c b' ∧ Regrouped c b'
  := by
  cases hwanted : c.wanted with
  | none =>
      use c.body
      constructor
      · left
        use by rw [fixChild_text _ (h.compatible c hc), hwanted]
      · left
        rfl
  | some name =>
      cases hlookup : ((n.foundNames isAlnum).zip specs).reverse.lookup name with
      | none =>
          obtain ⟨e, he⟩ : ∃ e, alignLoop isAlnum ((n.foundNames isAlnum).zip specs)
              (n.body.nodes.map Node.text) n.text = .error e := by
            apply alignLoop_error (List.mem_map_of_mem hc)
            · rw [fixChild_text _ (h.compatible c hc), hwanted]
              simp only [hlookup]
              rfl
          rw [he] at hloop
          cases hloop
      | some s =>
          obtain ⟨hspecifier, width, hs⟩ := of_interruptSpecs hspecs hlookup
          obtain ⟨b', hfixed, hset⟩ := exists_fixed hedit hc (h.compatible c hc) hwanted hlookup hs
            hspecifier
          use b', hfixed
          obtain ⟨-, rfl⟩ | hset := hset
          · left
            rfl
          · right
            use by rw [hwanted]; rfl
            use '<' :: s ++ ['>']
            constructor
            · have hcomma := notMem_spec hs (c := ',') (by decide)
              simpa using hcomma
            · apply hset

theorem edited_regrouped_refl (b : Body) :
  Edited Regrouped b b
  := by
  apply Edited.refl
  intro c _
  left
  rfl

/-- Names and cells that do not line up change nothing. -/
theorem alignChannelInterrupts_same {n : Node} (hown : OwnFound isAlnum n) (heven : ¬ n.body.Even)
    {t : Str} (ht : alignChannelInterrupts isAlnum n.text = .ok t) :
  t = n.text
  := by
  by_cases huneven : n.body.names = [] ∨ n.body.cells.length % n.body.names.length ≠ 0
  · rw [alignChannelInterrupts_uneven hown huneven] at ht
    injection ht with ht
    symm
    apply ht
  · rw [not_or, not_not] at huneven
    obtain ⟨hne, hmod⟩ := huneven
    have hcells : n.body.cells = [] := by
      by_contra hcells
      apply heven ⟨hne, hcells, hmod⟩
    obtain ⟨e, he⟩ := alignChannelInterrupts_missing hown hne hmod (.inl hcells)
    rw [he] at ht
    cases ht

/-- Sub-nodes that are edited one by one are changed in the interrupts of channels only. -/
theorem alignChannelInterrupts_edited {n : Node} (h : SubnodesFound isAlnum n) {t : Str}
    (ht : alignChannelInterrupts isAlnum n.text = .ok t) :
  ∃ b', Edited Regrouped n.body b' ∧ t = ({ n with body := b' } : Node).text
  := by
  by_cases hchannel : ∃ c ∈ n.body.nodes, c.wanted.isSome
  · have hedit := h.channels hchannel
    rw [alignChannelInterrupts_parted hedit.parted] at ht
    simp only [bind, Except.bind] at ht
    split at ht
    next => cases ht
    next specs hspecs =>
      split at ht
      next =>
        injection ht with ht
        use n.body, edited_regrouped_refl n.body, ht.symm
      next =>
        obtain ⟨b', hedited, hloop⟩ := alignLoop_text (fun _ _ h => h.1) hedit.apart (by
            intro c hc hwanted
            rw [fixChild_text _ (h.compatible c hc), Option.not_isSome_iff_eq_none.mp hwanted])
          fun c hc => exists_regrouped h hedit hc hspecs ht
        use b'
        constructor
        · apply hedited.imp
          intro c _ b' hb'
          apply hb'.2
        · rw [hloop] at ht
          injection ht with ht
          symm
          apply ht
  · use n.body, edited_regrouped_refl n.body
    apply alignChannelInterrupts_no_channel h.compatible _ ht
    simpa using hchannel

/-- Aligning the interrupts of the channels changes the interrupts of channels only. -/
theorem alignChannelInterrupts_regrouped {n : Node} (h : Carryable isAlnum n) {t : Str}
    (ht : alignChannelInterrupts isAlnum n.text = .ok t) :
  ∃ b', Edited Regrouped n.body b' ∧ t = ({ n with body := b' } : Node).text
  := by
  obtain ⟨hown, heven⟩ | hfound := h.subnodes
  · use n.body, edited_regrouped_refl n.body
    apply alignChannelInterrupts_same hown heven ht
  · apply alignChannelInterrupts_edited hfound ht

/-! ### Linking the client -/

/-- The nodes are left as they are, or the two lines are inserted in a client. -/
theorem linkDmaClient_inserted {nodes : List Node} (h : ∀ n ∈ nodes, Direct isAlnum ipName n.body)
    {ts : List Str} (hts : linkDmaClient isAlnum ip (nodes.map Node.text) = .ok ts) :
  ∃ f : Node → Node, (∀ n, f n = n ∨ n.isClient ip ∧ (f n).LinkedFrom n)
    ∧ ts = (nodes.map f).map Node.text
  := by
  rw [linkDmaClient] at hts
  simp only at hts
  split at hts
  next =>
    injection hts with hts
    use id
    constructor
    · intro n
      left
      rfl
    · rw [List.map_id, hts]
  next =>
    split at hts
    next t t' hdmas hclients =>
      have ht : t ∈ nodes.map Node.text := by
        apply List.mem_of_mem_filter (p := isDma isAlnum)
        rw [hdmas]
        apply List.mem_singleton_self
      obtain ⟨dma, hdma, rfl⟩ := List.mem_map.mp ht
      rw [filter_isClient h] at hclients
      obtain ⟨client, hclient, rfl⟩ := List.map_eq_singleton_iff.mp hclients
      rw [labelled_text] at hts
      split at hts
      next => cases hts
      next label hlabel =>
        obtain ⟨own, hsplit⟩ := splitNode_children dma
        generalize hchannels : channelsOf isAlnum (dma.body.nodes.map Node.text) = channels at *
        have hknown : ∀ ch ∈ channels, ∃ k ∈ dmaChannels, ch = k.2 := by
          intro ch hch
          rw [← hchannels, channelsOf, List.mem_insertionSort] at hch
          obtain ⟨child, -, hch⟩ := List.mem_flatMap.mp hch
          obtain ⟨k, hk, rfl⟩ := List.mem_map.mp hch
          use k, List.mem_of_mem_filter hk
        obtain ⟨dmas, dmaNames, hdmas, hnames⟩ := exists_lines client (plain_of_label hlabel) hknown
        have hlink := linkClient_text client hdmas hnames
        simp only [bind, Except.bind, hsplit, hchannels, hlink] at hts
        split at hts
        next => cases hts
        next =>
          injection hts with hts
          rw [map_client h hclient fun n => n.linked dmas dmaNames] at hts
          have hmem : client ∈ nodes.filter (Node.isClient ip) := by
            rw [hclient]
            apply List.mem_singleton_self
          obtain ⟨-, hisClient⟩ := List.mem_filter.mp hmem
          use fun n => if n = client then n.linked dmas dmaNames else n
          constructor
          · intro n
            by_cases hn : n = client
            · right
              subst hn
              use hisClient, dmas, dmaNames, join ", ".toList (channels.map (reference label)),
                join ", ".toList (channels.map fun ch => quote ch.name), hdmas, hnames
              rw [if_pos rfl]
            · left
              rw [if_neg hn]
          · rw [← hts, List.map_map]
            apply List.map_congr_left
            intro n hn
            have hiff : n.isClient ip ↔ n = client := by
              rw [← List.mem_singleton (a := n), ← hclient, List.mem_filter]
              simp [hn]
            rw [Function.comp_apply, apply_ite Node.text]
            simp only [hiff]
    next => cases hts

/-! ### Writing the nodes -/

theorem nodes_spaced (ns : List Node) :
  (spaced ns).nodes = ns
  := by
  induction ns with
  | nil => rfl
  | cons n ns ih =>
      cases ns with
      | nil => rfl
      | cons m ns => rw [spaced, Body.nodes, Body.nodes, ih]

theorem text_spaced {ns : List Node} (hne : ns ≠ []) :
  (spaced ns).text = join "\n\n".toList (ns.map Node.text) ++ ['\n']
  := by
  induction ns with
  | nil => cases hne rfl
  | cons n ns ih =>
      cases ns with
      | nil =>
          rw [spaced, Body.text_node, List.map_singleton, join_singleton]
          rfl
      | cons m ns =>
          have hjoin : join "\n\n".toList ((n :: m :: ns).map Node.text)
              = n.text ++ ("\n\n".toList ++ join "\n\n".toList ((m :: ns).map Node.text)) :=
            join_cons_cons _ _ _ _
          rw [hjoin, spaced, Body.text_node, Body.text, ih (List.cons_ne_nil m ns)]
          simp [Body.blankLine]

theorem nodes_amba (ns : List Node) :
  (amba ns).body.nodes = ns
  := nodes_spaced ns

theorem text_amba (ns : List Node) :
  (amba ns).text = "&amba \x7b\n\t#address-cells = <2>;\n\t#size-cells = <2>;\n\n".toList
    ++ ((spaced ns).text ++ ['}', ';'])
  := by
  have hopen : "&amba \x7b\n\t#address-cells = <2>;\n\t#size-cells = <2>;\n\n".toList
      = "&amba ".toList ++ ('{' :: '\n' :: ("\t#address-cells = <2>;".toList
        ++ ('\n' :: ("\t#size-cells = <2>;".toList ++ ['\n', '\n'])))) := by decide +kernel
  have happend (u v w t : Str) :
      u ++ ('{' :: '\n' :: (v ++ ('\n' :: (w ++ ('\n' :: '\n' :: t))) ++ ['}', ';']))
        = u ++ ('{' :: '\n' :: (v ++ ('\n' :: (w ++ ['\n', '\n'])))) ++ (t ++ ['}', ';']) := by
    simp
  rw [hopen]
  apply happend

theorem render_text (firmware : Str) {ns : List Node} (hne : ns ≠ []) :
  render firmware (ns.map Node.text) = preface firmware ++ (amba ns).text ++ ['\n']
  := by
  have hclose : "\n\x7d;\n".toList = ['\n', '}', ';', '\n'] := by decide
  have happend (u v t : Str) :
      u ++ v ++ t ++ ['\n', '}', ';', '\n'] = u ++ (v ++ (t ++ ['\n'] ++ ['}', ';'])) ++ ['\n'] := by
    simp
  calc render firmware (ns.map Node.text)
      = preface firmware ++ "&amba \x7b\n\t#address-cells = <2>;\n\t#size-cells = <2>;\n\n".toList
          ++ join "\n\n".toList (ns.map Node.text) ++ "\n\x7d;\n".toList := rfl
    _ = preface firmware ++ "&amba \x7b\n\t#address-cells = <2>;\n\t#size-cells = <2>;\n\n".toList
          ++ join "\n\n".toList (ns.map Node.text) ++ ['\n', '}', ';', '\n'] :=
        congrArg (HAppend.hAppend _) hclose
    _ = preface firmware ++ (amba ns).text ++ ['\n'] := by
        rw [text_amba, text_spaced hne]
        apply happend

/-! ### Carrying the nodes over -/

/-- What a function that may stop makes of the nodes, it makes of each. -/
theorem forall₂_of_mapM {f : Str → Except Stop Str} {R : Node → Node → Prop} {ns : List Node}
    (hf : ∀ n ∈ ns, ∀ t, f n.text = .ok t → ∃ m, R n m ∧ t = m.text) {ts : List Str}
    (hts : (ns.map Node.text).mapM f = .ok ts) :
  ∃ ms, List.Forall₂ R ns ms ∧ ts = ms.map Node.text
  := by
  induction ns generalizing ts with
  | nil =>
      injection hts with hts
      use [], List.Forall₂.nil, hts.symm
  | cons n ns ih =>
      obtain ⟨hn, hns⟩ := List.forall_mem_cons.mp hf
      rw [List.map_cons, List.mapM_cons] at hts
      simp only [bind, Except.bind] at hts
      split at hts
      next => cases hts
      next t ht =>
        split at hts
        next => cases hts
        next ts' hts' =>
          obtain ⟨m, hm, rfl⟩ := hn t ht
          obtain ⟨ms, hms, rfl⟩ := ih hns hts'
          injection hts with hts
          use m :: ms, List.Forall₂.cons hm hms, hts.symm

/-- The node with the interrupts of its channels realigned. -/
def Rebuilt (n m : Node) : Prop :=
  ∃ b', Edited Regrouped n.body b' ∧ m = { n with body := b' }

theorem Rebuilt.ipName {n m : Node} (h : Rebuilt n m) (hn : Direct isAlnum Overlay.ipName n.body) :
  Direct isAlnum Overlay.ipName m.body
  := by
  obtain ⟨b', hedited, rfl⟩ := h
  apply hedited.direct _ hn
  intro c b' hb'
  apply hb'.silent

theorem Rebuilt.isClient {n m : Node} (h : Rebuilt n m) :
  m.isClient ip = n.isClient ip
  := by
  obtain ⟨b', hedited, rfl⟩ := h
  rw [Node.isClient, Node.isClient, hedited.value]

/-- What becomes of a rebuilt node when the client is linked. -/
theorem Rebuilt.carried {n m m' : Node} (h : Rebuilt n.onGic m)
    (hlinked : m' = m ∨ m.isClient ip ∧ m'.LinkedFrom m) :
  Carried ip n m'
  := by
  have hclient : m.isClient ip = n.onGic.isClient ip := h.isClient
  obtain ⟨b', hedited, rfl⟩ := h
  use b'
  constructor
  · apply hedited.imp
    intro c _ b' hb'
    apply hb'.realigned
  · rw [hclient] at hlinked
    apply hlinked

/-- When the edits by text are edits of the nodes, what is written carries them over. -/
theorem overlay_carries (n : Node) (h : ∀ m ∈ n.body.nodes, Carryable isAlnum m.onGic)
    {before after : Str} (hfirst : FirstMention before n after) (firmware : Str) {out : Str}
    (hout : overlay isAlnum firmware ip (before ++ (n.text ++ after)) = .ok out) :
  Carries isAlnum ip firmware n out
  := by
  have hbody := nodeBody_text hfirst
  have hgic : (n.body.nodes.map Node.text).map (replaceAll imux gic)
      = (n.body.nodes.map Node.onGic).map Node.text := by
    rw [List.map_map, List.map_map]
    apply List.map_congr_left
    intro m _
    apply m.text_onGic
  have hrebuild : ∀ m ∈ n.body.nodes.map Node.onGic, ∀ t,
      alignChannelInterrupts isAlnum m.text = .ok t →
      ∃ m', (Direct isAlnum ipName m'.body ∧ Rebuilt m m') ∧ t = m'.text := by
    intro m' hm' t ht
    obtain ⟨m, hm, rfl⟩ := List.mem_map.mp hm'
    obtain ⟨b', hedited, rfl⟩ := alignChannelInterrupts_regrouped (h m hm) ht
    have hrebuilt : Rebuilt m.onGic { m.onGic with body := b' } := ⟨b', hedited, rfl⟩
    use { m.onGic with body := b' }, ⟨hrebuilt.ipName (h m hm).ipName, hrebuilt⟩
  rw [overlay] at hout
  simp only [bind, Except.bind, hbody, childNodes_inside, hgic] at hout
  split at hout
  next => cases hout
  next hnodes =>
    split at hout
    next => cases hout
    next ts hts =>
      obtain ⟨ms, hms, rfl⟩ := forall₂_of_mapM hrebuild hts
      obtain ⟨hdirect, hms⟩ := (List.forall₂_and_left ms _).mp hms.flip
      split at hout
      next => cases hout
      next ts' hts' =>
        obtain ⟨f, hf, rfl⟩ := linkDmaClient_inserted hdirect hts'
        split at hout
        next => cases hout
        next hresolved =>
          injection hout with hout
          have hne : ms.map f ≠ [] := by
            intro hnil
            rw [List.map_eq_nil_iff.mp hnil, List.forall₂_nil_left_iff, List.map_eq_nil_iff] at hms
            apply hnodes
            rw [hms]
            rfl
          use ms.map f
          constructor
          · rw [List.forall₂_map_right_iff]
            apply (List.forall₂_map_left_iff.mp hms.flip).imp
            intro m m' hm'
            apply Rebuilt.carried hm' (hf m')
          · constructor
            · rw [← hout, render_text firmware hne]
            · intro m hm label hrefers
              apply resolved (not_not.mp hresolved) hm hrefers

/-! ### A tree carried over -/

/-- A node for the programmable logic in a tree of its own. -/
def programmableLogic (ns : List Node) : Node where
  header := { text := "\tamba_pl: amba_pl@0 ".toList }
  body := .line { text := "\t\tranges;".toList } (spaced ns)
  indent := nodeIndent

theorem nodes_programmableLogic (ns : List Node) :
  (programmableLogic ns).body.nodes = ns
  := nodes_spaced ns

/-- The text of a generated tree with these nodes of the programmable logic. -/
def treeText (ns : List Node) : Str :=
  "/ \x7b\n".toList ++ ((programmableLogic ns).text ++ "\n\x7d;\n".toList)

theorem carryable_accelerator :
  Carryable ascii accelerator.onGic
  := by
  constructor
  · right
    constructor
    · decide +kernel
    · have hnone : ¬ ∃ c ∈ accelerator.onGic.body.nodes, c.wanted.isSome := by decide +kernel
      intro hchannel
      cases hnone hchannel
  · decide +kernel

theorem carryable_twoSpecifiers :
  Carryable ascii (twoChannels twoSpecifiers).onGic
  := by
  have hgic : (twoChannels twoSpecifiers).onGic = twoChannels twoSpecifiers := by decide +kernel
  rw [hgic]
  constructor
  · right
    apply subnodesFound_twoSpecifiers
  · decide +kernel

theorem two_channels_carried :
  ∃ out, overlay ascii "axi.bit.bin".toList "relu_axi".toList
        (treeText [accelerator, twoChannels twoSpecifiers]) = .ok out
    ∧ Carries ascii "relu_axi".toList "axi.bit.bin".toList
        (programmableLogic [accelerator, twoChannels twoSpecifiers]) out
  := by
  have hrun : (overlay ascii "axi.bit.bin".toList "relu_axi".toList
      (treeText [accelerator, twoChannels twoSpecifiers])).toOption.isSome := by decide +kernel
  cases hout : overlay ascii "axi.bit.bin".toList "relu_axi".toList
      (treeText [accelerator, twoChannels twoSpecifiers]) with
  | error e =>
      rw [hout] at hrun
      cases hrun
  | ok out =>
      use out, rfl
      apply overlay_carries (programmableLogic [accelerator, twoChannels twoSpecifiers]) _ _ _ hout
      · rw [nodes_programmableLogic, List.forall_mem_cons, List.forall_mem_singleton]
        constructor
        · apply carryable_accelerator
        · apply carryable_twoSpecifiers
      · use "\t".toList, ": amba_pl@0 ".toList
        decide +kernel

/-! ### A property that is taken for another -/

/-- A channel with the given line before its interrupts. -/
def countedChannel (count : Line) : Node where
  header := mm2sHeader
  body := .line mm2sCompatible (.line count (.line mm2sInterrupts .nil))
  indent := channelIndent

/-- A DMA with such a channel. -/
def countedDma (count : Line) : Node where
  header := dmaHeader
  body := .line dmaCompatible
    (.line { text := "\t\tinterrupt-names = \"mm2s_introut\";".toList }
      (.line oneSpecifier
        (.node (countedChannel count).header (countedChannel count).body (countedChannel count).indent
          .nil)))
  indent := nodeIndent

/-- A count of one interrupt. -/
def oneInterrupt : Line where
  text := "\t\t\txlnx,num-interrupts = <1>;".toList

/-- The same property with the specifier that takes its place. -/
def notOneInterrupt : Line where
  text := "\t\t\txlnx,num-interrupts = <0 89 4>;".toList

/-- The accelerator with the two lines of its channel. -/
def linkedAccelerator : Node :=
  accelerator.linked { text := "\t\tdmas = <&axi_dma_0 0>;".toList }
    { text := "\t\tdma-names = \"tx\";".toList }

/-- Where a property of a channel whose name ends in `-interrupts` comes before its
interrupts, its value is replaced and the interrupts are not. -/
theorem count_is_replaced :
  ∃ out, overlay ascii "axi.bit.bin".toList "relu_axi".toList
        (treeText [accelerator, countedDma oneInterrupt]) = .ok out
    ∧ FirstMention "/ \x7b\n".toList (programmableLogic [accelerator, countedDma oneInterrupt])
        "\n\x7d;\n".toList
    ∧ ¬ Carries ascii "relu_axi".toList "axi.bit.bin".toList
        (programmableLogic [accelerator, countedDma oneInterrupt]) out
  := by
  use preface "axi.bit.bin".toList ++ (amba [linkedAccelerator, countedDma notOneInterrupt]).text
    ++ ['\n']
  constructor
  · decide +kernel
  · constructor
    · use "\t".toList, ": amba_pl@0 ".toList
      decide +kernel
    · rintro ⟨ns, hns, hout, -⟩
      have htext := List.append_cancel_left (List.append_cancel_right hout)
      have hnodes := congrArg (fun m => m.body.nodes) (Node.text_injective htext)
      simp only [nodes_amba] at hnodes
      rw [← hnodes, nodes_programmableLogic, List.forall₂_cons, List.forall₂_cons] at hns
      obtain ⟨-, ⟨b', hedited, hsame | ⟨hisClient, -⟩⟩, -⟩ := hns
      · have hbody := congrArg Node.body hsame
        simp only at hbody
        rw [← hbody] at hedited
        have hbefore : (countedDma oneInterrupt).onGic.body.nodes = [countedChannel oneInterrupt] := by
          decide +kernel
        have hafter : (countedDma notOneInterrupt).body.nodes = [countedChannel notOneInterrupt] := rfl
        have hchannels := hedited.nodes
        rw [hbefore, hafter, List.forall₂_cons] at hchannels
        obtain ⟨hchannel | ⟨-, v, hset⟩, -⟩ := hchannels
        · revert hchannel
          decide +kernel
        · have hwithout := hset.without isName_interrupts
          revert hwithout
          decide +kernel
      · revert hisClient
        decide +kernel

end Overlay
