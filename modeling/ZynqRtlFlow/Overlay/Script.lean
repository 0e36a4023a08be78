import Mathlib.Data.Char
import Mathlib.Data.List.Lex
import Mathlib.Data.List.Sort
import ZynqRtlFlow.Text.Strings

/-!
# `overlay.py`

The script that turns the generated device tree of the programmable logic into a loadable
overlay.  It works on the text of the tree throughout: nodes are found by counting braces,
properties by regular expression, and edited by replacement in the whole text.

`isAlnum` says which characters beyond ASCII are alphanumeric.
-/

namespace Overlay

open Text

/-- How the script stops: by `sys.exit` with a message, or by an exception. -/
inductive Stop where
  | exit (message : Str)
  | valueError
  | indexError
  | reError
  deriving DecidableEq, Repr

variable (isAlnum : Char → Bool)

/-! ### Nodes -/

/-- The text before the brace that closes the `depth` open ones. -/
def upToClosing : ℕ → Str → Option Str
  | _, [] => none
  | depth, c :: t =>
      if c = '{' then (upToClosing (depth + 1) t).map (c :: ·)
      else if c = '}' then
        if depth = 1 then some [] else (upToClosing (depth - 1) t).map (c :: ·)
      else (upToClosing depth t).map (c :: ·)

/-- `node_body`: the text between the first brace after the label and the one that closes
it. -/
def nodeBody (text label : Str) : Except Stop Str :=
  match findSub label text with
  | none => .error .valueError
  | some start =>
      match index '{' (text.drop start) with
      | none => .error .valueError
      | some openAt =>
          match upToClosing 1 ((text.drop start).drop (openAt + 1)) with
          | none => .error .indexError
          | some body => .ok body

/-- The loop of `child_nodes` over the lines that are left. -/
def childNodesLoop : List Str → List Str → ℤ → List Str
  | [], _, _ => []
  | line :: lines, buf, depth =>
      if depth = 0 then
        if (rstrip line).getLast? = some '{' then childNodesLoop lines [line] 1
        else childNodesLoop lines buf 0
      else
        let buf := buf ++ [line]
        let depth := depth + (line.count '{' - line.count '}' : ℤ)
        if depth = 0 then join ['\n'] buf :: childNodesLoop lines buf depth
        else childNodesLoop lines buf depth

/-- `child_nodes`: the blocks that begin on a line that ends in a brace. -/
def childNodes (text : Str) : List Str :=
  childNodesLoop (splitlines text) [] 0

/-- `block[block.index("{") + 1 : block.rindex("}")]`. -/
def blockBody (block : Str) : Except Stop Str :=
  match index '{' block, rindex '}' block with
  | some a, some b => .ok ((block.take b).drop (a + 1))
  | _, _ => .error .valueError

/-- `split_node`: what is a node's own, and its direct sub-nodes. -/
def splitNode (block : Str) : Except Stop (Str × List Str) := do
  let body ← blockBody block
  let children := childNodes body
  return (children.foldl (fun own child => replaceAll child [] own) body, children)

/-! ### Properties -/

/-- `name\s*=\s*([^;]*);` at the start of a text: the group, and what follows the match. -/
def matchProperty (name t : Str) : Option (Str × Str) :=
  if name <+: t then
    match (t.drop name.length).dropWhile isSpace with
    | '=' :: t =>
        match (t.dropWhile isSpace).dropWhile (· != ';') with
        | ';' :: after => some ((t.dropWhile isSpace).takeWhile (· != ';'), after)
        | _ => none
    | _ => none
  else none

/-- The name begins with a word character. -/
def startsWord (name : Str) : Bool :=
  name.head?.any (isWord isAlnum)

/-- The first match of `\bname\s*=\s*([^;]*);`, for a name without the characters that are
special in a regular expression, after a word character or not: what comes before it, the
group, and what follows. -/
def searchProperty (name : Str) : Bool → Str → Option (Str × Str × Str)
  | _, [] => none
  | afterWord, c :: t =>
      ((if afterWord = startsWord isAlnum name then none else matchProperty name (c :: t)).map
        fun m => ([], m)).or
        ((searchProperty name (isWord isAlnum c) t).map fun m => (c :: m.1, m.2))

/-- `property_value`. -/
def propertyValue (text name : Str) : Option Str :=
  (searchProperty isAlnum name false text).map (·.2.1)

/-- `re.findall(r'"([^"]*)"', t)`, inside a string or not. -/
def quotedFrom : Option Str → Str → List Str
  | _, [] => []
  | none, c :: t => if c = '"' then quotedFrom (some []) t else quotedFrom none t
  | some s, c :: t => if c = '"' then s :: quotedFrom none t else quotedFrom (some (s ++ [c])) t

/-- `re.findall` of the quoted strings. -/
def quoted (t : Str) : List Str :=
  quotedFrom none t

/-- A string in quotes. -/
def quote (t : Str) : Str :=
  '"' :: t ++ ['"']

/-! ### Interrupts -/

/-- `DmaChannel`: the name of a channel's interrupt, its cell in `dmas` and its name in
`dma-names`. -/
structure DmaChannel where
  interrupt : Str
  cell : ℕ
  name : Str
  deriving DecidableEq, Repr

/-- The compatible of a channel's sub-node, and what is known of the channel. -/
def dmaChannels : List (Str × DmaChannel) :=
  [("xlnx,axi-dma-mm2s-channel".toList, ⟨"mm2s_introut".toList, 0, "tx".toList⟩),
    ("xlnx,axi-dma-s2mm-channel".toList, ⟨"s2mm_introut".toList, 1, "rx".toList⟩)]

/-- The property of the interrupt specifiers. -/
abbrev interrupts : Str := "interrupts".toList

/-- The property of their names. -/
abbrev interruptNames : Str := "interrupt-names".toList

/-- The property that says what a node is. -/
abbrev compatible : Str := "compatible".toList

/-- The property that names the IP. -/
abbrev ipName : Str := "xlnx,ip-name".toList

/-- The cells of an `interrupts` property. -/
def cellsOf (value : Str) : List Str :=
  split (value.map fun c => if c = '<' ∨ c = '>' ∨ c = ',' then ' ' else c)

/-- The cells, `width` at a time. -/
def specsOf (width : ℕ) (cells : List Str) : List Str :=
  (List.range (cells.length / width)).map fun k => join [' '] ((cells.drop (k * width)).take width)

/-- `range` refuses a step of 0. -/
def interruptSpecs (own : Str) (names : List Str) : Except Stop (List Str) :=
  let cells := cellsOf ((propertyValue isAlnum own interrupts).getD [])
  if names = [] ∨ cells.length % names.length ≠ 0 then .ok []
  else
    let width := cells.length / names.length
    if width = 0 then .error .valueError else .ok (specsOf width cells)

/-- What the characters after a backslash stand for in the template of `re.sub`, and how
many they are.  The pattern has no groups, and a `\g` is never followed by a bracket: the
specifiers have lost theirs. -/
def escape : Str → Except Stop (Str × ℕ)
  | [] => .error .reError
  | c :: t =>
      let isOct (c : Char) : Bool := '0' ≤ c && c ≤ '7'
      let value (ds : Str) : ℕ := ds.foldl (fun n d => 8 * n + (d.toNat - '0'.toNat)) 0
      if c = '0' then
        let ds := (t.take 2).takeWhile isOct
        .ok ([Char.ofNat (value ds)], 1 + ds.length)
      else if c.isDigit then
        let ds := c :: t.take 2
        if ds.length = 3 ∧ ds.all isOct ∧ value ds ≤ 255 then .ok ([Char.ofNat (value ds)], 3)
        else .error .reError
      else
        match ['a', 'b', 'f', 'n', 'r', 't', 'v', '\\'].idxOf? c with
        | some k => .ok ([['\x07', '\x08', '\x0C', '\n', '\r', '\t', '\x0B', '\\'].getD k ' '], 1)
        | none => if c.isAlpha then .error .reError else .ok (['\\', c], 1)

/-- The template of `re.sub` with its escapes expanded, the first `k` characters left out. -/
def expandFrom : ℕ → Str → Except Stop Str
  | _, [] => .ok []
  | k + 1, _ :: t => expandFrom k t
  | 0, c :: t =>
      if c = '\\' then do
        let (s, k) ← escape t
        return s ++ (← expandFrom k t)
      else do
        return c :: (← expandFrom 0 t)

/-- `re.sub(r"\binterrupts\s*=\s*[^;]*;", template, child, count=1)`. -/
def subInterrupts (template child : Str) : Except Stop Str := do
  let new ← expandFrom 0 template
  match searchProperty isAlnum interrupts false child with
  | none => return child
  | some (before, _, after) => return before ++ new ++ after

/-- The interrupt of the first channel that a `compatible` names. -/
def wantedInterrupt (compatible : Str) : Option Str :=
  (dmaChannels.find? fun c => contains (quote c.1) compatible).map (·.2.interrupt)

/-- The header of a node without white space around it. -/
def headerOf (block : Str) : Str :=
  strip (block.takeWhile (· != '{'))

/-- The new text of a sub-node, if it is a channel; `byName` lists the entries of the
dictionary as they were set. -/
def fixChild (byName : List (Str × Str)) (child : Str) : Except Stop (Option Str) :=
  match propertyValue isAlnum child compatible with
  | none => .ok none
  | some value =>
      match wantedInterrupt value with
      | none => .ok none
      | some wanted =>
          match byName.reverse.lookup wanted with
          | none => .error (.exit (headerOf child ++ " wants the ".toList ++ wanted
              ++ " interrupt and the IP node does not carry one".toList))
          | some spec => do
              return some (← subInterrupts isAlnum
                ("interrupts = <".toList ++ strip spec ++ ">;".toList) child)

/-- The loop of `align_channel_interrupts` over the sub-nodes that are left. -/
def alignLoop (byName : List (Str × Str)) : List Str → Str → Except Stop Str
  | [], block => .ok block
  | child :: children, block => do
      match ← fixChild isAlnum byName child with
      | none => alignLoop byName children block
      | some fixed => alignLoop byName children (replaceAll child fixed block)

/-- `align_channel_interrupts`. -/
def alignChannelInterrupts (block : Str) : Except Stop Str := do
  let (own, children) ← splitNode block
  let names := quoted ((propertyValue isAlnum own interruptNames).getD [])
  let byName := names.zip (← interruptSpecs isAlnum own names)
  if byName = [] then return block
  alignLoop isAlnum byName children block

/-! ### The client -/

/-- `[A-Za-z_][\w-]*` at the start of a text, and what follows it. -/
def matchIdent : Str → Option (Str × Str)
  | [] => none
  | c :: t =>
      let more (c : Char) : Bool := isWord isAlnum c || c == '-'
      if isIdentStart c then some (c :: t.takeWhile more, t.dropWhile more) else none

/-- `\s*([A-Za-z_][\w-]*)\s*:` at the start of a text, and what follows it. -/
def matchLabel (t : Str) : Option (Str × Str) :=
  match matchIdent isAlnum (t.dropWhile isSpace) with
  | none => none
  | some (label, t) =>
      match t.dropWhile isSpace with
      | ':' :: after => some (label, after)
      | _ => none

/-- A block's own label. -/
def labelled (block : Str) : Option Str :=
  (matchLabel isAlnum block).map (·.1)

/-- A block is an AXI DMA. -/
def isDma (block : Str) : Bool :=
  contains "\"xlnx,axi-dma".toList ((propertyValue isAlnum block compatible).getD [])

/-- A block is the client of the stream. -/
def isClient (streamClientIp block : Str) : Bool :=
  (propertyValue isAlnum block ipName).getD [] == quote streamClientIp

/-- The channels a DMA's sub-nodes name, by ascending cell. -/
def channelsOf (children : List Str) : List DmaChannel :=
  (children.flatMap fun child =>
    (dmaChannels.filter fun c =>
      contains (quote c.1) ((propertyValue isAlnum child compatible).getD [])).map (·.2)).insertionSort
    fun c d => c.cell ≤ d.cell

/-- The two lines that go into the client. -/
def clientLines (indent label : Str) (channels : List DmaChannel) : Str :=
  "\n".toList ++ indent ++ "dmas = ".toList
    ++ join ", ".toList (channels.map fun c =>
      "<&".toList ++ label ++ " ".toList ++ (Nat.repr c.cell).toList ++ ">".toList)
    ++ ";\n".toList ++ indent ++ "dma-names = ".toList
    ++ join ", ".toList (channels.map fun c => quote c.name) ++ ";".toList

/-- The client with the two lines after its opening brace. -/
def linkClient (label : Str) (channels : List DmaChannel) (client : Str) : Except Stop Str :=
  match (splitlines client)[1]? with
  | none => .error .indexError
  | some line =>
      .ok (replaceFirst ['{'] ('{' :: clientLines (line.takeWhile isSpace) label channels) client)

/-- The client is the one node that is one, so it is recognised once more instead of by
identity. -/
def linkDmaClient (streamClientIp : Str) (nodes : List Str) : Except Stop (List Str) :=
  let dmas := nodes.filter (isDma isAlnum)
  let clients := nodes.filter (isClient isAlnum streamClientIp)
  if dmas = [] ∧ clients = [] then .ok nodes
  else
    match dmas, clients with
    | [dma], [client] =>
        match labelled isAlnum dma with
        | none => .error (.exit "the AXI DMA node carries no label to reference it by".toList)
        | some label => do
            let (_, children) ← splitNode dma
            let channels := channelsOf isAlnum children
            if channels = [] then
              .error (.exit "the AXI DMA node carries no channel sub-node to connect".toList)
            let linked ← linkClient label channels client
            return nodes.map fun b => if isClient isAlnum streamClientIp b then linked else b
    | _, _ =>
        .error (.exit ("expected one AXI DMA and one ".toList ++ streamClientIp
          ++ " to connect the stream between; found ".toList ++ (Nat.repr dmas.length).toList
          ++ " and ".toList ++ (Nat.repr clients.length).toList))

/-! ### References -/

/-- Labels the booted kernel's own device tree exports. -/
def resolvable : List Str :=
  ["amba".toList, "fpga_full".toList, "gic".toList, "zynqmp_clk".toList, "zynqmp_reset".toList]

/-- `re.findall(r"^\s*([A-Za-z_][\w-]*)\s*:", t, re.MULTILINE)`, the first `k` characters left
out, at the start of a line or not. -/
def definedFrom : ℕ → Bool → Str → List Str
  | _, _, [] => []
  | k + 1, _, c :: t => definedFrom k (c == '\n') t
  | 0, atStart, c :: t =>
      match if atStart then matchLabel isAlnum (c :: t) else none with
      | some (label, after) => label :: definedFrom (t.length - after.length) (c == '\n') t
      | none => definedFrom 0 (c == '\n') t

/-- The labels a block defines. -/
def definedIn (block : Str) : List Str :=
  definedFrom isAlnum 0 true block

/-- `re.findall(r"&([A-Za-z_][\w-]*)", t)`; a match has no other ampersand. -/
def referencedIn : Str → List Str
  | [] => []
  | c :: t =>
      if c = '&' then (((matchIdent isAlnum t).map (·.1)).toList) ++ referencedIn t
      else referencedIn t

/-- The references that resolve to nothing, sorted. -/
def unresolved (nodes : List Str) : List Str :=
  let defined := nodes.flatMap (definedIn isAlnum)
  ((nodes.flatMap (referencedIn isAlnum)).filter fun label =>
    label ∉ resolvable ∧ label ∉ defined).dedup.insertionSort (· ≤ ·)

/-! ### The script -/

/-- The text written: the firmware's name, and the nodes on the live tree's bus. -/
def render (firmware : Str) (nodes : List Str) : Str :=
  "/dts-v1/;\n/plugin/;\n\n".toList ++ "&fpga_full \x7b\n\tfirmware-name = \"".toList ++ firmware
    ++ "\";\n\x7d;\n\n".toList ++ "&amba \x7b\n\t#address-cells = <2>;\n\t#size-cells = <2>;\n\n".toList
    ++ join "\n\n".toList nodes ++ "\n\x7d;\n".toList

/-- The label of the programmable logic. -/
abbrev ambaPl : Str := "amba_pl".toList

/-- The interrupt controller as the generator refers to it. -/
abbrev imux : Str := "<&imux>".toList

/-- The same as the live tree does. -/
abbrev gic : Str := "<&gic>".toList

/-- The overlay made of the text of a generated tree. -/
def overlay (firmware streamClientIp body : Str) : Except Stop Str := do
  let nodes := childNodes (← nodeBody body ambaPl)
  if nodes.all fun block => '@' ∉ block.takeWhile (· != '{') then
    throw (.exit "no addressable nodes under amba_pl — check what the generator emitted".toList)
  let nodes := nodes.map (replaceAll imux gic)
  let nodes ← nodes.mapM (alignChannelInterrupts isAlnum)
  let nodes ← linkDmaClient isAlnum streamClientIp nodes
  if unresolved isAlnum nodes ≠ [] then
    throw (.exit ("the generated tree references labels the board's device tree does not\n".toList
      ++ "export, so the overlay would be rejected at load: ".toList
      ++ join ", ".toList (unresolved isAlnum nodes)))
  return render firmware nodes

end Overlay
