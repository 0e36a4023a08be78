import Mathlib.Data.List.Nodup
import ZynqRtlFlow.BoardNet.Script
import ZynqRtlFlow.Text.Numbers

/-!
# Hosts

The interfaces of a host with the addresses on them, and what the programs the script calls
say about them.
-/

namespace BoardNet

open Text

/-- An address. -/
structure Ip where
  a : Fin 256
  b : Fin 256
  c : Fin 256
  d : Fin 256
  deriving DecidableEq

/-- The address in dotted decimal. -/
def Ip.text (x : Ip) : Str :=
  decimal x.a ++ '.' :: (decimal x.b ++ '.' :: (decimal x.c ++ '.' :: decimal x.d))

/-- The address as a number. -/
def Ip.value (x : Ip) : ℕ :=
  ((x.a * 256 + x.b) * 256 + x.c) * 256 + x.d

/-- The address is in 169.254.0.0/16. -/
def Ip.LinkLocal (x : Ip) : Prop :=
  x.value / 65536 = 169 * 256 + 254

instance (x : Ip) : Decidable x.LinkLocal :=
  inferInstanceAs (Decidable (_ = _))

/-- An address on an interface with the length of its prefix, the address at the other end of
the link if it is shown, and the metric of its route if it has one. -/
structure Address where
  ip : Ip
  len : Fin 33
  peer : Option Ip := none
  metric : Option ℕ := none
  deriving DecidableEq

namespace Address

/-- The addresses that are shown. -/
def ips (x : Address) : List Ip :=
  x.ip :: x.peer.toList

/-- The words that are shown with the addresses. -/
def extras (x : Address) : List Str :=
  (x.peer.map fun _ => "peer".toList).toList
    ++ (x.metric.elim [] fun n => ["metric".toList, decimal n])

/-- The words an address is shown by: the prefix comes after the last of the addresses. -/
def words (x : Address) : List Str :=
  (match x.peer with
    | none => [x.ip.text ++ '/' :: decimal x.len]
    | some peer => [x.ip.text, "peer".toList, peer.text ++ '/' :: decimal x.len])
    ++ (x.metric.elim [] fun n => ["metric".toList, decimal n])

end Address

/-- An interface, which may be shown with a peer. -/
structure Interface where
  name : Str
  peer : Option Str
  state : Str
  addresses : List Address
  ne_nil : name ≠ [] := by decide
  noAt : '@' ∉ name := by decide
  deriving DecidableEq

/-- The fields of an interface's line. -/
def Interface.row (x : Interface) : List Str :=
  (x.name ++ (x.peer.map ('@' :: ·)).getD []) :: x.state :: x.addresses.flatMap Address.words

/-- The interfaces of a host, no two of one name. -/
structure Host where
  interfaces : List Interface
  distinct : (interfaces.map Interface.name).Nodup

/-- What the programs do on a host: `ip` lists every interface with an address, and maybe
others; asked for one by name it shows that line, or nothing if there is no address on it;
asked for a name no interface has it fails, unless the name is a word it reserves; and
`grep` takes the name of an interface for a line. -/
structure Serves (tools : Tools) (host : Host) (reserved : Str → Prop) : Prop where
  all : ∃ (listed : Interface → Bool) (lines : List Str),
    (∀ x ∈ host.interfaces, x.addresses ≠ [] → listed x = true) ∧ tools.addrShow none = some lines
      ∧ lines.map fields = (host.interfaces.filter listed).map Interface.row
  one : ∀ x ∈ host.interfaces, ∃ lines, tools.addrShow (some x.name) = some lines
    ∧ (lines.map fields = [x.row] ∨ x.addresses = [] ∧ lines = [])
  link : ∀ x ∈ host.interfaces, tools.linkShow x.name = true
  absent : ∀ name, ¬ reserved name → (∀ x ∈ host.interfaces, x.name ≠ name) →
    tools.addrShow (some name) = none ∧ tools.linkShow name = false
  grep : ∀ x ∈ host.interfaces, ∀ lines, tools.grep x.name lines = true ↔ x.name ∈ lines

/-! ### The programs on a host -/

/-- What the characters after a backslash stand for in the value of `-v`, and how many they
are. -/
def awkEscape : Str → Char × ℕ
  | [] => ('\\', 0)
  | c :: t =>
      let octal := ((c :: t).take 3).takeWhile (isDigitOf 8)
      let hex := (t.take 2).takeWhile (isDigitOf 16)
      if octal ≠ [] then (Char.ofNat (ofDigits 8 octal % 256), octal.length)
      else if c = 'x' ∧ hex ≠ [] then (Char.ofNat (ofDigits 16 hex), 1 + hex.length)
      else
        match ['a', 'b', 'f', 'n', 'r', 't', 'v'].idxOf? c with
        | some k => (['\x07', '\x08', '\x0C', '\n', '\r', '\t', '\x0B'].getD k ' ', 1)
        | none => (c, 1)

/-- The value of `-v` with its escapes expanded, the first `k` characters left out. -/
def awkValueFrom : ℕ → Str → Str
  | _, [] => []
  | k + 1, _ :: t => awkValueFrom k t
  | 0, c :: t =>
      if c = '\\' then (awkEscape t).1 :: awkValueFrom (awkEscape t).2 t
      else c :: awkValueFrom 0 t

/-- The value of `-v` with its escapes expanded. -/
def awkValue (t : Str) : Str :=
  awkValueFrom 0 t

/-- The line of an interface. -/
def Interface.line (x : Interface) : Str :=
  join [' '] x.row

/-- The programs on a host where every change succeeds, no list is too long for a pipe and no
board answers; what is no number is compared as text. -/
def Host.tools (host : Host) : Tools where
  addrShow
    | none => some (host.interfaces.map Interface.line)
    | some name => (host.interfaces.find? fun x => x.name = name).map fun x => [x.line]
  linkShow name := host.interfaces.any fun x => x.name = name
  assign := awkValue
  same field value := field = value
  grep name lines := lines.any fun line => line = name
  drained _ _ := true
  change _ := 0
  ping _ := false

theorem Host.addrShow_tools (host : Host) (name : Str) :
  host.tools.addrShow (some name)
    = (host.interfaces.find? fun x => x.name = name).map fun x => [x.line]
  := rfl

theorem Host.eq_of_name (host : Host) {x y : Interface} (hx : x ∈ host.interfaces)
    (hy : y ∈ host.interfaces) (h : x.name = y.name) :
  x = y
  := List.inj_on_of_nodup_map host.distinct hx hy h

theorem Host.serves (host : Host) (hlines : ∀ x ∈ host.interfaces, fields x.line = x.row) :
  Serves host.tools host fun _ => False
  := by
  have hfind : ∀ x ∈ host.interfaces, host.interfaces.find? (fun y => y.name = x.name) = some x := by
    intro x hx
    cases hfound : host.interfaces.find? (fun y => y.name = x.name) with
    | none => cases List.find?_eq_none.mp hfound x hx (by simp)
    | some y =>
        rw [host.eq_of_name (List.mem_of_find?_eq_some hfound) hx]
        simpa using List.find?_some hfound
  constructor
  · use fun _ => true, host.interfaces.map Interface.line
    constructor
    · intro x _ _
      rfl
    · use rfl
      rw [List.filter_true, List.map_map]
      apply List.map_congr_left hlines
  · intro x hx
    use [x.line]
    constructor
    · rw [addrShow_tools, hfind x hx, Option.map_some]
    · left
      rw [List.map_singleton, hlines x hx]
  · intro x hx
    apply List.any_eq_true.mpr
    use x, hx
    simp
  · intro name _ hname
    constructor
    · rw [addrShow_tools, List.find?_eq_none.mpr, Option.map_none]
      simpa using hname
    · apply List.any_eq_false.mpr
      simpa using hname
  · intro x _ lines
    simp [tools]

/-! ### Addresses -/

theorem notMem_decimal {c : Char} (hc : c.isDigit = false) (n : ℕ) :
  c ∉ decimal n
  := by
  intro hmem
  cases hc.symm.trans (isDigit_of_mem_decimal hmem)

theorem decimal_inj {m n : ℕ} :
  decimal m = decimal n ↔ m = n
  := by
  constructor
  · intro h
    rw [← ofDigits_decimal m, h, ofDigits_decimal]
  · rintro rfl
    rfl

theorem beforeSlash_of_notMem {t : Str} (h : '/' ∉ t) :
  beforeSlash t = t
  := by
  apply List.takeWhile_eq_self_iff.mpr
  intro c hc
  rw [bne_iff_ne]
  rintro rfl
  apply h hc

theorem Ip.slash_notMem (x : Ip) :
  '/' ∉ x.text
  := by simp [text, notMem_decimal]

/-- What is shown before the length of a prefix. -/
theorem Ip.beforeSlash_text (x : Ip) (len : Str) :
  beforeSlash (x.text ++ '/' :: len) = x.text
  := by
  have hslash : ∀ c ∈ x.text, c != '/' := by
    intro c hc
    rw [bne_iff_ne]
    rintro rfl
    apply x.slash_notMem hc
  rw [beforeSlash, List.takeWhile_append_of_pos hslash]
  simp

/-- An address begins with the first two octets of the kernel's own exactly if it is one of
them. -/
theorem Ip.linkLocal_prefix (x : Ip) :
  linkLocal <+: x.text ↔ x.LinkLocal
  := by
  have hvalue : x.LinkLocal ↔ (x.a : ℕ) = 169 ∧ (x.b : ℕ) = 254 := by
    have ha := x.a.isLt
    have hb := x.b.isLt
    have hc := x.c.isLt
    have hd := x.d.isLt
    rw [LinkLocal, value]
    omega
  have hown : linkLocal = decimal 169 ++ '.' :: (decimal 254 ++ ['.']) := by decide
  rw [hvalue, ← decimal_inj, ← decimal_inj, hown]
  constructor
  · rintro ⟨t, ht⟩
    rw [text, List.append_assoc, List.cons_append, List.append_assoc, List.singleton_append] at ht
    have hdot := notMem_decimal (c := '.') rfl
    obtain ⟨ha, -, ht⟩ := append_cons_cancel (hdot x.a) (hdot 169) ht
    obtain ⟨hb, -, -⟩ := append_cons_cancel (hdot x.b) (hdot 254) ht
    use ha.symm, hb.symm
  · rintro ⟨ha, hb⟩
    use decimal x.c ++ '.' :: decimal x.d
    rw [text, ha, hb]
    simp

namespace Address

/-- The words of a metric are no longer before a slash than they are. -/
theorem map_beforeSlash_metric (metric : Option ℕ) :
  (metric.elim [] fun n => ["metric".toList, decimal n]).map beforeSlash
    = metric.elim [] fun n => ["metric".toList, decimal n]
  := by
  cases metric with
  | none => rfl
  | some n =>
      have hword : beforeSlash "metric".toList = "metric".toList := by decide
      have hnumber : beforeSlash (decimal n) = decimal n :=
        beforeSlash_of_notMem (notMem_decimal rfl n)
      simp only [Option.elim_some, List.map_cons, List.map_nil, hword, hnumber]

/-- What the scans make of the words of an address: the addresses, and the other words. -/
theorem mem_map_words (x : Address) (w : Str) :
  w ∈ x.words.map beforeSlash ↔ (∃ ip ∈ x.ips, ip.text = w) ∨ w ∈ x.extras
  := by
  rw [words, List.map_append, map_beforeSlash_metric]
  cases hpeer : x.peer with
  | none => simp [ips, extras, hpeer, Ip.beforeSlash_text, eq_comm]
  | some peer =>
      have hword : beforeSlash "peer".toList = "peer".toList := by decide
      simp only [ips, extras, hpeer, List.map_cons, List.map_nil, hword, Ip.beforeSlash_text,
        beforeSlash_of_notMem x.ip.slash_notMem]
      simp only [List.mem_append, List.mem_cons, List.not_mem_nil, Option.toList_some,
        Option.map_some, or_false, exists_eq_or_imp, exists_eq_left, eq_comm (a := w)]
      tauto

theorem words_ne_nil {x : Address} {w : Str} (hw : w ∈ x.words) :
  w ≠ []
  := by
  rintro rfl
  have hmetric : [] ∉ x.metric.elim [] fun n => ["metric".toList, decimal n] := by
    cases x.metric with
    | none => simp
    | some n => simp [(decimal_ne_nil n).symm]
  obtain hw | hw := List.mem_append.mp hw
  · cases hpeer : x.peer with
    | none => simp [hpeer] at hw
    | some peer => simp [hpeer, Ip.text] at hw
  · apply hmetric hw

/-- The other words are no addresses of the kernel's own. -/
theorem not_linkLocal_of_mem_extras {x : Address} {w : Str} (hw : w ∈ x.extras) :
  ¬ linkLocal <+: w
  := by
  intro hprefix
  have hdot : '.' ∈ w := hprefix.subset (by decide)
  obtain hw | hw := List.mem_append.mp hw
  · obtain ⟨_, -, rfl⟩ := Option.map_eq_some_iff.mp (Option.mem_toList.mp hw)
    revert hdot
    decide
  · cases hmetric : x.metric with
    | none =>
        rw [hmetric] at hw
        cases hw
    | some n =>
        rw [hmetric, Option.elim_some, List.mem_pair] at hw
        obtain rfl | rfl := hw
        · revert hdot
          decide
        · apply notMem_decimal rfl n hdot

end Address

end BoardNet
