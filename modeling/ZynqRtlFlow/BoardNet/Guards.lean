import ZynqRtlFlow.BoardNet.Host

/-!
# The board link only

A run changes an interface exactly if the addresses on it are those of the board link, and
it is the one that is meant, when the scans see the interfaces as they are.  They take every
word after an interface's state for an address, and compare it with what `awk` makes of
`HOST_IP`.
-/

namespace BoardNet

open Text

variable {tools : Tools} {host : Host} {reserved : Str → Prop} {env : Env}

/-- The address is `HOST_IP`. -/
def Address.IsHost (env : Env) (a : Address) : Prop :=
  a.ip.text = env.hostIp

instance (env : Env) (a : Address) : Decidable (a.IsHost env) :=
  inferInstanceAs (Decidable (_ = _))

/-- Nothing is on the interface but `HOST_IP` and the kernel's own addresses. -/
def Unshared (env : Env) (x : Interface) : Prop :=
  ∀ a ∈ x.addresses, a.IsHost env ∨ a.ip.LinkLocal

instance (env : Env) (x : Interface) : Decidable (Unshared env x) :=
  inferInstanceAs (Decidable (∀ a ∈ x.addresses, _))

/-- `HOST_IP` is on the interface. -/
def Carries (env : Env) (x : Interface) : Prop :=
  ∃ a ∈ x.addresses, a.IsHost env

instance (env : Env) (x : Interface) : Decidable (Carries env x) :=
  inferInstanceAs (Decidable (∃ a ∈ x.addresses, _))

/-- The interface is the one a mode is about: to be brought up, the one that is named; to be
torn down, one with `HOST_IP` on it that is named, or the only one if none is. -/
def Meant (host : Host) (env : Env) (x : Interface) : Mode → Prop
  | .up => env.nic = x.name
  | .down =>
      Carries env x
        ∧ (env.nic = x.name ∨ env.nic = [] ∧ ∀ y ∈ host.interfaces, Carries env y → y = x)

instance (host : Host) (env : Env) (x : Interface) : (mode : Mode) → Decidable (Meant host env x mode)
  | .up => inferInstanceAs (Decidable (_ = _))
  | .down => inferInstanceAs (Decidable (_ ∧ (_ ∨ _ ∧ ∀ y ∈ host.interfaces, _ → _)))

/-- A run has a change of the device. -/
def Run.Touches (r : Run) (dev : Str) : Prop :=
  ∃ c, Effect.command c ∈ r.effects ∧ c.device = dev

/-- The run changes an interface exactly if nothing but the board link's addresses is on it
and it is the one that is meant; and it changes nothing else. -/
structure TouchesBoardLinkOnly (host : Host) (reserved : Str → Prop) (env : Env) (mode : Mode)
    (r : Run) : Prop where
  meant : ∀ x ∈ host.interfaces, r.Touches x.name ↔ Unshared env x ∧ Meant host env x mode
  only : ¬ reserved env.nic → ∀ dev, r.Touches dev → ∃ x ∈ host.interfaces, x.name = dev

/-- `awk` says of the words of an interface that they are `HOST_IP` exactly if they are an
address, and that one. -/
structure Interface.Legible (tools : Tools) (env : Env) (x : Interface) : Prop where
  ips : ∀ a ∈ x.addresses, ∀ ip ∈ a.ips,
    tools.same ip.text (tools.assign env.hostIp) = true ↔ ip.text = env.hostIp
  extras : ∀ a ∈ x.addresses, ∀ w ∈ a.extras, tools.same w (tools.assign env.hostIp) = false

/-- The interfaces that are looked at are legible. -/
def Legible (tools : Tools) (host : Host) (env : Env) (mode : Mode) : Prop :=
  ∀ x ∈ host.interfaces, (mode = .up → env.nic = x.name) → x.Legible tools env

/-- `HOST_IP` is among the addresses shown for the interface. -/
def Shows (env : Env) (x : Interface) : Prop :=
  ∃ a ∈ x.addresses, ∃ ip ∈ a.ips, ip.text = env.hostIp

instance (env : Env) (x : Interface) : Decidable (Shows env x) :=
  inferInstanceAs (Decidable (∃ a ∈ x.addresses, _))

/-- Nothing but addresses is shown for the interface. -/
def Interface.Bare (x : Interface) : Prop :=
  ∀ a ∈ x.addresses, a.extras = []

instance (x : Interface) : Decidable x.Bare :=
  inferInstanceAs (Decidable (∀ a ∈ x.addresses, _))

/-- The names of the interfaces `HOST_IP` is shown for. -/
def Host.showing (host : Host) (env : Env) : List Str :=
  (host.interfaces.filter fun x => Shows env x).map Interface.name

/-- Nothing keeps a mode from the interface: it has neither a peer nor a metric beside an
address; and to be torn down, it is found before the list is cut off if it is named, and if
none is named `HOST_IP` is shown for no other, as a peer. -/
def Unhindered (tools : Tools) (host : Host) (env : Env) (x : Interface) : Mode → Prop
  | .up => x.Bare
  | .down =>
      x.Bare ∧ if env.nic = [] then ∀ y ∈ host.interfaces, Shows env y → y = x
        else tools.drained x.name (host.showing env) = true

instance (tools : Tools) (host : Host) (env : Env) (x : Interface) :
    (mode : Mode) → Decidable (Unhindered tools host env x mode)
  | .up => inferInstanceAs (Decidable x.Bare)
  | .down =>
      inferInstanceAs (Decidable (_ ∧ if env.nic = [] then ∀ y ∈ host.interfaces, _ → _ else _ = _))

/-! ### What the guards read -/

theorem Interface.drop_row (x : Interface) :
  x.row.drop 2 = x.addresses.flatMap Address.words
  := rfl

/-- `awk` finds what it looks for among the words of an address exactly if it finds it among
the addresses or the other words. -/
theorem Address.exists_word_iff (a : Address) (p : Str → Prop) :
  (∃ w ∈ a.words, p (beforeSlash w)) ↔ (∃ ip ∈ a.ips, p ip.text) ∨ ∃ w ∈ a.extras, p w
  := by
  constructor
  · rintro ⟨w, hw, hp⟩
    obtain ⟨ip, hip, heq⟩ | hextra := (a.mem_map_words _).mp (List.mem_map_of_mem hw)
    · left
      use ip, hip
      rw [heq]
      apply hp
    · right
      use beforeSlash w, hextra
  · rintro (⟨ip, hip, hp⟩ | ⟨w, hw, hp⟩)
    · obtain ⟨w, hw, heq⟩ := List.mem_map.mp ((a.mem_map_words ip.text).mpr (.inl ⟨ip, hip, rfl⟩))
      use w, hw
      rw [heq]
      apply hp
    · obtain ⟨w', hw', heq⟩ := List.mem_map.mp ((a.mem_map_words w).mpr (.inr hw))
      use w', hw'
      rw [heq]
      apply hp

theorem Address.forall_word_iff (a : Address) (p : Str → Prop) :
  (∀ w ∈ a.words, p (beforeSlash w)) ↔ (∀ ip ∈ a.ips, p ip.text) ∧ ∀ w ∈ a.extras, p w
  := by
  have h := not_congr (a.exists_word_iff fun w => ¬ p w)
  push Not at h
  apply h

theorem Address.ips_of_bare {a : Address} (h : a.extras = []) :
  a.ips = [a.ip]
  := by
  rw [extras, List.append_eq_nil_iff, Option.toList_eq_nil_iff, Option.map_eq_none_iff] at h
  rw [ips, h.1, Option.toList_none]

/-- No word of an interface is foreign exactly if nothing is on it but the board link's
addresses, and nothing but addresses is shown for it. -/
theorem Interface.no_foreign_iff {x : Interface} (h : x.Legible tools env) :
  (∀ w ∈ x.addresses.flatMap Address.words,
      ¬ (tools.same (beforeSlash w) (tools.assign env.hostIp) = false ∧ ¬ linkLocal <+: beforeSlash w))
    ↔ Unshared env x ∧ x.Bare
  := by
  have hword (a : Address) (ha : a ∈ x.addresses) :
      (∀ w ∈ a.words, ¬ (tools.same (beforeSlash w) (tools.assign env.hostIp) = false
          ∧ ¬ linkLocal <+: beforeSlash w))
        ↔ (a.IsHost env ∨ a.ip.LinkLocal) ∧ a.extras = [] := by
    rw [a.forall_word_iff fun w =>
      ¬ (tools.same w (tools.assign env.hostIp) = false ∧ ¬ linkLocal <+: w)]
    constructor
    · rintro ⟨hips, hextras⟩
      have hbare : a.extras = [] := by
        apply List.eq_nil_iff_forall_not_mem.mpr
        intro w hw
        apply hextras w hw
        use h.extras a ha w hw
        apply Address.not_linkLocal_of_mem_extras hw
      refine ⟨?_, hbare⟩
      have hip := hips a.ip List.mem_cons_self
      rw [not_and_or, not_not, Bool.not_eq_false, h.ips a ha a.ip List.mem_cons_self,
        Ip.linkLocal_prefix] at hip
      apply hip
    · rintro ⟨hip, hbare⟩
      constructor
      · rw [Address.ips_of_bare hbare, List.forall_mem_singleton, not_and_or, not_not,
          Bool.not_eq_false, h.ips a ha a.ip List.mem_cons_self, Ip.linkLocal_prefix]
        apply hip
      · rw [hbare]
        intro w hw
        cases hw
  rw [List.forall_mem_flatMap, Unshared, Bare, ← forall₂_and]
  apply forall₂_congr
  intro a ha
  apply hword a ha

/-- The addresses on an interface that are not the board link's. -/
theorem foreignAddrs_eq (hserves : Serves tools host reserved) {x : Interface}
    (hx : x ∈ host.interfaces) (hlegible : x.Legible tools env) :
  ∃ found, foreignAddrs tools env x.name = some found ∧ (∀ f ∈ found, f ≠ [])
    ∧ (found = [] ↔ Unshared env x ∧ x.Bare)
  := by
  obtain ⟨lines, hshow, hlines⟩ := hserves.one x hx
  have hfound : foreignAddrs tools env x.name
      = some ((x.addresses.flatMap Address.words).filter fun field =>
          tools.same (beforeSlash field) (tools.assign env.hostIp) = false
            ∧ ¬ linkLocal <+: beforeSlash field) := by
    rw [foreignAddrs, hshow]
    obtain hrow | ⟨haddresses, rfl⟩ := hlines
    · obtain ⟨line, rfl, hline⟩ := List.map_eq_singleton_iff.mp hrow
      simp [hline, x.drop_row]
    · simp [haddresses]
  use (x.addresses.flatMap Address.words).filter fun field =>
    tools.same (beforeSlash field) (tools.assign env.hostIp) = false
      ∧ ¬ linkLocal <+: beforeSlash field
  use hfound
  constructor
  · intro f hf
    obtain ⟨a, -, hword⟩ := List.mem_flatMap.mp (List.mem_of_mem_filter hf)
    apply Address.words_ne_nil hword
  · rw [List.filter_eq_nil_iff, ← Interface.no_foreign_iff hlegible]
    simp only [decide_eq_true_eq]

/-- The guard lets the script go on exactly if nothing else is on the interface, nor shown
for it. -/
theorem assertNotShared_eq_none (hserves : Serves tools host reserved) {x : Interface}
    (hx : x ∈ host.interfaces) (hlegible : x.Legible tools env) (refusal : Str) :
  assertNotShared tools env x.name refusal = none ↔ Unshared env x ∧ x.Bare
  := by
  obtain ⟨found, hfound, hne, hiff⟩ := foreignAddrs_eq hserves hx hlegible
  have hjoin : join ['\n'] found = [] ↔ found = [] := join_eq_nil hne
  rw [assertNotShared, hfound, ← hiff, ← hjoin]
  simp only
  split
  next h => simp [h]
  next h => simp [h]

theorem Interface.takeWhile_row (x : Interface) :
  (x.row.headD []).takeWhile (· != '@') = x.name
  := by
  have hname : ∀ c ∈ x.name, c != '@' := by
    intro c hc
    rw [bne_iff_ne]
    rintro rfl
    apply x.noAt hc
  rw [row, List.headD_cons, List.takeWhile_append_of_pos hname]
  cases x.peer with
  | none => simp
  | some peer => simp

theorem Interface.any_row {x : Interface} (h : x.Legible tools env) :
  ((x.row.drop 2).any fun field => tools.same (beforeSlash field) (tools.assign env.hostIp)) = true
    ↔ Shows env x
  := by
  rw [drop_row, List.any_eq_true]
  simp only [List.mem_flatMap, ← exists_and_right]
  constructor
  · rintro ⟨w, a, ⟨ha, hw⟩, hsame⟩
    have hword := (a.exists_word_iff fun w => tools.same w (tools.assign env.hostIp) = true).mp
      ⟨w, hw, hsame⟩
    obtain ⟨ip, hip, hsame⟩ | ⟨w, hw, hsame⟩ := hword
    · use a, ha, ip, hip
      apply (h.ips a ha ip hip).mp hsame
    · rw [h.extras a ha w hw] at hsame
      cases hsame
  · rintro ⟨a, ha, ip, hip, heq⟩
    have hsame := (h.ips a ha ip hip).mpr heq
    obtain ⟨w, hw, hsame⟩ := (a.exists_word_iff fun w =>
      tools.same w (tools.assign env.hostIp) = true).mpr (.inl ⟨ip, hip, hsame⟩)
    use w, a, ⟨ha, hw⟩

/-- The name a line gives away, if `HOST_IP` is in it. -/
def carrier (tools : Tools) (env : Env) (row : List Str) : Option Str :=
  if (row.drop 2).any fun field => tools.same (beforeSlash field) (tools.assign env.hostIp) then
    some ((row.headD []).takeWhile (· != '@'))
  else none

theorem carrier_row {x : Interface} (h : x.Legible tools env) :
  carrier tools env x.row = if Shows env x then some x.name else none
  := by
  rw [carrier, x.takeWhile_row]
  simp only [Interface.any_row h]

/-- Of the interfaces that are listed, the names of those `HOST_IP` is shown for. -/
theorem filterMap_carrier {listed : Interface → Bool} {interfaces : List Interface}
    (hlegible : ∀ x ∈ interfaces, x.Legible tools env)
    (hlisted : ∀ x ∈ interfaces, Shows env x → listed x = true) :
  ((interfaces.filter listed).map Interface.row).filterMap (carrier tools env)
    = (interfaces.filter fun x => Shows env x).map Interface.name
  := by
  induction interfaces with
  | nil => rfl
  | cons x interfaces ih =>
      obtain ⟨hx, hinterfaces⟩ := List.forall_mem_cons.mp hlisted
      obtain ⟨hlegible, hrest⟩ := List.forall_mem_cons.mp hlegible
      have hrest := ih hrest hinterfaces
      have hrow := carrier_row hlegible
      by_cases hshows : Shows env x
      · rw [if_pos hshows] at hrow
        rw [List.filter_cons_of_pos (hx hshows), List.filter_cons_of_pos (by simpa using hshows),
          List.map_cons, List.filterMap_cons_some hrow, hrest, List.map_cons]
      · rw [if_neg hshows] at hrow
        rw [List.filter_cons_of_neg (a := x) (p := fun x => decide (Shows env x))
          (by simpa using hshows)]
        cases hlist : listed x with
        | false => rw [List.filter_cons_of_neg (by simp [hlist]), hrest]
        | true =>
            rw [List.filter_cons_of_pos hlist, List.map_cons, List.filterMap_cons_none hrow, hrest]

/-- The names of the interfaces `HOST_IP` is shown for. -/
theorem nicsCarryingHostAddr_eq (hserves : Serves tools host reserved)
    (hlegible : ∀ x ∈ host.interfaces, x.Legible tools env) :
  nicsCarryingHostAddr tools env = some (host.showing env)
  := by
  obtain ⟨listed, lines, hlisted, hshow, hlines⟩ := hserves.all
  have hshowing : ∀ x ∈ host.interfaces, Shows env x → listed x = true := by
    rintro x hx ⟨a, ha, -⟩
    apply hlisted x hx (List.ne_nil_of_mem ha)
  rw [Host.showing, ← filterMap_carrier hlegible hshowing, ← hlines, List.filterMap_map,
    nicsCarryingHostAddr, hshow]
  rfl

/-! ### Runs -/

namespace Run

variable {effects : List Effect} {exit : ℕ} {dev : Str}

@[simp]
theorem touches_nil :
  ¬ Touches ⟨[], exit⟩ dev
  := by
  rintro ⟨c, hc, -⟩
  cases hc

@[simp]
theorem touches_out (text : Str) :
  Touches ⟨.out text :: effects, exit⟩ dev ↔ Touches ⟨effects, exit⟩ dev
  := by simp [Touches]

@[simp]
theorem touches_err (text : Str) :
  Touches ⟨.err text :: effects, exit⟩ dev ↔ Touches ⟨effects, exit⟩ dev
  := by simp [Touches]

@[simp]
theorem touches_command (c : Command) :
  Touches ⟨.command c :: effects, exit⟩ dev ↔ c.device = dev ∨ Touches ⟨effects, exit⟩ dev
  := by
  constructor
  · rintro ⟨d, hd, rfl⟩
    obtain hd | hd := List.mem_cons.mp hd
    · cases hd
      left
      rfl
    · right
      use d, hd
  · rintro (rfl | ⟨d, hd, rfl⟩)
    · use c, List.mem_cons_self
    · use d, List.mem_cons_of_mem _ hd

end Run

/-- Where the guard stops the script nothing has been changed. -/
theorem not_touches_of_stopped {nic refusal : Str} {stopped : Run}
    (h : assertNotShared tools env nic refusal = some stopped) (dev : Str) :
  ¬ stopped.Touches dev
  := by
  rw [assertNotShared] at h
  split at h
  next =>
    obtain rfl := Option.some.inj h
    simp only [Run.touches_err, Run.touches_nil, not_false_eq_true]
  next =>
    simp only at h
    split at h
    next => cases h
    next =>
      obtain rfl := Option.some.inj h
      simp only [Run.touches_err, Run.touches_nil, not_false_eq_true]

/-- Two commands in turn touch the device they are both about. -/
theorem touches_inTurn (tools : Tools) {c d : Command} {nic : Str} (hc : c.device = nic)
    (hd : d.device = nic) {r : Run} {dev : Str} (hr : ¬ r.Touches dev) :
  (inTurn tools [c, d] r).Touches dev ↔ nic = dev
  := by
  have hsecond : (inTurn tools [d] r).Touches dev ↔ nic = dev := by
    rw [inTurn]
    split
    next => rw [Run.touches_command, hd, inTurn, or_iff_left hr]
    next => rw [Run.touches_command, hd, or_iff_left Run.touches_nil]
  rw [inTurn]
  split
  next => rw [Run.touches_command, hc, hsecond, or_self]
  next => rw [Run.touches_command, hc, or_iff_left Run.touches_nil]

theorem tearDown_touches (nic dev : Str) :
  (tearDown tools env nic).Touches dev
    ↔ assertNotShared tools env nic "refusing to tear it down".toList = none ∧ nic = dev
  := by
  rw [tearDown]
  cases hguard : assertNotShared tools env nic "refusing to tear it down".toList with
  | some stopped =>
      constructor
      · intro h
        cases not_touches_of_stopped hguard dev h
      · rintro ⟨h, -⟩
        cases h
  | none =>
      have hflush : (Command.addrFlush nic).device = nic := rfl
      have hdown : (Command.linkDown nic).device = nic := rfl
      rw [and_iff_right rfl]
      apply touches_inTurn tools hflush hdown
      simp only [Run.touches_out, Run.touches_nil, not_false_eq_true]

theorem not_touches_expectBoard (exit : ℕ) (dev : Str) :
  ¬ Run.Touches ⟨expectBoard tools env, exit⟩ dev
  := by
  rw [expectBoard, Run.touches_out]
  split
  next => simp only [Run.touches_out, Run.touches_nil, not_false_eq_true]
  next => simp only [Run.touches_out, Run.touches_nil, not_false_eq_true]

theorem up_touches (dev : Str) :
  (up tools env).Touches dev
    ↔ env.nic ≠ [] ∧ tools.linkShow env.nic = true
      ∧ assertNotShared tools env env.nic "refusing to reconfigure it".toList = none ∧ env.nic = dev
  := by
  rw [up]
  split
  next hnic => simp only [hnic, Run.touches_err, Run.touches_nil, ne_eq, not_true, false_and]
  next hnic =>
    rw [and_iff_right hnic]
    split
    next hlink => simp only [hlink, Run.touches_err, Run.touches_nil, Bool.false_eq_true, false_and]
    next hlink =>
      rw [and_iff_right (not_not.mp hlink)]
      cases hguard : assertNotShared tools env env.nic "refusing to reconfigure it".toList with
      | some stopped =>
          constructor
          · intro h
            cases not_touches_of_stopped hguard dev h
          · rintro ⟨h, -⟩
            cases h
      | none =>
          have hup : (Command.linkUp env.nic).device = env.nic := rfl
          have hreplace : (Command.addrReplace env.hostAddr env.nic).device = env.nic := rfl
          rw [and_iff_right rfl]
          apply touches_inTurn tools hup hreplace
          rw [Run.touches_out]
          apply not_touches_expectBoard

/-- With a name the link that has it is torn down, once it is found to carry `HOST_IP`. -/
theorem down_touches_named (hnic : env.nic ≠ []) (dev : Str) :
  (down tools env).Touches dev
    ↔ carriesHostAddr tools env env.nic = true
      ∧ assertNotShared tools env env.nic "refusing to tear it down".toList = none ∧ env.nic = dev
  := by
  rw [down, if_neg hnic]
  split
  next hfound => rw [tearDown_touches, and_iff_right hfound]
  next hfound => simp only [hfound, Run.touches_err, Run.touches_nil, Bool.false_eq_true, false_and]

/-- Without a name the one link found to carry `HOST_IP` is torn down. -/
theorem down_touches_unnamed (hnic : env.nic = []) (dev : Str) :
  (down tools env).Touches dev
    ↔ (nicsCarryingHostAddr tools env).getD [] = [dev]
      ∧ assertNotShared tools env dev "refusing to tear it down".toList = none
  := by
  rw [down, if_pos hnic]
  split
  next hfound => simp [hfound]
  next nic hfound =>
    rw [tearDown_touches, hfound, List.singleton_inj, and_comm]
    constructor
    · rintro ⟨rfl, hguard⟩
      use rfl
    · rintro ⟨rfl, hguard⟩
      use rfl
  next hnil hsingle =>
    simp only [Run.touches_err, Run.touches_nil, false_iff]
    rintro ⟨hfound, -⟩
    apply hsingle dev hfound

/-! ### The interface that is meant -/

theorem Carries.shows {x : Interface} (h : Carries env x) :
  Shows env x
  := by
  obtain ⟨a, ha, hhost⟩ := h
  use a, ha, a.ip, List.mem_cons_self, hhost

/-- For a bare interface no address is shown that is not on it. -/
theorem Interface.Bare.shows_iff {x : Interface} (h : x.Bare) :
  Shows env x ↔ Carries env x
  := by
  constructor
  · rintro ⟨a, ha, ip, hip, heq⟩
    rw [Address.ips_of_bare (h a ha), List.mem_singleton] at hip
    use a, ha
    rw [Address.IsHost, ← hip, heq]
  · apply Carries.shows

theorem mem_showing_iff {x : Interface} (hx : x ∈ host.interfaces) :
  x.name ∈ host.showing env ↔ Shows env x
  := by
  rw [Host.showing, List.mem_map]
  constructor
  · rintro ⟨y, hy, hname⟩
    obtain ⟨hmem, hshows⟩ := List.mem_filter.mp hy
    rw [← host.eq_of_name hmem hx hname]
    simpa using hshows
  · intro h
    use x
    simp [hx, h]

/-- An interface is the only one found exactly if it is the only one `HOST_IP` is shown
for. -/
theorem showing_eq_singleton_iff {x : Interface} (hx : x ∈ host.interfaces) :
  host.showing env = [x.name] ↔ Shows env x ∧ ∀ y ∈ host.interfaces, Shows env y → y = x
  := by
  have hnodup := (List.Nodup.of_map _ host.distinct).filter fun y => Shows env y
  constructor
  · intro h
    constructor
    · rw [← mem_showing_iff hx, h]
      apply List.mem_singleton_self
    · intro y hy hshows
      have hname := (mem_showing_iff hy).mpr hshows
      rw [h] at hname
      apply host.eq_of_name hy hx (List.mem_singleton.mp hname)
  · rintro ⟨hshows, honly⟩
    have hfilter : (host.interfaces.filter fun y => Shows env y) = [x] := by
      by_contra hne
      obtain hnil | ⟨y, hy, hne⟩ := (hnodup.ne_singleton_iff x).mp hne
      · have hmem := (mem_showing_iff hx).mpr hshows
        rw [Host.showing, hnil] at hmem
        cases hmem
      · obtain ⟨hmem, hy⟩ := List.mem_filter.mp hy
        apply hne (honly y hmem (by simpa using hy))
    rw [Host.showing, hfilter, List.map_singleton]

/-- A run that tears down changes an interface exactly if nothing but the board link's
addresses is on it, it is the one that is meant, and nothing keeps the script from it. -/
theorem down_touches_iff (hserves : Serves tools host reserved)
    (hlegible : ∀ x ∈ host.interfaces, x.Legible tools env) {x : Interface}
    (hx : x ∈ host.interfaces) :
  (down tools env).Touches x.name
    ↔ Unshared env x ∧ Meant host env x .down ∧ Unhindered tools host env x .down
  := by
  have hfound := nicsCarryingHostAddr_eq hserves hlegible
  have hguard := assertNotShared_eq_none hserves hx (hlegible x hx) "refusing to tear it down".toList
  by_cases hnic : env.nic = []
  · have hmeant : Meant host env x .down
        ↔ Carries env x ∧ ∀ y ∈ host.interfaces, Carries env y → y = x := by
      simp [Meant, hnic, x.ne_nil.symm]
    rw [down_touches_unnamed hnic, hfound, Option.getD_some, showing_eq_singleton_iff hx, hguard,
      hmeant, Unhindered, if_pos hnic]
    constructor
    · rintro ⟨⟨hshows, honly⟩, hunshared, hbare⟩
      use hunshared
      constructor
      · use hbare.shows_iff.mp hshows
        intro y hy hcarries
        apply honly y hy hcarries.shows
      · use hbare, honly
    · rintro ⟨hunshared, ⟨hcarries, -⟩, hbare, honly⟩
      use ⟨hcarries.shows, honly⟩, hunshared
  · have hmeant : Meant host env x .down ↔ Carries env x ∧ env.nic = x.name := by
      simp [Meant, hnic]
    rw [down_touches_named hnic, carriesHostAddr, hfound, Option.any_some, Bool.and_eq_true, hmeant,
      Unhindered, if_neg hnic]
    constructor
    · rintro ⟨⟨hgrep, hdrained⟩, hnone, hname⟩
      rw [hname] at hgrep hdrained hnone
      obtain ⟨hunshared, hbare⟩ := hguard.mp hnone
      have hshows := (mem_showing_iff hx).mp ((hserves.grep x hx _).mp hgrep)
      use hunshared, ⟨hbare.shows_iff.mp hshows, hname⟩, hbare, hdrained
    · rintro ⟨hunshared, ⟨hcarries, hname⟩, hbare, hdrained⟩
      rw [hname]
      use ⟨(hserves.grep x hx _).mpr ((mem_showing_iff hx).mpr hcarries.shows), hdrained⟩
      use hguard.mpr ⟨hunshared, hbare⟩

/-- A run that brings up changes an interface exactly if nothing but the board link's
addresses is on it, it is the one that is named, and nothing else is shown for it. -/
theorem up_touches_iff (hserves : Serves tools host reserved) {x : Interface}
    (hx : x ∈ host.interfaces) (hlegible : env.nic = x.name → x.Legible tools env) :
  (up tools env).Touches x.name
    ↔ Unshared env x ∧ Meant host env x .up ∧ Unhindered tools host env x .up
  := by
  rw [up_touches, Meant, Unhindered]
  constructor
  · rintro ⟨-, -, hguard, hname⟩
    have hlegible := hlegible hname
    rw [hname] at hguard
    obtain ⟨hunshared, hbare⟩ := (assertNotShared_eq_none hserves hx hlegible _).mp hguard
    use hunshared, hname
  · rintro ⟨hunshared, hname, hbare⟩
    have hlegible := hlegible hname
    rw [hname]
    use x.ne_nil, hserves.link x hx
    use (assertNotShared_eq_none hserves hx hlegible _).mpr ⟨hunshared, hbare⟩

/-- The guard stops the script at a name no interface has. -/
theorem assertNotShared_absent (hserves : Serves tools host reserved) {nic : Str}
    (hreserved : ¬ reserved nic) (hnic : ∀ x ∈ host.interfaces, x.name ≠ nic) (refusal : Str) :
  assertNotShared tools env nic refusal ≠ none
  := by
  rw [assertNotShared, foreignAddrs, (hserves.absent nic hreserved hnic).1]
  intro h
  cases h

/-- A device that is changed is an interface of the host. -/
theorem exists_of_touches (hserves : Serves tools host reserved) {mode : Mode}
    (hlegible : Legible tools host env mode) (hreserved : ¬ reserved env.nic) {dev : Str}
    (h : (match mode with | .up => up tools env | .down => down tools env).Touches dev) :
  ∃ x ∈ host.interfaces, x.name = dev
  := by
  by_contra hnot
  have hdev : ∀ x ∈ host.interfaces, x.name ≠ dev := by
    intro x hx hname
    apply hnot
    use x
  cases mode with
  | up =>
      obtain ⟨-, hlink, -, rfl⟩ := (up_touches dev).mp h
      rw [(hserves.absent env.nic hreserved hdev).2] at hlink
      cases hlink
  | down =>
      by_cases hnic : env.nic = []
      · obtain ⟨hfound, -⟩ := (down_touches_unnamed hnic dev).mp h
        rw [nicsCarryingHostAddr_eq hserves fun x hx => hlegible x hx nofun,
          Option.getD_some] at hfound
        have hmem : dev ∈ host.showing env := by
          rw [hfound]
          apply List.mem_singleton_self
        obtain ⟨x, hx, hname⟩ := List.mem_map.mp hmem
        apply hdev x (List.mem_of_mem_filter hx) hname
      · obtain ⟨-, hguard, rfl⟩ := (down_touches_named hnic dev).mp h
        apply assertNotShared_absent hserves hreserved hdev _ hguard

/-- A run changes an interface exactly if nothing but the board link's addresses is on it, it
is the one that is meant and nothing keeps the script from it. -/
theorem touches_iff (hserves : Serves tools host reserved) {arg : Option Str} {mode : Mode}
    (hmode : parseArg arg = .ok mode) (hlegible : Legible tools host env mode) {x : Interface}
    (hx : x ∈ host.interfaces) :
  (provisionBoardNet tools env arg).Touches x.name
    ↔ Unshared env x ∧ Meant host env x mode ∧ Unhindered tools host env x mode
  := by
  rw [provisionBoardNet, hmode]
  cases mode with
  | up => apply up_touches_iff hserves hx fun hname => hlegible x hx fun _ => hname
  | down => apply down_touches_iff hserves (fun y hy => hlegible y hy nofun) hx

/-- Where the interfaces are legible, a run touches the board link only exactly if nothing
keeps the script from the interface that is meant. -/
theorem touches_board_link_only (hserves : Serves tools host reserved) {arg : Option Str}
    {mode : Mode} (hmode : parseArg arg = .ok mode) (hlegible : Legible tools host env mode) :
  TouchesBoardLinkOnly host reserved env mode (provisionBoardNet tools env arg)
    ↔ ∀ x ∈ host.interfaces, Unshared env x → Meant host env x mode →
      Unhindered tools host env x mode
  := by
  constructor
  · rintro ⟨hmeant, -⟩ x hx hunshared hmean
    apply ((touches_iff hserves hmode hlegible hx).mp ((hmeant x hx).mpr ⟨hunshared, hmean⟩)).2.2
  · intro hunhindered
    constructor
    · intro x hx
      rw [touches_iff hserves hmode hlegible hx]
      constructor
      · rintro ⟨hunshared, hmean, -⟩
        use hunshared
      · rintro ⟨hunshared, hmean⟩
        use hunshared, hmean, hunhindered x hx hunshared hmean
    · intro hreserved dev htouches
      apply exists_of_touches hserves hlegible hreserved
      rw [provisionBoardNet, hmode] at htouches
      cases mode with
      | up => apply htouches
      | down => apply htouches

/-! ### A build host -/

/-- The lab link, as its address comes with a metric. -/
def labLink : Interface where
  name := "eth0".toList
  peer := none
  state := "UP".toList
  addresses := [{ ip := ⟨10, 1, 2, 3⟩, len := 24, metric := some 100 }]

/-- The board link, with the address the kernel gave it. -/
def boardLink : Interface where
  name := "eth1".toList
  peer := some "if5".toList
  state := "UP".toList
  addresses := [{ ip := ⟨192, 168, 100, 1⟩, len := 24 }, { ip := ⟨169, 254, 7, 9⟩, len := 16 }]

/-- A host with a lab link and a board link. -/
def buildHost : Host where
  interfaces := [labLink, boardLink]
  distinct := by decide

theorem forall_mem_buildHost {p : Interface → Prop} :
  (∀ x ∈ buildHost.interfaces, p x) ↔ p labLink ∧ p boardLink
  := by simp [buildHost]

theorem buildHost_serves :
  Serves buildHost.tools buildHost fun _ => False
  := by
  apply Host.serves
  rw [forall_mem_buildHost]
  decide +kernel

theorem buildHost_legible :
  Legible buildHost.tools buildHost ⟨none, none, none⟩ .down
  := by
  rw [Legible, forall_mem_buildHost]
  constructor
  · intro _
    constructor
    · decide +kernel
    · decide +kernel
  · intro _
    constructor
    · decide +kernel
    · decide +kernel

/-- A run with `--down` and without `NIC`. -/
def torn (hostAddr : Option Str) : Run :=
  provisionBoardNet buildHost.tools ⟨none, hostAddr, none⟩ (some "--down".toList)

theorem board_link_torn_down :
  (torn none).Touches "eth1".toList ∧ ¬ (torn none).Touches "eth0".toList
  := by
  have honly : TouchesBoardLinkOnly buildHost (fun _ => False) ⟨none, none, none⟩ .down (torn none) := by
    apply (touches_board_link_only buildHost_serves rfl buildHost_legible).mpr
    rw [forall_mem_buildHost]
    decide +kernel
  constructor
  · apply (honly.meant boardLink (by simp [buildHost])).mpr
    decide +kernel
  · apply mt (honly.meant labLink (by simp [buildHost])).mp
    decide +kernel

/-- A backslash in the address is expanded, and an interface is torn down that does not carry
it. -/
theorem escaped_address_torn_down :
  Serves buildHost.tools buildHost (fun _ => False)
    ∧ (torn (some "192.168.100\\0561/24".toList)).Touches boardLink.name
    ∧ ¬ TouchesBoardLinkOnly buildHost (fun _ => False)
        ⟨none, some "192.168.100\\0561/24".toList, none⟩ .down
        (torn (some "192.168.100\\0561/24".toList))
  := by
  have htouches : (torn (some "192.168.100\\0561/24".toList)).Touches boardLink.name := by
    use .addrFlush "eth1".toList
    constructor
    · decide +kernel
    · rfl
  use buildHost_serves, htouches
  intro honly
  have hmeant := ((honly.meant boardLink (by simp [buildHost])).mp htouches).2
  revert hmeant
  decide +kernel

end BoardNet
