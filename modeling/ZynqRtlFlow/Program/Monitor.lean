import Mathlib.Data.List.Induction
import ZynqRtlFlow.Program.Prog

/-!
# Calls under a lock

Any number of calls are made at any time.  A call may be refused at once; otherwise it
waits for one lock, gives up the wait if it can be interrupted, and runs its body while
holding the lock.  The log lists the calls that have returned, with the values they
returned, in the order of their refusals and of the releases of the lock.  A program that
takes no lock runs beside the calls (`Api.Beside`).

A device says what calls may return when they are made one after another.  If every body
keeps a simulation between the states of the device and of the platform, then whatever
the schedule, the log is one the device explains (`Simulates.explains`).
-/

universe u v w s

/-- The calls of an interface: what refuses a call before it takes the lock, what an
interrupted wait for the lock returns, and what runs under the lock. -/
structure Api (Op : Type u) (Res : Op → Type v) (Call : Type v) (Val : Call → Type v) where
  early : (c : Call) → Option (Val c)
  interrupted : (c : Call) → Option (Val c)
  body : (c : Call) → Prog Op Res (Val c)

/-- A device that serves one call after another. -/
structure Device (Call : Type v) (Val : Call → Type v) where
  State : Type s
  init : State
  /-- The state after a call has returned a value. -/
  step : State → (c : Call) → Val c → State
  /-- A call may return a value. -/
  Allows : State → (c : Call) → Val c → Prop

namespace Device

variable {Call : Type v} {Val : Call → Type v} (D : Device.{v, s} Call Val)

/-- The state after the calls of a log. -/
def after (log : List (Σ c, Val c)) : D.State :=
  log.foldl (fun d e => D.step d e.1 e.2) D.init

/-- Every call of the log returned a value that the device allows after the calls before
it. -/
def Explains (log : List (Σ c, Val c)) : Prop :=
  ∀ past e rest, log = past ++ e :: rest → D.Allows (D.after past) e.1 e.2

variable {D}

theorem after_concat (log : List (Σ c, Val c)) (e : Σ c, Val c) :
  D.after (log ++ [e]) = D.step (D.after log) e.1 e.2
  := by
  rw [after, List.foldl_append]
  rfl

theorem explains_nil :
  D.Explains []
  := by
  intro past e rest h
  have hlen := congrArg List.length h
  simp at hlen

theorem Explains.concat {log : List (Σ c, Val c)} (h : D.Explains log) {e : Σ c, Val c}
    (he : D.Allows (D.after log) e.1 e.2) :
  D.Explains (log ++ [e])
  := by
  intro past b rest hsplit
  obtain rfl | ⟨rest', x, rfl⟩ := rest.eq_nil_or_concat
  · obtain ⟨rfl, hb⟩ := List.append_inj' hsplit rfl
    obtain rfl := List.singleton_inj.mp hb
    apply he
  · rw [List.concat_eq_append, ← List.cons_append, ← List.append_assoc] at hsplit
    obtain ⟨rfl, -⟩ := List.append_inj' hsplit rfl
    apply h past b rest' rfl

end Device

namespace Api

variable {Op : Type u} {Res : Op → Type v} {Call : Type v} {Val : Call → Type v}
  (P : Platform.{u, v, s} Op Res) (api : Api Op Res Call Val)

/-- A configuration: the state of the platform, the calls that wait for the lock, the call
that holds it with the rest of its body, and the log. -/
structure Config (P : Platform.{u, v, s} Op Res) (Val : Call → Type v) where
  state : P.State
  waiting : List Call
  running : Option (Σ c, Prog Op Res (Val c))
  log : List (Σ c, Val c)

/-- What can happen next: the environment moves, a call is made, the `k`-th waiting call
is interrupted or takes the lock, the holder performs an operation or releases the
lock. -/
inductive Event (P : Platform.{u, v, s} Op Res) (Call : Type v) where
  | move (e : P.Move)
  | invoke (c : Call)
  | interrupt (k : ℕ)
  | acquire (k : ℕ)
  | exec (c : P.Choice)
  | release

variable {P}

/-- The configuration after an event; an event that cannot happen changes nothing. -/
def next (x : Config P Val) : Event P Call → Config P Val
  | .move e => { x with state := P.move e x.state }
  | .invoke c =>
      match api.early c with
      | some v => { x with log := x.log ++ [⟨c, v⟩] }
      | none => { x with waiting := x.waiting ++ [c] }
  | .interrupt k =>
      match x.waiting[k]? with
      | none => x
      | some c =>
          match api.interrupted c with
          | none => x
          | some v => { x with waiting := x.waiting.eraseIdx k, log := x.log ++ [⟨c, v⟩] }
  | .acquire k =>
      match x.running, x.waiting[k]? with
      | none, some c =>
          { x with waiting := x.waiting.eraseIdx k, running := some ⟨c, api.body c⟩ }
      | _, _ => x
  | .exec ch =>
      match x.running with
      | some ⟨c, .op o k⟩ =>
          match P.exec o ch x.state with
          | some (r, σ) => { x with state := σ, running := some ⟨c, k r⟩ }
          | none => x
      | _ => x
  | .release =>
      match x.running with
      | some ⟨c, .ret v⟩ => { x with running := none, log := x.log ++ [⟨c, v⟩] }
      | _ => x

/-- The configuration after a schedule, from a state with no call made. -/
def schedule (σ : P.State) (es : List (Event P Call)) : Config P Val :=
  es.foldl api.next ⟨σ, [], none, []⟩

theorem schedule_append (σ : P.State) (es more : List (Event P Call)) :
  api.schedule σ (es ++ more) = more.foldl api.next (api.schedule σ es)
  := List.foldl_append

variable {api} in
/-- What holds before any call is made, and after every event if before it, holds after
every schedule. -/
theorem schedule_induction {I : Config P Val → Prop} {σ : P.State} (hσ : I ⟨σ, [], none, []⟩)
    (hnext : ∀ x e, I x → I (api.next x e)) (es : List (Event P Call)) :
  I (api.schedule σ es)
  := by
  induction es using List.reverseRecOn with
  | nil => apply hσ
  | append_singleton es e ih =>
      rw [schedule, List.foldl_append]
      apply hnext _ e ih

theorem foldl_moves (api : Api Op Res Call Val) (x : Config P Val) (es : List P.Move) :
  (es.map Event.move).foldl api.next x = { x with state := P.moves es x.state }
  := by
  induction es generalizing x with
  | nil => rfl
  | cons e es ih => apply ih

/-- A run of a program that takes no lock: from the configuration `x` it can return `a` in
the configuration `y`.  Its operations are performed as `exec` says, and anything can happen
between them. -/
def Beside {α : Type w} (exec : (o : Op) → P.Choice → P.State → Option (Res o × P.State)) :
    Prog Op Res α → Config P Val → α → Config P Val → Prop
  | .ret b, x, a, y => a = b ∧ ∃ es : List (Event P Call), y = es.foldl api.next x
  | .op o k, x, a, y =>
      ∃ (es : List (Event P Call)) (ch : P.Choice) (r : Res o) (σ : P.State),
        exec o ch (es.foldl api.next x).state = some (r, σ)
        ∧ Beside exec (k r) { es.foldl api.next x with state := σ } a y

variable {api} in
/-- A program of one operation that is a move of the environment: its run has one moment that
counts, and to the calls that moment is the move. -/
theorem moment_of_beside {α : Type w} {exec : (o : Op) → P.Choice → P.State → Option (Res o × P.State)}
    {o : Op} {f : Res o → α} (m : P.Choice → P.Move)
    (hmove : ∀ ch τ r σ, exec o ch τ = some (r, σ) → σ = P.move (m ch) τ) {τ : P.State}
    {es : List (Event P Call)} {a : α} {y : Config P Val}
    (h : api.Beside exec (.op o fun r => .ret (f r)) (api.schedule τ es) a y) :
  ∃ before ch r σ after, exec o ch (api.schedule τ (es ++ before)).state = some (r, σ)
    ∧ a = f r ∧ y = api.schedule τ (es ++ before ++ .move (m ch) :: after)
  := by
  obtain ⟨before, ch, r, σ, hexec, ha, after, rfl⟩ := h
  rw [← schedule_append] at hexec
  use before, ch, r, σ, after, hexec, ha
  rw [schedule_append _ _ (es ++ before), List.foldl_cons, hmove ch _ r σ hexec,
    schedule_append]
  rfl

/-! ### Simulation -/

variable (D : Device.{v, s} Call Val) (R : D.State → P.State → Prop)

/-- A call made in the state `d` of the device has returned a value the device allows, and
the platform has followed it. -/
def Answered (d : D.State) (c : Call) (v : Val c) (σ : P.State) : Prop :=
  D.Allows d c v ∧ R (D.step d c v) σ

/-- A relation between the states of the device and of the platform that survives the
moves of the environment, and that every body keeps; calls that return without the lock
are allowed and change nothing. -/
structure Simulates : Prop where
  stable : ∀ d, P.Stable (R d)
  early : ∀ d c v, api.early c = some v → D.Allows d c v ∧ D.step d c v = d
  interrupted : ∀ d c v, api.interrupted c = some v → D.Allows d c v ∧ D.step d c v = d
  body : ∀ d c σ, api.early c = none → R d σ →
    P.wp (api.body c) (Answered D R d c) σ

/-- The platform follows the device: at rest through the relation, and while a call runs
through what is left of its body. -/
def Serves (d : D.State) (σ : P.State) : Option (Σ c, Prog Op Res (Val c)) → Prop
  | none => R d σ
  | some ⟨c, p⟩ => P.wp p (Answered D R d c) σ

/-- The invariant of a schedule. -/
structure Invariant (x : Config P Val) : Prop where
  explains : D.Explains x.log
  waiting : ∀ c ∈ x.waiting, api.early c = none
  serves : Serves D R (D.after x.log) x.state x.running

variable {api D R}

/-- A body that returns at once. -/
theorem wp_return {d : D.State} {c : Call} {v : Val c} {σ : P.State}
    (hR : ∀ d, P.Stable (R d)) (hv : D.Allows d c v) (hσ : R (D.step d c v) σ) :
  P.wp (pure v : Prog Op Res (Val c)) (Answered D R d c) σ
  := by
  apply Platform.wp_ret
  · intro e τ hτ
    use hτ.1
    apply hR _ e τ hτ.2
  · use hv

/-- A call that returns without the lock. -/
theorem Invariant.log {x : Config P Val} (hx : Invariant api D R x) {e : Σ c, Val c}
    (he : D.Allows (D.after x.log) e.1 e.2 ∧ D.step (D.after x.log) e.1 e.2 = D.after x.log)
    {waiting : List Call} (hw : ∀ c ∈ waiting, api.early c = none) :
  Invariant api D R { x with waiting := waiting, log := x.log ++ [e] }
  := by
  constructor
  · apply hx.explains.concat he.1
  · apply hw
  · rw [Device.after_concat, he.2]
    apply hx.serves

theorem Invariant.next (hR : Simulates api D R) {x : Config P Val}
    (hx : Invariant api D R x) (e : Event P Call) :
  Invariant api D R (api.next x e)
  := by
  obtain ⟨σ, waiting, running, log⟩ := x
  cases e with
  | move e =>
      use hx.explains, hx.waiting
      cases running with
      | none => apply hR.stable _ e _ hx.serves
      | some h => apply Platform.stable_wp _ _ e _ hx.serves
  | invoke c =>
      simp only [Api.next]
      split
      · rename_i v hv
        apply hx.log (hR.early _ _ _ hv) hx.waiting
      · rename_i hc
        use hx.explains
        · intro c' hc'
          obtain hc' | hc' := List.mem_append.mp hc'
          · apply hx.waiting c' hc'
          · obtain rfl := List.mem_singleton.mp hc'
            apply hc
        · apply hx.serves
  | interrupt k =>
      simp only [Api.next]
      split
      · apply hx
      · split
        · apply hx
        · rename_i v hv
          apply hx.log (hR.interrupted _ _ _ hv)
          intro c hc
          apply hx.waiting c (List.mem_of_mem_eraseIdx hc)
  | acquire k =>
      simp only [Api.next]
      split
      · rename_i c hc
        use hx.explains
        · intro c' hc'
          apply hx.waiting c' (List.mem_of_mem_eraseIdx hc')
        · apply hR.body _ _ _ (hx.waiting c (List.mem_of_getElem? hc)) hx.serves
      · apply hx
  | exec ch =>
      simp only [Api.next]
      split
      · split
        · rename_i hexec
          use hx.explains, hx.waiting
          apply Platform.wp_exec hx.serves hexec
        · apply hx
      · apply hx
  | release =>
      simp only [Api.next]
      split
      · obtain ⟨hallows, hr⟩ := Platform.post_of_wp_ret hx.serves
        constructor
        · apply hx.explains.concat hallows
        · apply hx.waiting
        · rw [Device.after_concat]
          apply hr
      · apply hx

/-- Whatever the schedule, the device explains the log, and the platform follows it. -/
theorem Simulates.invariant (hR : Simulates api D R) {σ : P.State} (hσ : R D.init σ)
    (es : List (Event P Call)) :
  Invariant api D R (api.schedule σ es)
  := by
  induction es using List.reverseRecOn with
  | nil =>
      constructor
      · apply Device.explains_nil
      · intro c hc
        cases hc
      · apply hσ
  | append_singleton es e ih =>
      rw [schedule, List.foldl_append]
      apply ih.next hR

/-- Whatever the schedule, the device explains the log. -/
theorem Simulates.explains (hR : Simulates api D R) {σ : P.State} (hσ : R D.init σ)
    (es : List (Event P Call)) :
  D.Explains (api.schedule σ es).log
  := (hR.invariant hσ es).explains

end Api
