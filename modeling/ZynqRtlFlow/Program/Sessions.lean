import ZynqRtlFlow.Program.Can
import ZynqRtlFlow.Program.Erase

/-!
# Sessions

An interface is bound to a platform, serves calls, is unbound when no call is under way,
and is bound again.  The platform goes on in between, and what is bound anew finds it as
the last session left it but for what binding renews.  Before an interface is bound a probe
looks whether the platform is its own; others may probe it as well.

If a device is followed in each session, and binding renews what it keeps, then whatever
happens the log of each session is explained from what the sessions before it have left
(`Sessions.Invariant`).
-/

universe u s w

namespace Device

variable {Call : Type} {Val : Call → Type} (D : Device.{0, w} Call Val)

/-- The device in another state to begin with. -/
abbrev startingAt (d : D.State) : Device Call Val :=
  { D with init := d }

/-- What is kept after sessions with these logs, if binding leaves `renewed d` of a state
`d`. -/
def kept (renewed : D.State → D.State) (past : List (List (Σ c, Val c))) : D.State :=
  past.foldl (fun d log => (D.startingAt (renewed d)).after log) D.init

variable {D}

theorem kept_concat (renewed : D.State → D.State) (past : List (List (Σ c, Val c)))
    (log : List (Σ c, Val c)) :
  D.kept renewed (past ++ [log]) = (D.startingAt (renewed (D.kept renewed past))).after log
  := by
  rw [kept, List.foldl_append]
  rfl

/-- If binding renews nothing, the sessions are one. -/
theorem after_kept_id (past : List (List (Σ c, Val c))) (log : List (Σ c, Val c)) :
  (D.startingAt (D.kept id past)).after log = D.after (past.flatten ++ log)
  := by
  have hkept : D.kept id past = D.after past.flatten := by
    induction past using List.reverseRecOn with
    | nil => rfl
    | append_singleton past log ih =>
        rw [kept_concat, id, ih, List.flatten_append, after, after, after, List.foldl_append]
        rw [List.flatten_singleton]
  rw [hkept, after, after, after, List.foldl_append]

/-- Two logs of which the second is explained from what the first leaves. -/
theorem Explains.append {log log' : List (Σ c, Val c)} (h : D.Explains log)
    (h' : (D.startingAt (D.after log)).Explains log') :
  D.Explains (log ++ log')
  := by
  induction log' using List.reverseRecOn with
  | nil =>
      rw [List.append_nil]
      apply h
  | append_singleton log' e ih =>
      have hlog' : (D.startingAt (D.after log)).Explains log' := by
        intro past b rest hsplit
        apply h' past b (rest ++ [e])
        rw [hsplit, List.append_assoc]
        rfl
      rw [← List.append_assoc]
      apply (ih hlog').concat
      rw [after, List.foldl_append]
      apply h' log' e [] rfl

end Device

namespace Api

variable {Op : Type u} {Res : Op → Type} {Call : Type} {Val : Call → Type}
  {P : Platform.{u, 0, s} Op Res}

/-- How an interface is bound to a platform: who may probe it and whose probes are the
interface's own, what a probe finds, and what binding renews. -/
structure Binding (P : Platform.{u, 0, s} Op Res) where
  Prober : Type
  own : Prober → Bool
  probe : Prober → Prog Op Res Bool
  Fresh : Type
  renew : Fresh → P.State → P.State

/-- What is bound: nothing; nothing yet, a probe being under way; or the interface, with the
calls of its session. -/
inductive Phase (B : Binding P) (Val : Call → Type) where
  | unbound (σ : P.State)
  | probing (k : B.Prober) (p : Prog Op Res Bool) (σ : P.State)
  | bound (x : Config P Val)

/-- The sessions so far: the phase, the logs of the sessions that are over, and the verdicts
of the probes. -/
structure Sessions (B : Binding P) (Val : Call → Type) where
  phase : Phase B Val
  past : List (List (Σ c, Val c))
  verdicts : List (B.Prober × Bool)

/-- What can happen next: the environment moves, something happens to the calls of the
session, a probe begins, performs an operation, or settles with or without the rest of what
it needs, the interface is unbound. -/
inductive SessionEvent (B : Binding P) (Call : Type) where
  | move (e : P.Move)
  | call (e : Event P Call)
  | probe (k : B.Prober)
  | exec (c : P.Choice)
  | settle (r : Option B.Fresh)
  | unbind

variable {B : Binding P} (api : Api Op Res Call Val)

/-- The environment moves, whatever is bound. -/
def Phase.move (e : P.Move) : Phase B Val → Phase B Val
  | .unbound σ => .unbound (P.move e σ)
  | .probing k p σ => .probing k p (P.move e σ)
  | .bound x => .bound { x with state := P.move e x.state }

/-- What is bound after a probe: the interface, if the probe was its own, found what it
looked for and has the rest of what it needs. -/
def Phase.settled (k : B.Prober) (found : Bool) (σ : P.State) : Option B.Fresh → Phase B Val
  | none => .unbound σ
  | some r => if B.own k && found then .bound ⟨B.renew r σ, [], none, []⟩ else .unbound σ

/-- The sessions after an event; an event that cannot happen changes nothing.  The interface
is unbound only when no call is under way. -/
def Sessions.next (x : Sessions B Val) : SessionEvent B Call → Sessions B Val
  | .move e => { x with phase := x.phase.move e }
  | .call e =>
      match x.phase with
      | .bound y => { x with phase := .bound (api.next y e) }
      | _ => x
  | .probe k =>
      match x.phase with
      | .unbound σ => { x with phase := .probing k (B.probe k) σ }
      | _ => x
  | .exec c =>
      match x.phase with
      | .probing k (.op o f) σ =>
          match P.exec o c σ with
          | some (r, σ') => { x with phase := .probing k (f r) σ' }
          | none => x
      | _ => x
  | .settle r =>
      match x.phase with
      | .probing k (.ret found) σ =>
          { x with
            phase := Phase.settled k found σ r
            verdicts := x.verdicts ++ [(k, found)] }
      | _ => x
  | .unbind =>
      match x.phase with
      | .bound ⟨σ, [], none, log⟩ => { x with phase := .unbound σ, past := x.past ++ [log] }
      | _ => x

/-- The sessions of a life that begins with nothing bound. -/
def sessions (σ : P.State) (es : List (SessionEvent B Call)) : Sessions B Val :=
  es.foldl (Sessions.next api) ⟨.unbound σ, [], []⟩

/-- The interface is bound, with the lock of its session free. -/
def Phase.resting : Phase B Val → Bool
  | .bound x => x.running.isNone
  | _ => false

theorem Phase.bound_of_resting {phase : Phase B Val} (h : phase.resting = true) :
  ∃ x, phase = .bound x ∧ x.running = none
  := by
  cases phase with
  | unbound σ => cases h
  | probing k p σ => cases h
  | bound x =>
      use x, rfl
      apply Option.isNone_iff_eq_none.mp h

/-- The log of the session under way, if there is one. -/
def Phase.logs : Phase B Val → List (List (Σ c, Val c))
  | .bound x => [x.log]
  | _ => []

/-- The logs of the sessions, the last one being that under way. -/
def Sessions.logs (x : Sessions B Val) : List (List (Σ c, Val c)) :=
  x.past ++ x.phase.logs

/-! ### Following a device -/

variable (D : Device.{0, s} Call Val) (R : D.State → P.State → Prop)
  (renewed : D.State → D.State)

/-- A relation that probes keep, and that binding keeps with what is renewed.  A probe finds
what it looks for if and only if it is the interface's own. -/
structure Binds (B : Binding P) : Prop where
  probe : ∀ d k σ, R d σ → P.wp (B.probe k) (fun found τ => found = B.own k ∧ R d τ) σ
  renew : ∀ d r σ, R d σ → R (renewed d) (B.renew r σ)

/-- The platform follows the device, whatever is bound. -/
def Phase.Follows (d : D.State) : Phase B Val → Prop
  | .unbound σ => R d σ
  | .probing k p σ => P.wp p (fun found τ => found = B.own k ∧ R d τ) σ
  | .bound x => Invariant api (D.startingAt (renewed d)) R x

/-- The invariant of sessions. -/
structure Sessions.Invariant (x : Sessions B Val) : Prop where
  verdicts : ∀ v ∈ x.verdicts, v.2 = B.own v.1
  past : ∀ earlier log later, x.past = earlier ++ log :: later →
    (D.startingAt (renewed (D.kept renewed earlier))).Explains log
  follows : x.phase.Follows api D R renewed (D.kept renewed x.past)

variable {api D R renewed}

theorem Simulates.startingAt (hR : Simulates api D R) (d : D.State) :
  Simulates api (D.startingAt d) R
  := ⟨hR.stable, hR.early, hR.interrupted, hR.body⟩

theorem Invariant.next_startingAt (hR : Simulates api D R) {d : D.State} {x : Config P Val}
    (h : Invariant api (D.startingAt d) R x) (e : Event P Call) :
  Invariant api (D.startingAt d) R (api.next x e)
  := h.next (hR.startingAt d) e

theorem Phase.Follows.move (hR : Simulates api D R) {d : D.State} {phase : Phase B Val}
    (h : phase.Follows api D R renewed d) (e : P.Move) :
  (phase.move e).Follows api D R renewed d
  := by
  cases phase with
  | unbound σ => apply hR.stable d e σ h
  | probing k p σ => apply Platform.stable_wp _ _ e σ h
  | bound x => exact Invariant.next_startingAt hR h (.move e)

/-- The log of the last session is explained as those before it. -/
theorem Sessions.Invariant.past_concat {x : Sessions B Val} (h : x.Invariant api D R renewed)
    {log : List (Σ c, Val c)}
    (hlog : (D.startingAt (renewed (D.kept renewed x.past))).Explains log) :
  ∀ earlier log' later, x.past ++ [log] = earlier ++ log' :: later →
    (D.startingAt (renewed (D.kept renewed earlier))).Explains log'
  := by
  intro earlier log' later hsplit
  obtain rfl | ⟨later, y, rfl⟩ := later.eq_nil_or_concat
  · obtain ⟨rfl, hy⟩ := List.append_inj' hsplit rfl
    obtain rfl := List.singleton_inj.mp hy
    apply hlog
  · rw [List.concat_eq_append, ← List.cons_append, ← List.append_assoc] at hsplit
    obtain ⟨hpast, -⟩ := List.append_inj' hsplit rfl
    apply h.past earlier log' later hpast

/-- Whatever is bound, the log of each session is explained. -/
theorem Sessions.Invariant.explains {x : Sessions B Val} (h : x.Invariant api D R renewed) :
  ∀ earlier log later, x.logs = earlier ++ log :: later →
    (D.startingAt (renewed (D.kept renewed earlier))).Explains log
  := by
  obtain ⟨σ | ⟨k, p, σ⟩ | y, past, verdicts⟩ := x
  · intro earlier log later hsplit
    apply h.past earlier log later ((List.append_nil past).symm.trans hsplit)
  · intro earlier log later hsplit
    apply h.past earlier log later ((List.append_nil past).symm.trans hsplit)
  · apply h.past_concat h.follows.explains

theorem Sessions.Invariant.next (hR : Simulates api D R) (hB : Binds D R renewed B)
    {x : Sessions B Val} (h : x.Invariant api D R renewed) (e : SessionEvent B Call) :
  (Sessions.next api x e).Invariant api D R renewed
  := by
  obtain ⟨phase, past, verdicts⟩ := x
  have hfollows := h.follows
  cases e with
  | move e =>
      use h.verdicts, h.past
      apply hfollows.move hR e
  | call e =>
      cases phase with
      | unbound σ => apply h
      | probing k p σ => apply h
      | bound y =>
          use h.verdicts, h.past
          exact Invariant.next_startingAt hR hfollows e
  | probe k =>
      cases phase with
      | unbound σ =>
          use h.verdicts, h.past
          apply hB.probe _ k σ hfollows
      | probing k p σ => apply h
      | bound y => apply h
  | exec c =>
      obtain σ | ⟨k, found | ⟨o, f⟩, σ⟩ | y := phase
      · apply h
      · apply h
      · simp only [Sessions.next]
        split
        · rename_i hexec
          use h.verdicts, h.past
          apply Platform.wp_exec hfollows hexec
        · apply h
      · apply h
  | settle r =>
      obtain σ | ⟨k, found | ⟨o, f⟩, σ⟩ | y := phase
      · apply h
      · obtain ⟨hfound, hσ⟩ := Platform.post_of_wp_ret hfollows
        constructor
        · intro v hv
          obtain hv | hv := List.mem_append.mp hv
          · apply h.verdicts v hv
          · obtain rfl := List.mem_singleton.mp hv
            apply hfound
        · apply h.past
        · cases r with
          | none => apply hσ
          | some r =>
              simp only [Sessions.next, Phase.settled]
              split
              · use Device.explains_nil, List.forall_mem_nil _
                apply hB.renew _ r σ hσ
              · apply hσ
      · apply h
      · apply h
  | unbind =>
      obtain σ | ⟨k, p, σ⟩ | ⟨σ, _ | ⟨c, waiting⟩, _ | holder, log⟩ := phase
      · apply h
      · apply h
      · use h.verdicts, h.past_concat hfollows.explains
        change R (D.kept renewed (past ++ [log])) σ
        rw [Device.kept_concat]
        apply hfollows.serves
      · apply h
      · apply h
      · apply h

/-- Whatever happens, the device explains the log of each session from what the sessions
before it have left, and the platform follows it. -/
theorem sessions_invariant (hR : Simulates api D R) (hB : Binds D R renewed B) {σ : P.State}
    (hσ : R D.init σ) (es : List (SessionEvent B Call)) :
  (api.sessions σ es).Invariant api D R renewed
  := by
  induction es using List.reverseRecOn with
  | nil =>
      use List.forall_mem_nil _
      · intro earlier log later hsplit
        cases earlier with
        | nil => cases hsplit
        | cons y earlier => cases hsplit
      · apply hσ
  | append_singleton es e ih =>
      rw [sessions, List.foldl_append]
      apply ih.next hR hB

theorem foldl_calls {x : Sessions B Val} {y : Config P Val} (h : x.phase = .bound y)
    (es : List (Event P Call)) :
  (es.map SessionEvent.call).foldl (Sessions.next api) x
    = { x with phase := .bound (es.foldl api.next y) }
  := by
  induction es generalizing x y with
  | nil =>
      rw [List.map_nil, List.foldl_nil, List.foldl_nil, ← h]
  | cons e es ih =>
      have hnext : Sessions.next api x (.call e) = { x with phase := .bound (api.next y e) } := by
        rw [Sessions.next, h]
      rw [List.map_cons, List.foldl_cons, hnext]
      apply ih rfl

/-! ### From some point on -/

/-- The session under way with the calls that have returned forgotten. -/
def Phase.fresh : Phase B Val → Phase B Val
  | .bound x => .bound { x with log := [] }
  | phase => phase

theorem prepend_fresh (x : Config P Val) :
  Config.prepend x.log { x with log := [] } = x
  := by
  rw [Config.prepend, List.append_nil]

/-- What the calls return that return next. -/
theorem Invariant.next_fresh (hR : Simulates api D R) (hstep : ∀ d c v, D.step d c v = d)
    {x : Config P Val} (h : Invariant api D R { x with log := [] }) (e : Event P Call) :
  ∃ later, (api.next x e).log = x.log ++ later ∧ (∀ e ∈ later, D.Allows D.init e.1 e.2)
    ∧ Invariant api D R { api.next x e with log := [] }
  := by
  have hnext := h.next hR e
  have hafter : ∀ log : List (Σ c, Val c), D.after log = D.init := by
    intro log
    induction log using List.reverseRecOn with
    | nil => rfl
    | append_singleton log e ih =>
        rw [Device.after_concat, hstep]
        apply ih
  have hsplit : api.next x e = (api.next { x with log := [] } e).prepend x.log := by
    rw [← next_prepend, prepend_fresh]
  use (api.next { x with log := [] } e).log
  rw [hsplit]
  constructor
  · rfl
  · constructor
    · intro a ha
      obtain ⟨past, rest, hlog⟩ := List.append_of_mem ha
      have hallows := hnext.explains past a rest hlog
      rw [hafter] at hallows
      apply hallows
    · use Device.explains_nil, hnext.waiting
      have hserves := hnext.serves
      rw [hafter] at hserves
      apply hserves

/-- The device that never changes is followed whatever sessions there were. -/
theorem Sessions.Invariant.of_follows {phase : Phase B Val}
    (h : phase.fresh.Follows api D R id D.init) :
  Sessions.Invariant api D R id ⟨phase.fresh, [], []⟩
  := by
  use List.forall_mem_nil _
  · intro earlier log later hsplit
    cases earlier with
    | nil => cases hsplit
    | cons y earlier => cases hsplit
  · apply h

theorem logs_settled (k : B.Prober) (found : Bool) (σ : P.State) (r : Option B.Fresh) :
  (Phase.settled k found σ r : Phase B Val).logs.flatten = []
  := by
  cases r with
  | none => rfl
  | some r =>
      rw [Phase.settled]
      split
      · rfl
      · rfl

theorem fresh_settled (k : B.Prober) (found : Bool) (σ : P.State) (r : Option B.Fresh) :
  (Phase.settled k found σ r : Phase B Val).fresh = Phase.settled k found σ r
  := by
  cases r with
  | none => rfl
  | some r =>
      rw [Phase.settled]
      split
      · rfl
      · rfl

theorem Sessions.later_next (hR : Simulates api D R) (hB : Binds D R id B)
    (hstep : ∀ d c v, D.step d c v = d) {x : Sessions B Val}
    (hx : x.phase.fresh.Follows api D R id D.init) (e : SessionEvent B Call) :
  ∃ later, (Sessions.next api x e).logs.flatten = x.logs.flatten ++ later
    ∧ (∀ e ∈ later, D.Allows D.init e.1 e.2)
    ∧ (Sessions.next api x e).phase.fresh.Follows api D R id D.init
  := by
  obtain ⟨phase, past, verdicts⟩ := x
  have hfollows := ((Sessions.Invariant.of_follows hx).next hR hB e).follows
  have hsilent : (Sessions.next api ⟨phase, past, verdicts⟩ e).logs.flatten
        = (past ++ phase.logs).flatten →
      (Sessions.next api ⟨phase, past, verdicts⟩ e).phase.fresh.Follows api D R id D.init →
      ∃ later, (Sessions.next api ⟨phase, past, verdicts⟩ e).logs.flatten
          = (past ++ phase.logs).flatten ++ later
        ∧ (∀ e ∈ later, D.Allows D.init e.1 e.2)
        ∧ (Sessions.next api ⟨phase, past, verdicts⟩ e).phase.fresh.Follows api D R id D.init := by
    intro hlogs hnext
    use []
    rw [List.append_nil]
    exact ⟨hlogs, List.forall_mem_nil _, hnext⟩
  obtain σ | ⟨k, found | ⟨o, f⟩, σ⟩ | ⟨σ, waiting, running, log⟩ := phase
  · cases e with
    | settle r => apply hsilent rfl hx
    | move e => apply hsilent rfl hfollows
    | call e => apply hsilent rfl hx
    | probe k => apply hsilent rfl hfollows
    | exec c => apply hsilent rfl hx
    | unbind => apply hsilent rfl hx
  · cases e with
    | move e => apply hsilent rfl hfollows
    | call e => apply hsilent rfl hx
    | probe k => apply hsilent rfl hx
    | exec c => apply hsilent rfl hx
    | settle r =>
        apply hsilent
        · have hlogs : (Phase.settled k found σ r : Phase B Val).logs.flatten = [] := by
            apply logs_settled
          simp only [Sessions.next, Sessions.logs, List.flatten_append, hlogs]
          rfl
        · change (Phase.settled k found σ r).fresh.Follows api D R id D.init
          rw [fresh_settled]
          apply hfollows
    | unbind => apply hsilent rfl hx
  · cases e with
    | move e => apply hsilent rfl hfollows
    | call e => apply hsilent rfl hx
    | probe k => apply hsilent rfl hx
    | exec c =>
        revert hfollows hsilent
        simp only [Sessions.next, Phase.fresh]
        cases P.exec o c σ with
        | none =>
            intro hfollows hsilent
            apply hsilent rfl hfollows
        | some r =>
            intro hfollows hsilent
            apply hsilent rfl hfollows
    | settle r => apply hsilent rfl hx
    | unbind => apply hsilent rfl hx
  · cases e with
    | call e =>
        obtain ⟨later, hlog, hallows, hnext⟩ := Invariant.next_fresh hR hstep hx e
        use later
        constructor
        · simp [Sessions.next, Sessions.logs, Phase.logs, hlog]
        · exact ⟨hallows, hnext⟩
    | move e => apply hsilent rfl hfollows
    | probe k => apply hsilent rfl hx
    | exec c => apply hsilent rfl hx
    | settle r => apply hsilent rfl hx
    | unbind =>
        cases waiting with
        | cons c waiting => apply hsilent rfl hx
        | nil =>
            cases running with
            | some holder => apply hsilent rfl hx
            | none => apply hsilent (congrArg List.flatten (List.append_nil _)) hx.serves

/-- Once a device that never changes is followed, it allows what all later calls return, in
this session and in those after it. -/
theorem Simulates.later_of_steady (hR : Simulates api D R) (hB : Binds D R id B)
    (hstep : ∀ d c v, D.step d c v = d) (es : List (SessionEvent B Call)) {x : Sessions B Val}
    (hx : x.phase.fresh.Follows api D R id D.init) :
  ∃ later, (es.foldl (Sessions.next api) x).logs.flatten = x.logs.flatten ++ later
    ∧ ∀ e ∈ later, D.Allows D.init e.1 e.2
  := by
  induction es generalizing x with
  | nil =>
      use []
      exact ⟨(List.append_nil _).symm, List.forall_mem_nil _⟩
  | cons e es ih =>
      obtain ⟨first, hlogs, hfirst, hnext⟩ := Sessions.later_next hR hB hstep hx e
      obtain ⟨rest, hrest, hallows⟩ := ih hnext
      use first ++ rest
      constructor
      · rw [List.foldl_cons, hrest, hlogs, List.append_assoc]
      · intro a ha
        obtain ha | ha := List.mem_append.mp ha
        · apply hfirst a ha
        · apply hallows a ha

/-! ### Calls that say more -/

section Erase

variable {Val' : Call → Type} {api' : Api Op Res Call Val'} {f : (c : Call) → Val' c → Val c}

/-- What is bound, with the values of its session erased. -/
def Phase.erase (f : (c : Call) → Val' c → Val c) : Phase B Val' → Phase B Val
  | .unbound σ => .unbound σ
  | .probing k p σ => .probing k p σ
  | .bound x => .bound (x.erase f)

/-- Sessions with their values erased. -/
def Sessions.erase (f : (c : Call) → Val' c → Val c) (x : Sessions B Val') : Sessions B Val where
  phase := x.phase.erase f
  past := x.past.map fun log => log.map fun e => ⟨e.1, f e.1 e.2⟩
  verdicts := x.verdicts

theorem erase_settled (k : B.Prober) (found : Bool) (σ : P.State) (r : Option B.Fresh) :
  Phase.erase f (Phase.settled k found σ r : Phase B Val') = Phase.settled k found σ r
  := by
  cases r with
  | none => rfl
  | some r =>
      simp only [Phase.settled]
      split
      · rfl
      · rfl

theorem Erases.sessions_next_eq (h : Erases api' api f) (x : Sessions B Val')
    (e : SessionEvent B Call) :
  Sessions.next api (x.erase f) e = (Sessions.next api' x e).erase f
  := by
  obtain ⟨σ | ⟨k, found | ⟨o, g⟩, σ⟩ | ⟨σ, waiting, running, log⟩, past, verdicts⟩ := x
  · cases e <;> rfl
  · cases e with
    | settle r =>
        have hphase := erase_settled (f := f) k found σ r
        simp only [Sessions.next, Sessions.erase, hphase]
        rfl
    | _ => rfl
  · cases e with
    | exec c =>
        simp only [Sessions.next, Sessions.erase, Phase.erase]
        cases P.exec o c σ with
        | none => rfl
        | some r => rfl
    | _ => rfl
  · cases e with
    | call e =>
        have hnext := h.next_eq ⟨σ, waiting, running, log⟩ e
        simp only [Sessions.next, Sessions.erase, Phase.erase, hnext]
    | unbind =>
        cases waiting with
        | cons c waiting => rfl
        | nil =>
            cases running with
            | some holder => rfl
            | none =>
                simp only [Sessions.next, Sessions.erase, List.map_append]
                rfl
    | _ => rfl

/-- The sessions of calls that say less are those of calls that say more, erased. -/
theorem Erases.sessions_eq (h : Erases api' api f) (σ : P.State) (es : List (SessionEvent B Call)) :
  api.sessions σ es = (api'.sessions σ es).erase f
  := by
  induction es using List.reverseRecOn with
  | nil => rfl
  | append_singleton es e ih =>
      rw [sessions, sessions, List.foldl_append, List.foldl_append, ← sessions, ← sessions, ih]
      apply h.sessions_next_eq

end Erase

end Api
