import ZynqRtlFlow.Program.Monitor

/-!
# What a program can do

`Platform.wp` speaks of every run of a program, `Platform.Can` of some run: the
environment can move, and what is left open be chosen, such that the program ends as an
assertion says.  Of a run that exists, `wp` then says the rest (`can_of_wp`).

If no operation of a program can block for ever, the program can end (`can_of_performs`).
A call whose body can end in some way can be made, with the lock free, and return so
(`Api.can_return`).
-/

universe u v w s

namespace Platform

variable {Op : Type u} {Res : Op → Type v} (P : Platform.{u, v, s} Op Res) {α β : Type v}

/-- Some run of the program from `σ` ends as `post` says. -/
def Can (p : Prog Op Res α) (post : α → P.State → Prop) (σ : P.State) : Prop :=
  ∃ a τ, P.Runs p σ a τ ∧ post a τ

variable {P} {post : α → P.State → Prop} {σ : P.State}

theorem moves_append (es es' : List P.Move) (σ : P.State) :
  P.moves (es ++ es') σ = P.moves es' (P.moves es σ)
  := List.foldl_append

theorem can_mono {p : Prog Op Res α} {post' : α → P.State → Prop} (h : P.Can p post σ)
    (hpost : ∀ a τ, post a τ → post' a τ) :
  P.Can p post' σ
  := by
  obtain ⟨a, τ, hrun, ha⟩ := h
  use a, τ, hrun
  apply hpost a τ ha

theorem can_ret {a : α} (h : post a σ) :
  P.Can (pure a : Prog Op Res α) post σ
  := by
  use a, σ
  constructor
  · use rfl, []
    rfl
  · apply h

/-- The environment moves first. -/
theorem can_moves {p : Prog Op Res α} (es : List P.Move) (h : P.Can p post (P.moves es σ)) :
  P.Can p post σ
  := by
  obtain ⟨a, τ, hrun, ha⟩ := h
  use a, τ
  constructor
  · clear ha
    induction es generalizing σ with
    | nil => apply hrun
    | cons e es ih => apply runs_move (ih hrun)
  · apply ha

theorem can_op {o : Op} {k : Res o → Prog Op Res α} {c : P.Choice} {x : Res o} {σ' : P.State}
    (hexec : P.exec o c σ = some (x, σ')) (h : P.Can (k x) post σ') :
  P.Can (.op o k) post σ
  := by
  obtain ⟨a, τ, hrun, ha⟩ := h
  use a, τ
  constructor
  · use [], c, x, σ', hexec
  · apply ha

theorem can_perform {o : Op} {post : Res o → P.State → Prop} {c : P.Choice} {x : Res o}
    {σ' : P.State} (hexec : P.exec o c σ = some (x, σ')) (h : post x σ') :
  P.Can (Prog.perform o) post σ
  := can_op hexec (can_ret h)

theorem runs_seq {p : Prog Op Res α} {f : α → Prog Op Res β} {σ' τ : P.State} {a : α} {b : β}
    (hp : P.Runs p σ a σ') (hf : P.Runs (f a) σ' b τ) :
  P.Runs (p >>= f) σ b τ
  := by
  induction p generalizing σ with
  | ret a' =>
      obtain ⟨rfl, es, rfl⟩ := hp
      change P.Runs (f a) σ b τ
      induction es generalizing σ with
      | nil => apply hf
      | cons e es ih => apply runs_move (ih hf)
  | op o k ih =>
      obtain ⟨es, c, x, σ₁, hexec, hp⟩ := hp
      use es, c, x, σ₁, hexec
      apply ih x hp

/-- A program followed by another, through what some run of the first leaves. -/
theorem can_seq {p : Prog Op Res α} {f : α → Prog Op Res β} {mid : α → P.State → Prop}
    {post : β → P.State → Prop} (hp : P.Can p mid σ)
    (hf : ∀ a τ, mid a τ → P.Can (f a) post τ) :
  P.Can (p >>= f) post σ
  := by
  obtain ⟨a, σ', hrun, ha⟩ := hp
  obtain ⟨b, τ, hrun', hb⟩ := hf a σ' ha
  use b, τ, runs_seq hrun hrun', hb

/-- The run that exists ends as every run does. -/
theorem can_of_wp {p : Prog Op Res α} {post' : α → P.State → Prop} (h : P.Can p post σ)
    (hwp : P.wp p post' σ) :
  P.Can p (fun a τ => post a τ ∧ post' a τ) σ
  := by
  obtain ⟨a, τ, hrun, ha⟩ := h
  use a, τ, hrun, ha
  apply post_of_runs hwp hrun

/-! ### Programs that can end -/

/-- Under the invariant, which the operations of `Q` keep, the environment can always move
such that one of them is performed. -/
structure Responsive (P : Platform.{u, v, s} Op Res) (I : P.State → Prop) (Q : Op → Prop) :
    Prop where
  stable : P.Stable I
  kept : ∀ o c σ x σ', Q o → I σ → P.exec o c σ = some (x, σ') → I σ'
  performed : ∀ o σ, Q o → I σ → ∃ es c x σ', P.exec o c (P.moves es σ) = some (x, σ')

/-- A program of such operations can end. -/
theorem can_of_performs {I : P.State → Prop} {Q : Op → Prop} (hP : P.Responsive I Q)
    {p : Prog Op Res α} (hp : p.Performs Q) (hσ : I σ) :
  P.Can p (fun _ => I) σ
  := by
  induction p generalizing σ with
  | ret a => apply can_ret hσ
  | op o k ih =>
      obtain ⟨es, c, x, σ', hexec⟩ := hP.performed o σ hp.1 hσ
      apply can_moves es
      apply can_op hexec
      apply ih x (hp.2 x)
      apply hP.kept o c _ x σ' hp.1 (hP.stable.moves es hσ) hexec

end Platform

namespace Api

variable {Op : Type u} {Res : Op → Type v} {Call : Type v} {Val : Call → Type v}
  {P : Platform.{u, v, s} Op Res} {api : Api Op Res Call Val}

/-! ### Calls that can return -/

variable (api) in
/-- A run of what is left of a body is a schedule of it. -/
theorem schedule_of_runs {c : Call} {p : Prog Op Res (Val c)} {σ τ : P.State} {v : Val c}
    (h : P.Runs p σ v τ) (waiting : List Call) (log : List (Σ c, Val c)) :
  ∃ es : List (Event P Call),
    es.foldl api.next ⟨σ, waiting, some ⟨c, p⟩, log⟩ = ⟨τ, waiting, some ⟨c, .ret v⟩, log⟩
  := by
  induction p generalizing σ with
  | ret a =>
      obtain ⟨rfl, es, rfl⟩ := h
      use es.map .move
      apply foldl_moves
  | op o k ih =>
      obtain ⟨es, ch, x, σ', hexec, h⟩ := h
      obtain ⟨es', hes'⟩ := ih x h
      use es.map .move ++ .exec ch :: es'
      rw [List.foldl_append, foldl_moves, List.foldl_cons, ← hes']
      congr 1
      simp only [Api.next, hexec]

/-- With the lock free, a call that is not refused can be made and return what some run of
its body returns. -/
theorem can_return {c : Call} (hc : api.early c = none) {post : Val c → P.State → Prop}
    {x : Config P Val} (hx : x.running = none) (h : P.Can (api.body c) post x.state) :
  ∃ (es : List (Event P Call)) (v : Val c),
    (es.foldl api.next x).running = none ∧ (es.foldl api.next x).log = x.log ++ [⟨c, v⟩]
      ∧ post v (es.foldl api.next x).state
  := by
  obtain ⟨σ, waiting, running, log⟩ := x
  cases hx
  obtain ⟨v, τ, hrun, hv⟩ := h
  obtain ⟨es, hes⟩ := schedule_of_runs api hrun waiting log
  let call : List (Event P Call) := [.invoke c, .acquire waiting.length]
  let release : List (Event P Call) := [.release]
  have htake : (waiting ++ [c])[waiting.length]? = some c := by simp
  have hrest : (waiting ++ [c]).eraseIdx waiting.length = waiting := by
    rw [List.eraseIdx_append_of_length_le (Nat.le_refl _), Nat.sub_self]
    apply List.append_nil
  have hcall : call.foldl api.next ⟨σ, waiting, none, log⟩
      = ⟨σ, waiting, some ⟨c, api.body c⟩, log⟩ := by
    simp only [call, List.foldl_cons, List.foldl_nil, Api.next, hc, htake, hrest]
  use call ++ es ++ release, v
  rw [List.foldl_append, List.foldl_append, hcall, hes]
  exact ⟨rfl, rfl, hv⟩

/-! ### From a configuration on -/

/-- A configuration with calls that returned before. -/
def Config.prepend (past : List (Σ c, Val c)) (x : Config P Val) : Config P Val :=
  { x with log := past ++ x.log }

variable (api) in
theorem next_prepend (past : List (Σ c, Val c)) (x : Config P Val) (e : Event P Call) :
  api.next (x.prepend past) e = (api.next x e).prepend past
  := by
  obtain ⟨σ, waiting, running, log⟩ := x
  cases e with
  | move e => rfl
  | invoke c =>
      simp only [Api.next, Config.prepend]
      split
      · rw [List.append_assoc]
      · rfl
  | interrupt k =>
      simp only [Api.next, Config.prepend]
      split
      · rfl
      · split
        · rfl
        · rw [List.append_assoc]
  | acquire k =>
      simp only [Api.next, Config.prepend]
      split
      · rfl
      · rfl
  | exec ch =>
      simp only [Api.next, Config.prepend]
      split
      · split
        · rfl
        · rfl
      · rfl
  | release =>
      simp only [Api.next, Config.prepend]
      split
      · rw [List.append_assoc]
      · rfl

/-- From a configuration in which a device is followed and the lock free, the device
explains what the calls return that return later. -/
theorem Simulates.explains_from {D : Device.{v, s} Call Val} {R : D.State → P.State → Prop}
    (hR : Simulates api D R) {x : Config P Val} (hfree : x.running = none)
    (hwaiting : ∀ c ∈ x.waiting, api.early c = none) (hx : R D.init x.state)
    (es : List (Event P Call)) :
  ∃ later, (es.foldl api.next x).log = x.log ++ later ∧ D.Explains later
  := by
  have hlater : ∀ (y : Config P Val), Invariant api D R y →
      ∃ later, (es.foldl api.next (y.prepend x.log)).log = x.log ++ later ∧ D.Explains later := by
    induction es with
    | nil =>
        intro y hy
        use y.log
        exact ⟨rfl, hy.explains⟩
    | cons e es ih =>
        intro y hy
        rw [List.foldl_cons, next_prepend]
        apply ih _ (hy.next hR e)
  have hstart : Config.prepend x.log (⟨x.state, x.waiting, none, []⟩ : Config P Val) = x := by
    rw [Config.prepend, List.append_nil, ← hfree]
  have hinvariant : Invariant api D R ⟨x.state, x.waiting, none, []⟩ := by
    use Device.explains_nil, hwaiting
    apply hx
  have hx' := hlater _ hinvariant
  rw [hstart] at hx'
  apply hx'

end Api
