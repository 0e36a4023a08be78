import ZynqRtlFlow.Program.Monitor

/-!
# What holds throughout a run

`Platform.wp` speaks of the end of a run.  `Platform.Always` speaks of all of it: an
assertion holds in every state the run goes through, and another at its end.

A schedule of calls under a lock satisfies an assertion between calls, and another
throughout each of them, if every body does (`Api.guarded_schedule`); this holds from any
configuration on, not only from the first.
-/

universe u v w s

namespace Platform

variable {Op : Type u} {Res : Op → Type v} {P : Platform.{u, v, s} Op Res} {α β : Type v}

variable (P) in
/-- `I` holds in every state a run of the program from `σ` goes through, and `post` at its
end. -/
def Always (p : Prog Op Res α) (I : P.State → Prop) (post : α → P.State → Prop)
    (σ : P.State) : Prop :=
  match p with
  | .ret a => ∀ es, I (P.moves es σ) ∧ post a (P.moves es σ)
  | .op o k =>
      ∀ es, I (P.moves es σ)
        ∧ ∀ c x σ', P.exec o c (P.moves es σ) = some (x, σ') → Always (k x) I post σ'

variable {I : P.State → Prop} {σ : P.State}

theorem Always.holds {p : Prog Op Res α} {post : α → P.State → Prop}
    (h : P.Always p I post σ) :
  I σ
  := by
  cases p with
  | ret a => apply (h []).1
  | op o k => apply (h []).1

theorem Always.move {p : Prog Op Res α} {post : α → P.State → Prop}
    (h : P.Always p I post σ) (e : P.Move) :
  P.Always p I post (P.move e σ)
  := by
  cases p with
  | ret a =>
      intro es
      apply h (e :: es)
  | op o k =>
      intro es
      apply h (e :: es)

theorem Always.post {a : α} {post : α → P.State → Prop}
    (h : P.Always (.ret a : Prog Op Res α) I post σ) :
  post a σ
  := (h []).2

theorem Always.exec {o : Op} {k : Res o → Prog Op Res α} {post : α → P.State → Prop}
    (h : P.Always (.op o k) I post σ) {c : P.Choice} {x : Res o} {σ' : P.State}
    (hexec : P.exec o c σ = some (x, σ')) :
  P.Always (k x) I post σ'
  := (h []).2 c x σ' hexec

theorem always_mono {p : Prog Op Res α} {post post' : α → P.State → Prop}
    (h : P.Always p I post σ) (hpost : ∀ a τ, post a τ → post' a τ) :
  P.Always p I post' σ
  := by
  induction p generalizing σ with
  | ret a =>
      intro es
      use (h es).1
      apply hpost _ _ (h es).2
  | op o k ih =>
      intro es
      use (h es).1
      intro c x σ' hexec
      apply ih x ((h es).2 c x σ' hexec)

/-- A program followed by another, through what holds between them. -/
theorem always_seq {p : Prog Op Res α} {f : α → Prog Op Res β} {mid : α → P.State → Prop}
    {post : β → P.State → Prop} (hp : P.Always p I mid σ)
    (hf : ∀ a τ, mid a τ → P.Always (f a) I post τ) :
  P.Always (p >>= f) I post σ
  := by
  induction p generalizing σ with
  | ret a => apply hf a σ hp.post
  | op o k ih =>
      intro es
      use (hp es).1
      intro c x σ' hexec
      apply ih x ((hp es).2 c x σ' hexec)

/-- A program that returns at once. -/
theorem always_ret {a : α} {post : α → P.State → Prop} (hstable : P.Stable (post a))
    (hI : ∀ τ, post a τ → I τ) (h : post a σ) :
  P.Always (pure a : Prog Op Res α) I post σ
  := by
  intro es
  have hpost := hstable.moves es h
  use hI _ hpost

/-- An operation performed while a stable assertion holds. -/
theorem always_perform {o : Op} {F : P.State → Prop} {post : Res o → P.State → Prop}
    (hF : P.Stable F) (hFI : ∀ τ, F τ → I τ) (hσ : F σ) (hpost : ∀ x, P.Stable (post x))
    (hpostI : ∀ x τ, post x τ → I τ)
    (h : ∀ σ c x σ', F σ → P.exec o c σ = some (x, σ') → post x σ') :
  P.Always (Prog.perform o) I post σ
  := by
  intro es
  have hes := hF.moves es hσ
  use hFI _ hes
  intro c x σ' hexec
  apply always_ret (hpost x) (hpostI x)
  apply h _ c x σ' hes hexec

/-- A program all of whose operations keep a stable assertion. -/
theorem always_of_performs {p : Prog Op Res α} {Q : Op → Prop} (hp : p.Performs Q)
    {F : P.State → Prop} (hF : P.Stable F) (hFI : ∀ τ, F τ → I τ)
    (hQ : ∀ o, Q o → ∀ σ c x σ', F σ → P.exec o c σ = some (x, σ') → F σ') (hσ : F σ) :
  P.Always p I (fun _ => F) σ
  := by
  induction p generalizing σ with
  | ret a => apply always_ret hF hFI hσ
  | op o k ih =>
      intro es
      have hes := hF.moves es hσ
      use hFI _ hes
      intro c x σ' hexec
      apply ih x (hp.2 x)
      apply hQ o hp.1 _ c x σ' hes hexec

end Platform

namespace Api

variable {Op : Type u} {Res : Op → Type v} {Call : Type v} {Val : Call → Type v}
  {P : Platform.{u, v, s} Op Res} (api : Api Op Res Call Val)

/-- `Between` holds between calls, and every body keeps it while `During` holds
throughout. -/
structure Guards (Between : P.State → Prop) (During : Call → P.State → Prop) : Prop where
  stable : P.Stable Between
  body : ∀ c σ, Between σ → P.Always (api.body c) (During c) (fun _ => Between) σ

/-- A configuration satisfies `Between` while the lock is free, and what is left of a
body keeps `During`. -/
def Guarded (Between : P.State → Prop) (During : Call → P.State → Prop) (x : Config P Val) :
    Prop :=
  match x.running with
  | none => Between x.state
  | some ⟨c, p⟩ => P.Always p (During c) (fun _ => Between) x.state

variable {api} {Between : P.State → Prop} {During : Call → P.State → Prop}

theorem Guarded.idle {x : Config P Val} (hx : Guarded Between During x)
    (hrunning : x.running = none) :
  Between x.state
  := by
  rw [Guarded, hrunning] at hx
  apply hx

/-- What holds in a guarded configuration. -/
theorem Guarded.running {x : Config P Val} (hx : Guarded Between During x) {c : Call}
    {p : Prog Op Res (Val c)} (hrunning : x.running = some ⟨c, p⟩) :
  During c x.state
  := by
  rw [Guarded, hrunning] at hx
  apply Platform.Always.holds hx

/-- A call that has only to return has left `Between`. -/
theorem Guarded.returning {x : Config P Val} (hx : Guarded Between During x) {c : Call}
    {v : Val c} (hrunning : x.running = some ⟨c, .ret v⟩) :
  Between x.state
  := by
  rw [Guarded, hrunning] at hx
  apply Platform.Always.post hx

theorem guarded_next (hg : api.Guards Between During) {x : Config P Val}
    (hx : Guarded Between During x) (e : Event P Call) :
  Guarded Between During (api.next x e)
  := by
  obtain ⟨σ, waiting, running, log⟩ := x
  cases e with
  | move e =>
      cases running with
      | none => apply hg.stable e σ hx
      | some h => apply Platform.Always.move hx e
  | invoke c =>
      simp only [Api.next]
      split
      · apply hx
      · apply hx
  | interrupt k =>
      simp only [Api.next]
      split
      · apply hx
      · split
        · apply hx
        · apply hx
  | acquire k =>
      simp only [Api.next]
      split
      · apply hg.body _ _ hx
      · apply hx
  | exec ch =>
      simp only [Api.next]
      split
      · split
        · rename_i hexec
          apply Platform.Always.exec hx hexec
        · apply hx
      · apply hx
  | release =>
      simp only [Api.next]
      split
      · apply hx.returning rfl
      · apply hx

/-- Whatever the schedule, from a guarded configuration on. -/
theorem guarded_schedule (hg : api.Guards Between During) {x : Config P Val}
    (hx : Guarded Between During x) (es : List (Event P Call)) :
  Guarded Between During (es.foldl api.next x)
  := by
  induction es generalizing x with
  | nil => apply hx
  | cons e es ih => apply ih (guarded_next hg hx e)

end Api
