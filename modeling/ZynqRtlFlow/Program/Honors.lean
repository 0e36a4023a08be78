import ZynqRtlFlow.Program.Monitor

/-!
# What a program promises of its operations

A program honors `Q` if every operation it performs is one of `Q`, as long as every
operation before it returned what `S` says it may.  What an operation is given may so
depend on what others have returned.

A platform upholds the promise if operations of `Q` keep an invariant and return what `S`
says.  If all bodies honor what is asked of them, then throughout every schedule the
invariant holds, and the operation about to be performed is one of `Q`
(`Api.honored_schedule`).
-/

universe u v w s

namespace Prog

variable {Op : Type u} {Res : Op → Type v} {α β : Type w}

/-- Every operation the program performs is one of `Q`, and its value satisfies `post`, as
long as operations return what `S` says. -/
def Honors (S : (o : Op) → Res o → Prop) (Q : Op → Prop) (post : α → Prop) : Prog Op Res α → Prop
  | .ret a => post a
  | .op o k => Q o ∧ ∀ x, S o x → (k x).Honors S Q post

variable {S : (o : Op) → Res o → Prop} {Q : Op → Prop}

theorem honors_perform {o : Op} (h : Q o) :
  (perform o : Prog Op Res (Res o)).Honors S Q (S o)
  := ⟨h, fun _ hx => hx⟩

theorem Honors.mono {p : Prog Op Res α} {post post' : α → Prop} (h : p.Honors S Q post)
    (hpost : ∀ a, post a → post' a) :
  p.Honors S Q post'
  := by
  induction p with
  | ret a => apply hpost a h
  | op o k ih =>
      use h.1
      intro x hx
      apply ih x (h.2 x hx)

theorem Honors.trivial {p : Prog Op Res α} {post : α → Prop} (h : p.Honors S Q post) :
  p.Honors S Q fun _ => True
  := h.mono fun _ _ => True.intro

/-- A program followed by another, through what holds of the value between them. -/
theorem honors_bind {p : Prog Op Res α} {f : α → Prog Op Res β} {mid : α → Prop}
    {post : β → Prop} (hp : p.Honors S Q mid) (hf : ∀ a, mid a → (f a).Honors S Q post) :
  (p >>= f).Honors S Q post
  := by
  induction p with
  | ret a => apply hf a hp
  | op o k ih =>
      use hp.1
      intro x hx
      apply ih x (hp.2 x hx)

/-- If operations may return anything, the program performs the operations promised. -/
theorem performs_of_honors {p : Prog Op Res α} {post : α → Prop}
    (h : p.Honors (fun _ _ => True) Q post) :
  p.Performs Q
  := by
  induction p with
  | ret a => trivial
  | op o k ih =>
      use h.1
      intro x
      apply ih x (h.2 x True.intro)

/-- A program with its value mapped performs no operation more. -/
theorem performs_of_map {f : α → β} {p : Prog Op Res α} (h : (f <$> p).Performs Q) :
  p.Performs Q
  := by
  induction p with
  | ret a => trivial
  | op o k ih =>
      obtain ⟨ho, hk⟩ : Q o ∧ ∀ x, (f <$> k x).Performs Q := h
      use ho
      intro x
      apply ih x (hk x)

/-- A program all of whose operations are some `Q` whatever they return. -/
theorem honors_of_performs {p : Prog Op Res α} (h : p.Performs Q) :
  p.Honors S Q fun _ => True
  := by
  induction p with
  | ret a => trivial
  | op o k ih =>
      use h.1
      intro x _
      apply ih x (h.2 x)

end Prog

/-- Operations of `Q` keep the invariant and return what `S` says. -/
def Platform.Upholds {Op : Type u} {Res : Op → Type v} (P : Platform.{u, v, s} Op Res)
    (I : P.State → Prop) (S : (o : Op) → Res o → Prop) (Q : Op → Prop) : Prop :=
  ∀ o c σ x σ', I σ → Q o → P.exec o c σ = some (x, σ') → I σ' ∧ S o x

namespace Platform

variable {Op : Type u} {Res : Op → Type v} {P : Platform.{u, v, s} Op Res} {α : Type v}

theorem wp_and {p : Prog Op Res α} {post post' : α → P.State → Prop} {σ : P.State}
    (h : P.wp p post σ) (h' : P.wp p post' σ) :
  P.wp p (fun a τ => post a τ ∧ post' a τ) σ
  := by
  unfold wp
  intro a τ hrun
  use post_of_runs h hrun
  apply post_of_runs h' hrun

/-- A program all of whose operations keep a stable invariant keeps it. -/
theorem wp_of_performs {I : P.State → Prop} {S : (o : Op) → Res o → Prop} {Q : Op → Prop}
    (hI : P.Stable I) (hP : P.Upholds I S Q) {p : Prog Op Res α} (hp : p.Performs Q) {σ : P.State}
    (hσ : I σ) :
  P.wp p (fun _ => I) σ
  := by
  induction p generalizing σ with
  | ret a => apply wp_skip hI hσ
  | op o k ih =>
      have hperform : P.wp (Prog.perform o) (fun _ => I) σ := by
        apply wp_perform hI hσ fun _ => hI
        intro τ c x τ' hτ hexec
        apply (hP o c τ x τ' hτ hp.1 hexec).1
      apply wp_seq (f := k) hperform
      intro x τ hτ
      apply ih x (hp.2 x) hτ

end Platform

namespace Api

variable {Op : Type u} {Res : Op → Type v} {Call : Type v} {Val : Call → Type v}
  {P : Platform.{u, v, s} Op Res} {api : Api Op Res Call Val} {I : P.State → Prop}
  {S : (o : Op) → Res o → Prop} {Q : Call → Op → Prop}

/-- The invariant holds, the calls that wait were not refused, and the call that runs
honors to its end what is asked of it. -/
structure Honored (api : Api Op Res Call Val) (I : P.State → Prop)
    (S : (o : Op) → Res o → Prop) (Q : Call → Op → Prop) (x : Config P Val) : Prop where
  holds : I x.state
  waiting : ∀ c ∈ x.waiting, api.early c = none
  running : ∀ c p, x.running = some ⟨c, p⟩ → p.Honors S (Q c) fun _ => True

theorem Honored.next (hI : P.Stable I) (hP : ∀ c, P.Upholds I S (Q c))
    (hbody : ∀ c, api.early c = none → (api.body c).Honors S (Q c) fun _ => True)
    {x : Config P Val} (hx : Honored api I S Q x) (e : Event P Call) :
  Honored api I S Q (api.next x e)
  := by
  obtain ⟨σ, waiting, running, log⟩ := x
  obtain ⟨hσ, hwaiting, hrunning⟩ := hx
  have herase : ∀ k, ∀ c ∈ waiting.eraseIdx k, api.early c = none := by
    intro k c hc
    apply hwaiting c (List.mem_of_mem_eraseIdx hc)
  cases e with
  | move e => use hI e σ hσ, hwaiting, hrunning
  | invoke c =>
      simp only [Api.next]
      split
      · use hσ, hwaiting, hrunning
      · rename_i hc
        use hσ, ?_, hrunning
        intro c' hc'
        obtain hc' | hc' := List.mem_append.mp hc'
        · apply hwaiting c' hc'
        · obtain rfl := List.mem_singleton.mp hc'
          apply hc
  | interrupt k =>
      simp only [Api.next]
      split
      · use hσ, hwaiting, hrunning
      · split
        · use hσ, hwaiting, hrunning
        · use hσ, herase k, hrunning
  | acquire k =>
      simp only [Api.next]
      split
      · rename_i c hc
        use hσ, herase k
        rintro c' p ⟨⟩
        apply hbody c (hwaiting c (List.mem_of_getElem? hc))
      · use hσ, hwaiting, hrunning
  | exec ch =>
      simp only [Api.next]
      split
      · split
        · rename_i c o k _ x' σ' hexec
          obtain ⟨ho, hk⟩ := hrunning c (.op o k) rfl
          obtain ⟨hσ', hx'⟩ := hP c o ch σ x' σ' hσ ho hexec
          use hσ', hwaiting
          rintro c' p ⟨⟩
          apply hk x' hx'
        · use hσ, hwaiting, hrunning
      · use hσ, hwaiting, hrunning
  | release =>
      simp only [Api.next]
      split
      · use hσ, hwaiting
        rintro c p ⟨⟩
      · use hσ, hwaiting, hrunning

/-- Throughout every schedule the invariant holds, and the operation about to be performed
is one of those that the call promises. -/
theorem honored_schedule (hI : P.Stable I) (hP : ∀ c, P.Upholds I S (Q c))
    (hbody : ∀ c, api.early c = none → (api.body c).Honors S (Q c) fun _ => True)
    {σ : P.State} (hσ : I σ) (es : List (Event P Call)) :
  I (api.schedule σ es).state
    ∧ ∀ c o k, (api.schedule σ es).running = some ⟨c, .op o k⟩ → Q c o
  := by
  have h : Honored api I S Q (api.schedule σ es) := by
    apply schedule_induction
    · use hσ
      · intro c hc
        cases hc
      · rintro c p ⟨⟩
    · intro x e hx
      apply hx.next hI hP hbody
  use h.holds
  intro c o k hrunning
  apply (h.running c _ hrunning).1

/-- A device that is followed is followed while an invariant holds that all bodies keep. -/
theorem Simulates.and {D : Device.{v, s} Call Val} {R : D.State → P.State → Prop}
    (hR : Simulates api D R) (hI : P.Stable I) {Q : Op → Prop} (hP : P.Upholds I S Q)
    (hbody : ∀ c, (api.body c).Performs Q) :
  Simulates api D fun d σ => R d σ ∧ I σ
  := by
  constructor
  · intro d
    apply (hR.stable d).and hI
  · apply hR.early
  · apply hR.interrupted
  · rintro d c σ hearly ⟨hσ, hi⟩
    have hwp := Platform.wp_and (hR.body d c σ hearly hσ)
      (Platform.wp_of_performs hI hP (hbody c) hi)
    apply Platform.wp_mono hwp
    rintro v τ ⟨⟨hallows, hr⟩, hi⟩
    exact ⟨hallows, hr, hi⟩

end Api
