import Mathlib.Data.List.Basic
import Mathlib.Tactic.TypeStar

/-!
# Programs in an environment

A program ends with a value, or performs an operation and goes on with its result.  It
runs on a platform, whose environment moves any number of times before every operation
and after the last one, and chooses among the results an operation can have.

`Platform.wp` is the weakest precondition of a program over all its runs.  An assertion
that holds between two operations has to be stable under the moves of the environment.
-/

universe u v w s

/-- A program over the operations `Op` with results `Res`. -/
inductive Prog (Op : Type u) (Res : Op → Type v) (α : Type w) : Type (max u v w)
  | ret (a : α) : Prog Op Res α
  | op (o : Op) (k : Res o → Prog Op Res α) : Prog Op Res α

namespace Prog

variable {Op : Type u} {Res : Op → Type v}

/-- A program followed by another. -/
protected def bind {α β : Type w} : Prog Op Res α → (α → Prog Op Res β) → Prog Op Res β
  | .ret a, f => f a
  | .op o k, f => .op o fun x => (k x).bind f

instance : Monad (Prog Op Res) where
  pure := .ret
  bind := Prog.bind

/-- A single operation. -/
def perform (o : Op) : Prog Op Res (Res o) :=
  .op o .ret

protected theorem bind_assoc {α β γ : Type w} (p : Prog Op Res α) (f : α → Prog Op Res β)
    (g : β → Prog Op Res γ) :
  (p >>= f) >>= g = p >>= fun a => f a >>= g
  := by
  induction p with
  | ret a => rfl
  | op o k ih =>
      change op o _ = op o _
      congr 1
      funext x
      apply ih x

protected theorem bind_pure {α : Type w} (p : Prog Op Res α) :
  p >>= pure = p
  := by
  induction p with
  | ret a => rfl
  | op o k ih =>
      change op o _ = op o _
      congr 1
      funext x
      apply ih x

instance : LawfulMonad (Prog Op Res) :=
  LawfulMonad.mk' (Prog Op Res) Prog.bind_pure (fun _ _ => rfl) Prog.bind_assoc

/-- Every operation the program can perform is one of `Q`. -/
def Performs {α : Type w} (Q : Op → Prop) : Prog Op Res α → Prop
  | .ret _ => True
  | .op o k => Q o ∧ ∀ x, (k x).Performs Q

theorem Performs.mono {α : Type w} {Q Q' : Op → Prop} {p : Prog Op Res α} (h : p.Performs Q)
    (hQ : ∀ o, Q o → Q' o) :
  p.Performs Q'
  := by
  induction p with
  | ret a => trivial
  | op o k ih =>
      use hQ o h.1
      intro x
      apply ih x (h.2 x)

theorem performs_pure {α : Type w} (Q : Op → Prop) (a : α) :
  (pure a : Prog Op Res α).Performs Q
  := trivial

theorem performs_perform {Q : Op → Prop} {o : Op} (h : Q o) :
  (perform o : Prog Op Res (Res o)).Performs Q
  := ⟨h, fun _ => trivial⟩

theorem performs_bind {α β : Type w} {Q : Op → Prop} {p : Prog Op Res α}
    {f : α → Prog Op Res β} (hp : p.Performs Q) (hf : ∀ a, (f a).Performs Q) :
  (p >>= f).Performs Q
  := by
  induction p with
  | ret a => apply hf
  | op o k ih =>
      use hp.1
      intro x
      apply ih x (hp.2 x)

end Prog

/-- A platform that runs programs. -/
structure Platform (Op : Type u) (Res : Op → Type v) : Type (max u v (s + 1)) where
  State : Type s
  /-- The moves of the environment. -/
  Move : Type s
  move : Move → State → State
  /-- What is left open when an operation is performed. -/
  Choice : Type s
  /-- The result of an operation and the state after it, if it can be performed. -/
  exec : (o : Op) → Choice → State → Option (Res o × State)

namespace Platform

variable {Op : Type u} {Res : Op → Type v} (P : Platform.{u, v, s} Op Res) {α β : Type v}

/-- The state after a sequence of moves. -/
def moves (es : List P.Move) (σ : P.State) : P.State :=
  es.foldl (fun σ e => P.move e σ) σ

/-- The runs of a program: from the state `σ` it can return `a` in the state `τ`. -/
def Runs : Prog Op Res α → P.State → α → P.State → Prop
  | .ret b, σ, a, τ => a = b ∧ ∃ es, τ = P.moves es σ
  | .op o k, σ, a, τ =>
      ∃ es c x σ', P.exec o c (P.moves es σ) = some (x, σ') ∧ Runs (k x) σ' a τ

/-- Every run of the program from `σ` ends as `post` says. -/
def wp (p : Prog Op Res α) (post : α → P.State → Prop) (σ : P.State) : Prop :=
  ∀ a τ, P.Runs p σ a τ → post a τ

/-- An assertion is stable if no move of the environment breaks it. -/
def Stable (I : P.State → Prop) : Prop :=
  ∀ e σ, I σ → I (P.move e σ)

variable {P}

theorem Stable.moves {I : P.State → Prop} (hI : P.Stable I) (es : List P.Move) {σ : P.State}
    (hσ : I σ) :
  I (P.moves es σ)
  := by
  induction es generalizing σ with
  | nil => apply hσ
  | cons e es ih => apply ih (hI e σ hσ)

theorem Stable.and {I J : P.State → Prop} (hI : P.Stable I) (hJ : P.Stable J) :
  P.Stable fun σ => I σ ∧ J σ
  := by
  rintro e σ ⟨hi, hj⟩
  use hI e σ hi
  apply hJ e σ hj

/-! ### Runs -/

theorem runs_move {p : Prog Op Res α} {e : P.Move} {σ τ : P.State} {a : α}
    (h : P.Runs p (P.move e σ) a τ) :
  P.Runs p σ a τ
  := by
  cases p with
  | ret b =>
      obtain ⟨rfl, es, rfl⟩ := h
      use rfl, e :: es
      rfl
  | op o k =>
      obtain ⟨es, h⟩ := h
      use e :: es
      apply h

/-- A run of two programs in sequence is a run of the first and then one of the second. -/
theorem runs_bind {p : Prog Op Res α} {f : α → Prog Op Res β} {σ τ : P.State} {b : β}
    (h : P.Runs (p >>= f) σ b τ) :
  ∃ a σ', P.Runs p σ a σ' ∧ P.Runs (f a) σ' b τ
  := by
  induction p generalizing σ with
  | ret a =>
      use a, σ
      constructor
      · use rfl, []
        rfl
      · apply h
  | op o k ih =>
      obtain ⟨es, c, x, σ₁, hexec, h⟩ := h
      obtain ⟨a, σ', hp, hf⟩ := ih x h
      use a, σ'
      constructor
      · use es, c, x, σ₁, hexec
      · apply hf

/-- A run of a program with its value mapped is a run of the program. -/
theorem runs_map {p : Prog Op Res α} {f : α → β} {σ τ : P.State} {b : β} :
  P.Runs (f <$> p) σ b τ ↔ ∃ a, b = f a ∧ P.Runs p σ a τ
  := by
  induction p generalizing σ with
  | ret a =>
      constructor
      · rintro ⟨rfl, hmoves⟩
        use a, rfl, rfl
      · rintro ⟨_, rfl, rfl, hmoves⟩
        use rfl
  | op o k ih =>
      constructor
      · rintro ⟨es, c, x, σ', hexec, h⟩
        obtain ⟨a, hb, h⟩ := (ih x).mp h
        use a, hb, es, c, x, σ', hexec
      · rintro ⟨a, hb, es, c, x, σ', hexec, h⟩
        use es, c, x, σ', hexec
        apply (ih x).mpr
        use a, hb

/-! ### Weakest preconditions -/

theorem post_of_runs {p : Prog Op Res α} {post : α → P.State → Prop} {σ τ : P.State} {a : α}
    (h : P.wp p post σ) (hrun : P.Runs p σ a τ) :
  post a τ
  := h a τ hrun

theorem wp_trivial (p : Prog Op Res α) (σ : P.State) :
  P.wp p (fun _ _ => True) σ
  := fun _ _ _ => trivial

theorem wp_mono {p : Prog Op Res α} {post post' : α → P.State → Prop} {σ : P.State}
    (h : P.wp p post σ) (hpost : ∀ a τ, post a τ → post' a τ) :
  P.wp p post' σ
  := by
  intro a τ hrun
  apply hpost a τ (h a τ hrun)

theorem wp_map {p : Prog Op Res α} {f : α → β} {post : β → P.State → Prop} {σ : P.State}
    (h : P.wp p (fun a => post (f a)) σ) :
  P.wp (f <$> p) post σ
  := by
  intro b τ hrun
  obtain ⟨a, rfl, hrun'⟩ := runs_map.mp hrun
  apply h a τ hrun'

theorem wp_bind {p : Prog Op Res α} {f : α → Prog Op Res β} {post : β → P.State → Prop}
    {σ : P.State} (h : P.wp p (fun a τ => P.wp (f a) post τ) σ) :
  P.wp (p >>= f) post σ
  := by
  intro b τ hrun
  obtain ⟨a, σ', hp, hf⟩ := runs_bind hrun
  apply h a σ' hp b τ hf

/-- A program followed by another, through what holds between them. -/
theorem wp_seq {p : Prog Op Res α} {f : α → Prog Op Res β} {mid : α → P.State → Prop}
    {post : β → P.State → Prop} {σ : P.State} (hp : P.wp p mid σ)
    (hf : ∀ a τ, mid a τ → P.wp (f a) post τ) :
  P.wp (p >>= f) post σ
  := wp_bind (wp_mono hp hf)

/-- A program that returns at once ends in any state the environment moves to. -/
theorem wp_ret {a : α} {post : α → P.State → Prop} {σ : P.State} (hstable : P.Stable (post a))
    (h : post a σ) :
  P.wp (pure a : Prog Op Res α) post σ
  := by
  rintro b τ ⟨rfl, es, rfl⟩
  apply hstable.moves es h

theorem wp_skip {a : α} {I : P.State → Prop} {σ : P.State} (hI : P.Stable I) (h : I σ) :
  P.wp (pure a : Prog Op Res α) (fun _ => I) σ
  := wp_ret hI h

/-- An operation is performed in some state that satisfies the stable assertion before
it. -/
theorem wp_perform {o : Op} {I : P.State → Prop} {post : Res o → P.State → Prop} {σ : P.State}
    (hI : P.Stable I) (hσ : I σ) (hpost : ∀ x, P.Stable (post x))
    (h : ∀ σ c x σ', I σ → P.exec o c σ = some (x, σ') → post x σ') :
  P.wp (Prog.perform o) post σ
  := by
  rintro x τ ⟨es, c, y, σ', hexec, rfl, es', rfl⟩
  apply (hpost _).moves es'
  apply h _ c _ σ' (hI.moves es hσ) hexec

/-- A weakest precondition is stable: the environment moves before the program does. -/
theorem stable_wp (p : Prog Op Res α) (post : α → P.State → Prop) :
  P.Stable (P.wp p post)
  := by
  intro e σ h a τ hrun
  apply h a τ (runs_move hrun)

/-! ### One step at a time -/

theorem wp_exec {o : Op} {k : Res o → Prog Op Res α} {post : α → P.State → Prop}
    {σ σ' : P.State} (h : P.wp (.op o k) post σ) {c : P.Choice} {x : Res o}
    (hexec : P.exec o c σ = some (x, σ')) :
  P.wp (k x) post σ'
  := by
  intro a τ hrun
  apply h a τ
  use [], c, x, σ', hexec

theorem post_of_wp_ret {a : α} {post : α → P.State → Prop} {σ : P.State}
    (h : P.wp (.ret a : Prog Op Res α) post σ) :
  post a σ
  := by
  apply h a σ
  use rfl, []
  rfl

attribute [irreducible] wp

end Platform
