import Mathlib.Data.List.Induction

/-!
# Synchronous machines

A synchronous machine has one clock: at every edge, the state and the inputs of the
cycle that ends give the next state.  A run from a state is the list of the inputs of
its cycles; its history is the list of its cycles, each a state together with the inputs
presented in it.

A property of histories and states that holds of the empty history and is carried over
one edge holds after every run (`Machine.history_induction`).
-/

/-- A synchronous machine with states `σ` and inputs `ι`. -/
structure Machine (σ ι : Type*) where
  /-- The state after the edge that ends a cycle in state `s` with inputs `i`. -/
  next : σ → ι → σ

namespace Machine

variable {σ ι : Type*} (m : Machine σ ι)

/-- The state after the cycles with inputs `is`, from `s`. -/
def run (s : σ) (is : List ι) : σ :=
  is.foldl m.next s

/-- The cycles of the run with inputs `is` from `s`, in order. -/
def history : σ → List ι → List (σ × ι)
  | _, [] => []
  | s, i :: is => (s, i) :: history (m.next s i) is

@[simp]
theorem run_nil (s : σ) :
  m.run s [] = s
  := rfl

@[simp]
theorem run_cons (s : σ) (i : ι) (is : List ι) :
  m.run s (i :: is) = m.run (m.next s i) is
  := rfl

@[simp]
theorem history_nil (s : σ) :
  m.history s [] = []
  := rfl

@[simp]
theorem history_cons (s : σ) (i : ι) (is : List ι) :
  m.history s (i :: is) = (s, i) :: m.history (m.next s i) is
  := rfl

theorem run_append (s : σ) (is js : List ι) :
  m.run s (is ++ js) = m.run (m.run s is) js
  := List.foldl_append

theorem history_append (s : σ) (is js : List ι) :
  m.history s (is ++ js) = m.history s is ++ m.history (m.run s is) js
  := by
  induction is generalizing s with
  | nil => rfl
  | cons i is ih => simp [ih]

theorem run_concat (s : σ) (is : List ι) (i : ι) :
  m.run s (is ++ [i]) = m.next (m.run s is) i
  := m.run_append s is [i]

theorem history_concat (s : σ) (is : List ι) (i : ι) :
  m.history s (is ++ [i]) = m.history s is ++ [(m.run s is, i)]
  := m.history_append s is [i]

/-- A part `n` of a machine, whose state and inputs are read off by `f` and `g`, runs
along with it. -/
theorem run_map {τ κ : Type*} {n : Machine τ κ} {f : σ → τ} {g : ι → κ}
    (part : ∀ s i, f (m.next s i) = n.next (f s) (g i)) (s : σ) (is : List ι) :
  f (m.run s is) = n.run (f s) (is.map g)
  := by
  induction is generalizing s with
  | nil => rfl
  | cons i is ih => rw [run_cons, ih, part, List.map_cons, run_cons]

theorem history_map {τ κ : Type*} {n : Machine τ κ} {f : σ → τ} {g : ι → κ}
    (part : ∀ s i, f (m.next s i) = n.next (f s) (g i)) (s : σ) (is : List ι) :
  (m.history s is).map (Prod.map f g) = n.history (f s) (is.map g)
  := by
  induction is generalizing s with
  | nil => rfl
  | cons i is ih => simp only [history_cons, List.map_cons, Prod.map_apply, ih, part]

/-- A property of histories and states that holds at the start of a run and is carried
over every edge holds at the end of the run. -/
theorem history_induction {s : σ} {P : List (σ × ι) → σ → Prop} (start : P [] s)
    (edge : ∀ h t i, P h t → P (h ++ [(t, i)]) (m.next t i)) (is : List ι) :
  P (m.history s is) (m.run s is)
  := by
  induction is using List.reverseRecOn with
  | nil => apply start
  | append_singleton is i ih =>
      rw [history_concat, run_concat]
      apply edge _ _ _ ih

/-- A property of states that holds at the start of a run and is preserved by every edge
holds at the end of the run. -/
theorem run_invariant {s : σ} {P : σ → Prop} (start : P s)
    (edge : ∀ t i, P t → P (m.next t i)) (is : List ι) :
  P (m.run s is)
  := m.history_induction (P := fun _ t => P t) start (fun _ t i => edge t i) is

/-- What a run shows, cycle by cycle, `out` being what a cycle shows. -/
def outputs {ο : Type*} (out : σ → ι → ο) (s : σ) (is : List ι) : List ο :=
  (m.history s is).map fun c => out c.1 c.2

/-- States related by a relation that every edge preserves, and that determines what a
cycle shows, show the same under the same inputs, for ever. -/
theorem outputs_eq_of_related {ο : Type*} {out : σ → ι → ο} {R : σ → σ → Prop}
    (edge : ∀ s t i, R s t → R (m.next s i) (m.next t i))
    (same : ∀ s t i, R s t → out s i = out t i) {s t : σ} (h : R s t) (is : List ι) :
  m.outputs out s is = m.outputs out t is
  := by
  induction is generalizing s t with
  | nil => rfl
  | cons i is ih =>
      have hrest := ih (edge s t i h)
      simp only [outputs, history_cons, List.map_cons] at hrest ⊢
      rw [same s t i h, hrest]

/-- Two runs whose cycles are alike one by one show the same, if alike cycles from related
states do and lead to related states. -/
theorem outputs_eq_of_alike {ο : Type*} {out : σ → ι → ο} {R : σ → σ → Prop}
    {Alike : σ × ι → σ × ι → Prop}
    (edge : ∀ s t i j, R s t → Alike (s, i) (t, j) → R (m.next s i) (m.next t j))
    (same : ∀ s t i j, R s t → Alike (s, i) (t, j) → out s i = out t j) {s t : σ} (h : R s t)
    {is js : List ι} (halike : List.Forall₂ Alike (m.history s is) (m.history t js)) :
  m.outputs out s is = m.outputs out t js
  := by
  induction is generalizing s t js with
  | nil =>
      cases js with
      | nil => rfl
      | cons j js => cases halike
  | cons i is ih =>
      cases js with
      | nil => cases halike
      | cons j js =>
          obtain ⟨hfirst, hrest⟩ := List.forall₂_cons.mp halike
          have htail := ih (edge s t i j h hfirst) hrest
          simp only [outputs, history_cons, List.map_cons] at htail ⊢
          rw [same s t i j h hfirst, htail]

end Machine

/-! ### The past of a cycle -/

section Past

variable {α : Type*}

/-- The elements of a list, each with the elements before it, after `past`. -/
def withPastFrom (past : List α) : List α → List (List α × α)
  | [] => []
  | a :: rest => (past, a) :: withPastFrom (past ++ [a]) rest

/-- The elements of a list, each with the elements before it. -/
def withPast (l : List α) : List (List α × α) :=
  withPastFrom [] l

@[simp]
theorem withPast_nil :
  withPast ([] : List α) = []
  := rfl

theorem withPastFrom_concat (past l : List α) (a : α) :
  withPastFrom past (l ++ [a]) = withPastFrom past l ++ [(past ++ l, a)]
  := by
  induction l generalizing past with
  | nil => simp [withPastFrom]
  | cons b l ih => simp [withPastFrom, ih]

@[simp]
theorem withPast_concat (l : List α) (a : α) :
  withPast (l ++ [a]) = withPast l ++ [(l, a)]
  := withPastFrom_concat [] l a

end Past
