import Mathlib.Data.List.Perm.Basic
import ZynqRtlFlow.Program.Monitor

/-!
# No call is stuck

A platform is unblocked if, from every state that an invariant allows, some moves of the
environment lead to one in which the operation asked for is performed, whatever answer is
then chosen for it.  So from every configuration a schedule goes through, the calls made can
all return without anything else being asked of the environment, without a call being
interrupted, and however each operation is answered in the light of all that went before
(`Api.all_return`).

Every call made is in the log once, or waits, or runs (`Api.accounted`).
-/

universe u v s

namespace Platform

variable {Op : Type u} {Res : Op → Type v} (P : Platform.{u, v, s} Op Res)

/-- The invariant is kept, and under it the moves `Helps` bring about the operation asked
for, whatever is then chosen for it. -/
structure Unblocked (I : P.State → Prop) (Helps : P.Move → Prop) : Prop where
  stable : P.Stable I
  kept : ∀ o c σ x σ', I σ → P.exec o c σ = some (x, σ') → I σ'
  performed : ∀ o σ, I σ → ∃ es, (∀ e ∈ es, Helps e)
    ∧ ∀ ch, ∃ r, P.exec o ch (P.moves es σ) = some r

end Platform

namespace Api

variable {Op : Type u} {Res : Op → Type v} {Call : Type v} {Val : Call → Type v}
  {P : Platform.{u, v, s} Op Res} (api : Api Op Res Call Val)

/-! ### Every call is accounted for -/

/-- The calls made in a schedule. -/
def called (es : List (Event P Call)) : List Call :=
  es.filterMap fun
    | .invoke c => some c
    | _ => none

/-- The calls of a configuration: those that have returned, those that wait and the one
that runs. -/
def Config.calls (x : Config P Val) : List Call :=
  x.log.map Sigma.fst ++ (x.waiting ++ (x.running.map Sigma.fst).toList)

theorem perm_eraseIdx {l : List Call} {k : ℕ} {c : Call} (h : l[k]? = some c) :
  l.Perm (c :: l.eraseIdx k)
  := by
  obtain ⟨hk, rfl⟩ := List.getElem?_eq_some_iff.mp h
  apply (List.getElem_cons_eraseIdx_perm hk).symm

variable {api}

/-- An event changes the calls of a configuration only if it makes one. -/
theorem calls_next (x : Config P Val) (e : Event P Call) :
  (api.next x e).calls.Perm (x.calls ++ called [e])
  := by
  obtain ⟨σ, waiting, running, log⟩ := x
  have hsame : ∀ y : Config P Val, y.calls.Perm (y.calls ++ []) := by
    intro y
    rw [List.append_nil]
  cases e with
  | move e => apply hsame
  | invoke c =>
      simp only [Api.next]
      split
      · simp only [Config.calls, called, List.map_append, List.map_cons, List.map_nil,
          List.filterMap_cons, List.filterMap_nil, List.append_assoc]
        apply List.Perm.append_left
        apply List.perm_append_comm.trans
        rw [List.append_assoc]
      · simp only [Config.calls, called, List.filterMap_cons, List.filterMap_nil, List.append_assoc]
        apply List.Perm.append_left
        apply List.Perm.append_left
        apply List.perm_append_comm
  | interrupt k =>
      simp only [Api.next]
      split
      · apply hsame
      · rename_i c hc
        split
        · apply hsame
        · simp only [Config.calls, called, List.map_append, List.map_cons, List.map_nil,
            List.filterMap_cons, List.filterMap_nil, List.append_nil, List.append_assoc]
          apply List.Perm.append_left
          rw [← List.append_assoc]
          apply List.Perm.append_right
          apply (perm_eraseIdx hc).symm
  | acquire k =>
      simp only [Api.next]
      split
      · rename_i c hc
        simp only [Config.calls, called, List.filterMap_cons, List.filterMap_nil, List.append_nil,
          Option.map_some, Option.map_none, Option.toList_some, Option.toList_none]
        apply List.Perm.append_left
        apply List.perm_append_comm.trans
        apply (perm_eraseIdx hc).symm
      · apply hsame
  | exec ch =>
      simp only [Api.next]
      split
      · split
        · apply hsame
        · apply hsame
      · apply hsame
  | release =>
      simp only [Api.next]
      split
      · simp only [Config.calls, called, List.map_append, List.map_cons, List.map_nil,
          List.filterMap_cons, List.filterMap_nil, List.append_nil, List.append_assoc,
          Option.map_some, Option.map_none, Option.toList_some, Option.toList_none]
        apply List.Perm.append_left
        apply List.perm_append_comm
      · apply hsame

variable (api) in
/-- Every call made has returned once, or waits, or runs. -/
theorem accounted (x : Config P Val) (es : List (Event P Call)) :
  (es.foldl api.next x).calls.Perm (x.calls ++ called es)
  := by
  induction es generalizing x with
  | nil =>
      rw [called, List.filterMap_nil, List.append_nil]
      apply List.Perm.refl
  | cons e es ih =>
      have hcalled : called (e :: es) = called [e] ++ called es := by
        rw [called, called, called, ← List.filterMap_append, List.singleton_append]
      rw [List.foldl_cons, hcalled, ← List.append_assoc]
      apply (ih (api.next x e)).trans
      apply List.Perm.append_right
      apply calls_next

/-! ### Every call can return -/

/-- The invariant of an unblocked platform holds throughout every schedule. -/
theorem state_schedule {I : P.State → Prop} {Helps : P.Move → Prop}
    (hU : P.Unblocked I Helps) {σ : P.State} (hσ : I σ) (es : List (Event P Call)) :
  I (api.schedule σ es).state
  := by
  apply schedule_induction (I := fun x => I x.state)
  · apply hσ
  · rintro ⟨τ, waiting, running, log⟩ e hτ
    cases e with
    | move e => apply hU.stable e τ hτ
    | invoke c =>
        simp only [Api.next]
        split
        · apply hτ
        · apply hτ
    | interrupt k =>
        simp only [Api.next]
        split
        · apply hτ
        · split
          · apply hτ
          · apply hτ
    | acquire k =>
        simp only [Api.next]
        split
        · apply hτ
        · apply hτ
    | exec ch =>
        simp only [Api.next]
        split
        · split
          · rename_i hexec
            apply hU.kept _ _ _ _ _ hτ hexec
          · apply hτ
        · apply hτ
    | release =>
        simp only [Api.next]
        split
        · apply hτ
        · apply hτ

/-- How the operations are answered, each after the events up to then. -/
abbrev Answers (P : Platform.{u, v, s} Op Res) (Call : Type v) :=
  List (Event P Call) → P.Choice

/-- An event that asks nothing of the environment but the moves `Helps`, chooses `ch` for
the operation performed, makes no call and interrupts none. -/
def Patient (Helps : P.Move → Prop) (ch : P.Choice) : Event P Call → Prop
  | .move e => Helps e
  | .exec c => c = ch
  | .acquire _ | .release => True
  | .invoke _ | .interrupt _ => False

/-- Events after those in `past` are patient, each with the answer that is due. -/
def Awaits (Helps : P.Move → Prop) (answers : Answers P Call) :
    List (Event P Call) → List (Event P Call) → Prop
  | _, [] => True
  | past, e :: more => Patient Helps (answers past) e ∧ Awaits Helps answers (past ++ [e]) more

variable {I : P.State → Prop} {Helps : P.Move → Prop} {answers : Answers P Call}

theorem Awaits.append {past first rest : List (Event P Call)} (h : Awaits Helps answers past first)
    (hrest : Awaits Helps answers (past ++ first) rest) :
  Awaits Helps answers past (first ++ rest)
  := by
  induction first generalizing past with
  | nil =>
      rw [List.append_nil] at hrest
      apply hrest
  | cons e first ih =>
      use h.1
      apply ih h.2
      rw [List.append_assoc]
      apply hrest

theorem awaits_moves {ms : List P.Move} (h : ∀ e ∈ ms, Helps e) (past : List (Event P Call)) :
  Awaits Helps answers past (ms.map Event.move)
  := by
  induction ms generalizing past with
  | nil => trivial
  | cons m ms ih =>
      use h m List.mem_cons_self
      apply ih
      intro e he
      apply h e (List.mem_cons_of_mem m he)

theorem called_of_awaits {past es : List (Event P Call)} (h : Awaits Helps answers past es) :
  called es = []
  := by
  induction es generalizing past with
  | nil => rfl
  | cons e es ih =>
      have hes := ih h.2
      cases e with
      | invoke c => cases h.1
      | _ => apply hes

variable (api) in
/-- What runs can go on to its end and release the lock. -/
theorem body_returns (hU : P.Unblocked I Helps) (c : Call) (p : Prog Op Res (Val c))
    (past : List (Event P Call)) {σ : P.State} (hσ : I σ) (waiting : List Call)
    (log : List (Σ c, Val c)) :
  ∃ (es : List (Event P Call)) (τ : P.State) (v : Val c), Awaits Helps answers past es ∧ I τ
    ∧ es.foldl api.next ⟨σ, waiting, some ⟨c, p⟩, log⟩ = ⟨τ, waiting, none, log ++ [⟨c, v⟩]⟩
  := by
  induction p generalizing past σ with
  | ret v =>
      use [.release], σ, v
      exact ⟨⟨trivial, trivial⟩, hσ, rfl⟩
  | op o k ih =>
      obtain ⟨ms, hms, hexec⟩ := hU.performed o σ hσ
      let sofar := past ++ ms.map Event.move
      obtain ⟨⟨r, σ'⟩, hr⟩ := hexec (answers sofar)
      have hσ' := hU.kept o _ _ r σ' (hU.stable.moves ms hσ) hr
      obtain ⟨es, τ, v, hes, hτ, hfold⟩ := ih r (sofar ++ [.exec (answers sofar)]) hσ'
      use ms.map Event.move ++ .exec (answers sofar) :: es, τ, v
      refine ⟨?_, hτ, ?_⟩
      · apply (awaits_moves hms past).append
        exact ⟨rfl, hes⟩
      · rw [List.foldl_append, foldl_moves, List.foldl_cons, ← hfold]
        congr 1
        simp only [Api.next, hr]

variable (api) in
/-- The calls that wait can each take the lock and return. -/
theorem waiting_return (hU : P.Unblocked I Helps) (waiting : List Call)
    (past : List (Event P Call)) {σ : P.State} (hσ : I σ) (log : List (Σ c, Val c)) :
  ∃ (es : List (Event P Call)) (τ : P.State) (log' : List (Σ c, Val c)),
    Awaits Helps answers past es ∧ I τ
      ∧ es.foldl api.next ⟨σ, waiting, none, log⟩ = ⟨τ, [], none, log'⟩
  := by
  induction waiting generalizing past σ log with
  | nil =>
      use [], σ, log
      exact ⟨trivial, hσ, rfl⟩
  | cons c waiting ih =>
      obtain ⟨es, τ, v, hes, hτ, hfold⟩ :=
        body_returns api hU c (api.body c) (past ++ [.acquire 0]) hσ waiting log
      obtain ⟨es', τ', log', hes', hτ', hfold'⟩ :=
        ih (past ++ [.acquire 0] ++ es) hτ (log ++ [⟨c, v⟩])
      use .acquire 0 :: (es ++ es'), τ', log'
      refine ⟨⟨trivial, hes.append hes'⟩, hτ', ?_⟩
      rw [List.foldl_cons, List.foldl_append, ← hfold', ← hfold]
      rfl

variable (api) in
/-- The call that runs and those that wait can return. -/
theorem rest_return (hU : P.Unblocked I Helps) (past : List (Event P Call)) {x : Config P Val}
    (hx : I x.state) :
  ∃ more : List (Event P Call), Awaits Helps answers past more
    ∧ (more.foldl api.next x).running = none ∧ (more.foldl api.next x).waiting = []
  := by
  obtain ⟨σ, waiting, running, log⟩ := x
  cases running with
  | none =>
      obtain ⟨more, τ, log', hmore, -, hfold⟩ := waiting_return api hU waiting past hx log
      use more, hmore
      rw [hfold]
      use rfl
  | some holder =>
      obtain ⟨c, p⟩ := holder
      obtain ⟨first, τ, v, hfirst, hτ, hfold⟩ := body_returns api hU c p past hx waiting log
      obtain ⟨more, τ', log', hmore, -, hfold'⟩ :=
        waiting_return api hU waiting (past ++ first) hτ (log ++ [⟨c, v⟩])
      use first ++ more, hfirst.append hmore
      rw [List.foldl_append, hfold, hfold']
      use rfl

/-- From every configuration a schedule goes through, all calls made can return, each
once, without one of them being interrupted, however the operations are answered. -/
theorem all_return (hU : P.Unblocked I Helps) {σ : P.State} (hσ : I σ) (answers : Answers P Call)
    (es : List (Event P Call)) :
  ∃ more : List (Event P Call), Awaits Helps answers es more
    ∧ (api.schedule σ (es ++ more)).running = none
    ∧ (api.schedule σ (es ++ more)).waiting = []
    ∧ ((api.schedule σ (es ++ more)).log.map Sigma.fst).Perm (called es)
  := by
  obtain ⟨more, hmore, hrunning, hwaiting⟩ := rest_return api hU es (state_schedule hU hσ es)
  rw [← schedule_append] at hrunning hwaiting
  use more, hmore, hrunning, hwaiting
  have hcalls := accounted api ⟨σ, [], none, []⟩ (es ++ more)
  have hcalled : called (es ++ more) = called es := by
    rw [called, List.filterMap_append, ← called, ← called, called_of_awaits hmore, List.append_nil]
  change (api.schedule σ (es ++ more)).calls.Perm ([] ++ called (es ++ more)) at hcalls
  rw [Config.calls, hrunning, hwaiting, hcalled] at hcalls
  simpa using hcalls

end Api
