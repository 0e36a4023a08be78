import ZynqRtlFlow.Program.Monitor

/-!
# Calls that say more

An interface whose calls return more than those of another, and do the same: erased to
what the other returns, its bodies are the other's.  A schedule of either goes through the
same states, and leaves the same log once erased (`Api.Erases.schedule_eq`).
-/

universe u v s

namespace Api

variable {Op : Type u} {Res : Op → Type v} {Call : Type v} {Val Val' : Call → Type v}
  {P : Platform.{u, v, s} Op Res}

/-- The calls of `api'` erase to those of `api` by `f`. -/
structure Erases (api' : Api Op Res Call Val') (api : Api Op Res Call Val)
    (f : (c : Call) → Val' c → Val c) : Prop where
  early : ∀ c, api.early c = (api'.early c).map (f c)
  interrupted : ∀ c, api.interrupted c = (api'.interrupted c).map (f c)
  body : ∀ c, api.body c = f c <$> api'.body c

/-- A configuration with its values erased. -/
def Config.erase (f : (c : Call) → Val' c → Val c) (x : Config P Val') : Config P Val where
  state := x.state
  waiting := x.waiting
  running := x.running.map fun h => ⟨h.1, f h.1 <$> h.2⟩
  log := x.log.map fun e => ⟨e.1, f e.1 e.2⟩

variable {api' : Api Op Res Call Val'} {api : Api Op Res Call Val}
  {f : (c : Call) → Val' c → Val c}

theorem Erases.next_eq (h : Erases api' api f) (x : Config P Val') (e : Event P Call) :
  api.next (x.erase f) e = (api'.next x e).erase f
  := by
  obtain ⟨σ, waiting, running, log⟩ := x
  cases e with
  | move e => rfl
  | invoke c =>
      simp only [Api.next, h.early c]
      cases api'.early c with
      | none => rfl
      | some v => simp [Config.erase]
  | interrupt k =>
      simp only [Api.next, Config.erase]
      cases waiting[k]? with
      | none => rfl
      | some c =>
          simp only [h.interrupted c]
          cases api'.interrupted c with
          | none => rfl
          | some v => simp
  | acquire k =>
      simp only [Api.next, Config.erase]
      cases running with
      | some holder => rfl
      | none =>
          cases waiting[k]? with
          | none => rfl
          | some c => simp [h.body c]
  | exec ch =>
      obtain _ | ⟨c, v | ⟨o, k⟩⟩ := running
      · rfl
      · rfl
      · have hmap : f c <$> Prog.op o k = Prog.op o fun r => f c <$> k r := rfl
        simp only [Api.next, Config.erase, Option.map_some, hmap]
        cases P.exec o ch σ with
        | none => rfl
        | some r => rfl
  | release =>
      obtain _ | ⟨c, v | ⟨o, k⟩⟩ := running
      · rfl
      · simp only [Api.next, Config.erase, List.map_append]
        rfl
      · rfl

/-- A schedule of the calls that say less is a schedule of those that say more, erased. -/
theorem Erases.schedule_eq (h : Erases api' api f) (σ : P.State) (es : List (Event P Call)) :
  api.schedule σ es = (api'.schedule σ es).erase f
  := by
  induction es using List.reverseRecOn with
  | nil => rfl
  | append_singleton es e ih =>
      rw [schedule, schedule, List.foldl_append, List.foldl_append, ← schedule, ← schedule, ih]
      apply h.next_eq

end Api
