import ZynqRtlFlow.Program.Monitor

/-!
# Clients of a device

A client makes calls one after another and goes on with what they return.  Its calls stand
in a log in their order; between them stand calls of others, as long as these change
nothing (`Device.Plays`).

If whatever the device lets it see the client ends as some assertion says
(`Device.Ensures`), then so does a client that plays in a log the device explains.
-/

universe v w s

namespace Device

variable {Call : Type v} {Val : Call → Type v} (D : Device.{v, s} Call Val) {α β : Type w}

/-- A call that leaves every state of the device as it is. -/
def Harmless (e : Σ c, Val c) : Prop :=
  ∀ d, D.step d e.1 e.2 = d

/-- The client that makes its calls in the log, among harmless calls of others, and ends
with a value. -/
inductive Plays : Prog Call Val α → List (Σ c, Val c) → α → Prop
  | ret (a : α) : Plays (.ret a) [] a
  | call (c : Call) (k : Val c → Prog Call Val α) (v : Val c) (log : List (Σ c, Val c)) (a : α)
      (h : Plays (k v) log a) : Plays (.op c k) (⟨c, v⟩ :: log) a
  | other (p : Prog Call Val α) (e : Σ c, Val c) (log : List (Σ c, Val c)) (a : α)
      (he : D.Harmless e) (h : Plays p log a) : Plays p (e :: log) a

/-- Whatever the device allows its calls to return from the state `d`, the client ends as
`post` says. -/
def Ensures (post : α → D.State → Prop) : Prog Call Val α → D.State → Prop
  | .ret a, d => post a d
  | .op c k, d => ∀ v, D.Allows d c v → Ensures post (k v) (D.step d c v)

/-- What the client ends with if the log lists its calls and no others. -/
def replay [DecidableEq Call] : Prog Call Val α → List (Σ c, Val c) → Option α
  | .ret a, [] => some a
  | .op c k, ⟨c', v⟩ :: log => if h : c' = c then replay (k (h ▸ v)) log else none
  | _, _ => none

variable {D}

theorem plays_of_replay [DecidableEq Call] {p : Prog Call Val α} {log : List (Σ c, Val c)} {a : α}
    (h : replay p log = some a) :
  D.Plays p log a
  := by
  induction p generalizing log with
  | ret b =>
      cases log with
      | nil =>
          obtain rfl := Option.some.inj h
          apply Plays.ret
      | cons e log => cases h
  | op c k ih =>
      cases log with
      | nil => cases h
      | cons e log =>
          obtain ⟨c', v⟩ := e
          rw [replay] at h
          split at h
          · rename_i hc
            obtain rfl := hc
            apply Plays.call
            apply ih v h
          · cases h

theorem Ensures.mono {post post' : α → D.State → Prop} {p : Prog Call Val α} {d : D.State}
    (h : D.Ensures post p d) (hpost : ∀ a d', post a d' → post' a d') :
  D.Ensures post' p d
  := by
  induction p generalizing d with
  | ret a => apply hpost a d h
  | op c k ih =>
      intro v hv
      apply ih v (h v hv)

/-- A client followed by another, through what holds between them. -/
theorem Ensures.bind {mid : α → D.State → Prop} {post : β → D.State → Prop}
    {p : Prog Call Val α} {f : α → Prog Call Val β} {d : D.State} (hp : D.Ensures mid p d)
    (hf : ∀ a d', mid a d' → D.Ensures post (f a) d') :
  D.Ensures post (p.bind f) d
  := by
  induction p generalizing d with
  | ret a => apply hf a d hp
  | op c k ih =>
      intro v hv
      apply ih v (hp v hv)

/-- The rest of an explained log explains what a client that plays in it ends with. -/
theorem Plays.ensured {post : α → D.State → Prop} {p : Prog Call Val α}
    {past log : List (Σ c, Val c)} {a : α} (hlog : D.Explains (past ++ log))
    (hplays : D.Plays p log a) (h : D.Ensures post p (D.after past)) :
  post a (D.after (past ++ log))
  := by
  induction hplays generalizing past with
  | ret a =>
      rw [List.append_nil]
      apply h
  | call c k v log a hk ih =>
      have hallows : D.Allows (D.after past) c v := hlog past ⟨c, v⟩ log rfl
      rw [List.append_cons] at hlog ⊢
      apply ih hlog
      rw [after_concat]
      apply h v hallows
  | other p e log a he hp ih =>
      rw [List.append_cons] at hlog ⊢
      apply ih hlog
      rw [after_concat, he]
      apply h

/-- A client that plays in an explained log ends as it ensures. -/
theorem Plays.post {post : α → D.State → Prop} {p : Prog Call Val α}
    {log : List (Σ c, Val c)} {a : α} (hplays : D.Plays p log a) (hlog : D.Explains log)
    (h : D.Ensures post p D.init) :
  post a (D.after log)
  := by
  rw [← List.nil_append log] at hlog ⊢
  apply hplays.ensured hlog h

end Device
