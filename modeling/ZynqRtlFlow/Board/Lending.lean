import ZynqRtlFlow.Board.System
import ZynqRtlFlow.Driver.RegisterLayer
import ZynqRtlFlow.Program.Always

/-!
# Descriptors lent to the channels

While a tile runs, a channel holds its descriptor or nothing, and the completion of the
descriptor is signalled at most once, by the channel that holds it.  `Lending` says which
descriptor each channel may hold, whatever the accelerator does and however its register
layer uses the registers; the lemmas below say what each operation of the transport does
to it.
-/

open AxiLite Driver

namespace Board

/-- The descriptors a channel holds, in the order in which it works through them. -/
def descs (ch : Channel) : List Desc :=
  ch.issued ++ ch.submitted

/-- Where the descriptor of a tile is: the channel expects none; it may be submitted; it
has been submitted, and the channel holds it until it is done or terminated. -/
inductive Loan where
  | none
  | due (desc : Desc)
  | lent (desc : Desc)
  deriving DecidableEq, Repr

/-- The descriptor of a loan. -/
def Loan.desc : Loan → Option Desc
  | .none => .none
  | .due desc => some desc
  | .lent desc => some desc

/-- A channel, and the completions signalled, are as a loan says. -/
def Loan.Holds (ch : Channel) (completed : List ℕ) : Loan → Prop
  | .none => descs ch = []
  | .due desc => descs ch = [] ∧ desc.done ∉ completed
  | .lent desc => (descs ch = [] ∨ descs ch = [desc]) ∧ (desc.done ∈ completed → descs ch = [])

/-- The memory of the driver once `now` completions have been declared: only declared ones
have been signalled, and each of the first `old` as often as `signals` says. -/
structure Signals (old : ℕ) (signals : ℕ → ℕ) (now : ℕ) {π : Type} (m : Mem π) : Prop where
  le : old ≤ now
  declared : m.declared = now
  fresh : ∀ c ∈ m.completed, c < now
  count : ∀ c < old, m.completed.count c = signals c

/-- The channels hold at most the descriptors lent to them: of `bytes` bytes, with
different completions, declared after the first `old`. -/
structure Lending (old : ℕ) (signals : ℕ → ℕ) (bytes now : ℕ) (loan : Chan → Loan)
    {A : Accelerator} {π : Type} (σ : State A π) : Prop where
  signals : Signals old signals now σ.mem
  holds : ∀ c, (loan c).Holds (chan σ c) σ.mem.completed
  bytes : ∀ c desc, (loan c).desc = some desc → desc.bytes = bytes
  done : ∀ c desc, (loan c).desc = some desc → old ≤ desc.done ∧ desc.done < now
  distinct : ∀ c c' desc desc', (loan c).desc = some desc → (loan c').desc = some desc' →
    desc.done = desc'.done → c = c'

/-- Both channels hold no descriptor. -/
structure Returned (old : ℕ) (signals : ℕ → ℕ) {A : Accelerator} {π : Type} (σ : State A π) :
    Prop where
  signals : Signals old signals σ.mem.declared σ.mem
  empty : ∀ c, descs (chan σ c) = []

variable {A : Accelerator} {π : Type} {old : ℕ} {signals : ℕ → ℕ} {bytes now : ℕ}
  {loan : Chan → Loan} {σ : State A π}

/-! ### The moves of the hardware -/

/-- A clock cycle moves beats and no descriptor. -/
theorem descs_cycle (e : Env) (σ : State A π) (c : Chan) :
  descs (chan (cycle e σ) c) = descs (chan σ c)
  := by
  cases c with
  | tx =>
      simp only [chan, cycle]
      split
      · rfl
      · rfl
  | rx =>
      simp only [chan, cycle]
      cases (outcome e σ).handed with
      | none => rfl
      | some x => rfl

theorem memNext_completed (rx : Channel) (mem : Mem π) (x : Option (BitVec 8 × Bool)) :
  (memNext rx mem x).completed = mem.completed ∧ (memNext rx mem x).declared = mem.declared
  := by
  cases x with
  | none => exact ⟨rfl, rfl⟩
  | some x => exact ⟨rfl, rfl⟩

/-- A change of the board that leaves the descriptors and the completions as they are. -/
structure Steady (σ τ : State A π) : Prop where
  descs : ∀ c, descs (chan τ c) = descs (chan σ c)
  completed : τ.mem.completed = σ.mem.completed
  declared : τ.mem.declared = σ.mem.declared

theorem Signals.steady {τ : State A π} (h : Signals old signals now σ.mem) (hs : Steady σ τ) :
  Signals old signals now τ.mem
  := by
  constructor
  · apply h.le
  · rw [hs.declared, h.declared]
  · rw [hs.completed]
    apply h.fresh
  · rw [hs.completed]
    apply h.count

theorem Loan.Holds.congr {l : Loan} {ch ch' : Channel} {completed : List ℕ}
    (h : l.Holds ch completed) (hd : descs ch' = descs ch) :
  l.Holds ch' completed
  := by
  cases l with
  | none => apply hd.trans h
  | due desc => exact ⟨hd.trans h.1, h.2⟩
  | lent desc =>
      rw [Loan.Holds, hd]
      apply h

theorem Lending.steady {τ : State A π} (h : Lending old signals bytes now loan σ)
    (hs : Steady σ τ) :
  Lending old signals bytes now loan τ
  := by
  constructor
  · apply h.signals.steady hs
  · intro c
    rw [hs.completed]
    apply (h.holds c).congr (hs.descs c)
  · apply h.bytes
  · apply h.done
  · apply h.distinct

theorem Returned.steady {τ : State A π} (h : Returned old signals σ) (hs : Steady σ τ) :
  Returned old signals τ
  := by
  constructor
  · rw [hs.declared]
    apply h.signals.steady hs
  · intro c
    rw [hs.descs c, h.empty c]

theorem steady_cycle (e : Env) (σ : State A π) :
  Steady σ (cycle e σ)
  := by
  constructor
  · apply descs_cycle
  · apply (memNext_completed _ _ _).1
  · apply (memNext_completed _ _ _).2

theorem chan_setChan (σ : State A π) (ch : Channel) (c c' : Chan) :
  chan (setChan σ ch c) c' = if c' = c then ch else chan σ c'
  := by
  cases c <;> cases c' <;> rfl

theorem mem_setChan (σ : State A π) (ch : Channel) (c : Chan) :
  (setChan σ ch c).mem = σ.mem
  := by
  cases c <;> rfl

/-- A channel that holds a descriptor has it on loan. -/
theorem Loan.Holds.lent_of_mem {l : Loan} {ch : Channel} {completed : List ℕ}
    (h : l.Holds ch completed) {desc : Desc} (hd : desc ∈ descs ch) :
  l = .lent desc ∧ descs ch = [desc] ∧ desc.done ∉ completed
  := by
  cases l with
  | none =>
      rw [h] at hd
      cases hd
  | due d =>
      rw [h.1] at hd
      cases hd
  | lent d =>
      obtain hnil | hone := h.1
      · rw [hnil] at hd
        cases hd
      · rw [hone] at hd
        obtain rfl := List.mem_singleton.mp hd
        use rfl, hone
        intro hdone
        rw [h.2 hdone] at hone
        cases hone

/-- Another's completion does not matter to a loan. -/
theorem Loan.Holds.signal {l : Loan} {ch : Channel} {completed : List ℕ}
    (h : l.Holds ch completed) {done : ℕ} (hne : ∀ desc, l.desc = some desc → desc.done ≠ done) :
  l.Holds ch (done :: completed)
  := by
  cases l with
  | none => apply h
  | due desc =>
      use h.1
      intro hmem
      obtain heq | hmem := List.mem_cons.mp hmem
      · apply hne desc rfl heq
      · apply h.2 hmem
  | lent desc =>
      use h.1
      intro hmem
      obtain heq | hmem := List.mem_cons.mp hmem
      · exact absurd heq (hne desc rfl)
      · apply h.2 hmem

/-- The report that a descriptor is done gives it back. -/
theorem Lending.complete (h : Lending old signals bytes now loan σ) (c : Chan) :
  Lending old signals bytes now loan (complete c σ)
  := by
  rw [Board.complete]
  split
  · apply h
  · rename_i desc rest hissued
    split
    · apply h
    · have hmem : desc ∈ descs (chan σ c) := by
        rw [descs, hissued]
        apply List.mem_append_left _ List.mem_cons_self
      obtain ⟨hlent, hone, -⟩ := (h.holds c).lent_of_mem hmem
      have hdesc : (loan c).desc = some desc := by
        rw [hlent]
        rfl
      obtain ⟨hold, hnow⟩ := h.done c desc hdesc
      have hgone : descs (chan σ c).retire = [] := by
        rw [descs, hissued] at hone
        obtain ⟨-, hrest⟩ := List.cons.inj hone
        rw [descs, Channel.retire, hissued]
        apply hrest
      constructor
      · use h.signals.le, h.signals.declared
        · intro d hd
          obtain rfl | hd := List.mem_cons.mp hd
          · apply hnow
          · apply h.signals.fresh d hd
        · intro d hd
          rw [← h.signals.count d hd]
          apply List.count_cons_of_ne
          omega
      · intro c'
        change (loan c').Holds (chan (setChan σ (chan σ c).retire c) c') _
        rw [chan_setChan]
        split
        · rename_i heq
          rw [heq, hlent]
          use .inl hgone
          intro _
          apply hgone
        · rename_i hne
          apply (h.holds c').signal
          intro desc' hdesc' hdone
          apply hne
          apply h.distinct c' c desc' desc hdesc' hdesc hdone
      · apply h.bytes
      · apply h.done
      · apply h.distinct

theorem stable_lending :
  (platform A π).Stable (Lending old signals bytes now loan)
  := by
  apply stable_of
  · intro e σ h
    apply h.steady (steady_cycle e σ)
  · intro c σ h
    apply h.complete c

theorem stable_returned :
  (platform A π).Stable (Returned old signals)
  := by
  apply stable_of
  · intro e σ h
    apply h.steady (steady_cycle e σ)
  · intro c σ h
    have hissued : (chan σ c).issued = [] := (List.append_eq_nil_iff.mp (h.empty c)).1
    rw [complete, hissued]
    apply h

end Board
