import ZynqRtlFlow.Board.Transport

/-!
# A tile in transit

From its submission a transfer is waiting, moving or gone from its channel, and has moved
so many beats.  The completion a driver waits for is signalled only by a transfer that has
moved all of its beats, and that then is gone.

`Flight` says where both transfers of a tile are, and that an assertion of the
accelerator that counts the beats in and out follows them; it holds on from the issue of
the transfers until they are done or terminated (`stable_flight`).
-/

open AxiLite Driver

namespace Board

/-! ### One transfer -/

/-- The transfer of `desc`, having moved `k` beats of `beatBytes` bytes, in its channel. -/
inductive Carries (beatBytes : ℕ) (desc : Desc) : ℕ → Channel → Prop
  | waiting : Carries beatBytes desc 0 ⟨[desc], [], 0, false⟩
  | moving (k : ℕ) (ended : Bool) (h : ended = true → desc.bytes ≤ k * beatBytes) :
      Carries beatBytes desc k ⟨[], [desc], k, ended⟩
  | gone (k : ℕ) : Carries beatBytes desc k .empty

variable {beatBytes : ℕ} {desc : Desc} {k : ℕ} {ch : Channel}

theorem Carries.of_submit (beatBytes : ℕ) (desc : Desc) :
  Carries beatBytes desc 0 (Channel.empty.submit desc)
  := .waiting

theorem Carries.issuePending (h : Carries beatBytes desc k ch) :
  Carries beatBytes desc k ch.issuePending
  := by
  cases h with
  | waiting =>
      apply Carries.moving
      intro hended
      cases hended
  | moving k ended h => apply Carries.moving k ended h
  | gone k => apply Carries.gone

/-- A transfer that has a beat left to move has not moved all. -/
theorem Carries.of_pending (h : Carries beatBytes desc k ch) (hp : ch.pending beatBytes = true) :
  k * beatBytes < desc.bytes ∧ ch.moved = k
    ∧ ch.atLast beatBytes = decide (desc.bytes ≤ (k + 1) * beatBytes)
  := by
  cases h with
  | waiting => cases hp
  | moving k ended h =>
      simp only [Channel.pending, Bool.and_eq_true, decide_eq_true_eq] at hp
      use hp.2
      constructor <;> rfl
  | gone k => cases hp

theorem Carries.advance (h : Carries beatBytes desc k ch) (hp : ch.pending beatBytes = true)
    {last : Bool} (hlast : last = true → desc.bytes ≤ (k + 1) * beatBytes) :
  Carries beatBytes desc (k + 1) (ch.advance last)
  := by
  cases h with
  | waiting => cases hp
  | moving k ended h =>
      apply Carries.moving
      intro hended
      obtain hended | hended := Bool.or_eq_true_iff.mp hended
      · apply Nat.le_trans (h hended)
        apply Nat.mul_le_mul_right
        omega
      · apply hlast hended
  | gone k => cases hp

/-- The transfer of a tile in its channel, with the completions signalled so far: its own
is signalled only once it has moved all of its beats and is gone. -/
structure Transfer (beatBytes : ℕ) (desc : Desc) (k : ℕ) (ch : Channel) (completed : List ℕ) :
    Prop where
  carries : Carries beatBytes desc k ch
  done : desc.done ∈ completed → desc.bytes ≤ k * beatBytes ∧ ch = .empty

variable {completed : List ℕ}

theorem Transfer.advance (h : Transfer beatBytes desc k ch completed)
    (hp : ch.pending beatBytes = true) {last : Bool}
    (hlast : last = true → desc.bytes ≤ (k + 1) * beatBytes) :
  Transfer beatBytes desc (k + 1) (ch.advance last) completed
  := by
  use h.carries.advance hp hlast
  intro hdone
  obtain ⟨-, rfl⟩ := h.done hdone
  cases hp

theorem Transfer.issuePending (h : Transfer beatBytes desc k ch completed) :
  Transfer beatBytes desc k ch.issuePending completed
  := by
  use h.carries.issuePending
  intro hdone
  obtain ⟨hle, rfl⟩ := h.done hdone
  use hle
  rfl

theorem Transfer.terminate (h : Transfer beatBytes desc k ch completed) :
  Transfer beatBytes desc k .empty completed
  := by
  use .gone k
  intro hdone
  use (h.done hdone).1

/-- The report that a transfer is done. -/
theorem Transfer.retire (h : Transfer beatBytes desc k ch completed) {d : Desc}
    {rest : List Desc} (hissued : ch.issued = d :: rest) (hp : ¬ ch.pending beatBytes = true) :
  d = desc ∧ Transfer beatBytes desc k ch.retire (d.done :: completed)
  := by
  obtain ⟨hcarries, -⟩ := h
  cases hcarries with
  | waiting => cases hissued
  | moving k ended h =>
      obtain ⟨rfl, -⟩ := List.cons.inj hissued
      use rfl, .gone k
      intro _
      constructor
      · cases ended
        · simpa [Channel.pending] using hp
        · apply h rfl
      · rfl
  | gone k => cases hissued

/-- The report that another transfer is done. -/
theorem Transfer.other (h : Transfer beatBytes desc k ch completed) {done : ℕ}
    (hne : desc.done ≠ done) :
  Transfer beatBytes desc k ch (done :: completed)
  := by
  use h.carries
  intro hdone
  obtain hdone | hdone := List.mem_cons.mp hdone
  · exact absurd hdone hne
  · apply h.done hdone

/-! ### Both transfers of a tile -/

/-- What a cycle of the accelerator keeps while it is given a tile of `n` bytes from `buf`:
`Inside j k` says that `j` beats are in and `k` are out, and `result k` is the `k`-th beat
out; the last beat in and the last beat out are those that exhaust the `n` bytes. -/
def Serves (A : Accelerator) (buf : ℕ → BitVec 8) (n : ℕ)
    (Inside : ℕ → ℕ → A.State → Bus → Prop) (result : ℕ → BitVec 8) : Prop :=
  ∀ j k hw bus e valid beat last ready, Inside j k hw bus →
    (valid = true → j * A.beatBytes < n ∧ beat = beatAt A buf j
      ∧ last = decide (n ≤ (j + 1) * A.beatBytes)) →
    (ready = true → k * A.beatBytes < n) →
    let out := A.cycle (bus.drive e) valid beat last ready hw
    Inside (if out.accepted then j + 1 else j) (if out.handed.isSome then k + 1 else k) out.next
        (bus.cycle (A.write hw) (bus.drive e))
      ∧ ∀ byte last, out.handed = some (byte, last) →
        byte = result k ∧ (last = true → n ≤ (k + 1) * A.beatBytes)

variable {A : Accelerator} {π : Type}

/-- While no beat moves, the counts stay. -/
theorem Serves.undisturbed {buf : ℕ → BitVec 8} {n : ℕ} {Inside : ℕ → ℕ → A.State → Bus → Prop}
    {result : ℕ → BitVec 8} (h : Serves A buf n Inside result) (j k : ℕ) :
  Undisturbed A (Inside j k)
  := by
  intro hw bus e beat last hin
  have hstep := (h j k hw bus e false beat last false hin (by simp) (by simp)).1
  simpa only [A.accepted_cycle, A.handed_cycle, Bool.false_eq_true, if_false, Option.isSome_none]
    using hstep

/-- What the memory of the driver keeps while a tile is in transit. -/
structure Kept (m m' : Mem π) : Prop where
  txBuf : m'.txBuf = m.txBuf
  data : m'.data = m.data
  declared : m'.declared = m.declared
  fresh : ∀ c ∈ m'.completed, c < m'.declared

/-- A tile of `n` bytes in transit: `j` beats in, `k` beats out, the beats out received in
order. -/
structure Flight (m : Mem π) (n sent returned : ℕ) (Inside : ℕ → ℕ → A.State → Bus → Prop)
    (result : ℕ → BitVec 8) (j k : ℕ) (σ : State A π) : Prop where
  tx : Transfer A.beatBytes ⟨n, sent⟩ j σ.tx σ.mem.completed
  rx : Transfer A.beatBytes ⟨n, returned⟩ k σ.rx σ.mem.completed
  holds : Inside j k σ.hw σ.bus
  kept : Kept m σ.mem
  received : ∀ i < k, σ.mem.rxBuf i = result i

section Flight

variable {m : Mem π} {n sent returned : ℕ} {Inside : ℕ → ℕ → A.State → Bus → Prop}
  {result : ℕ → BitVec 8} {j : ℕ} {σ : State A π}
  (hserves : Serves A m.txBuf n Inside result)

include hserves

/-- A clock cycle moves a beat in, a beat out, both or neither. -/
theorem Flight.cycle_counts (h : Flight m n sent returned Inside result j k σ) (e : Env) :
  Flight m n sent returned Inside result (if (outcome e σ).accepted then j + 1 else j)
    (if (outcome e σ).handed.isSome then k + 1 else k) (cycle e σ)
  := by
  have hvalid : (e.valid && σ.tx.pending A.beatBytes) = true →
      j * A.beatBytes < n ∧ beatAt A σ.mem.txBuf σ.tx.moved = beatAt A m.txBuf j
        ∧ σ.tx.atLast A.beatBytes = decide (n ≤ (j + 1) * A.beatBytes) := by
    intro hv
    rw [Bool.and_eq_true] at hv
    obtain ⟨hlt, hmoved, hlast⟩ := h.tx.carries.of_pending hv.2
    use hlt
    rw [hmoved, h.kept.txBuf]
    use rfl
  have hready : (e.ready && σ.rx.pending A.beatBytes) = true → k * A.beatBytes < n := by
    intro hr
    rw [Bool.and_eq_true] at hr
    apply (h.rx.carries.of_pending hr.2).1
  obtain ⟨hin, hout⟩ := hserves j k σ.hw σ.bus e.axil _ _ _ _ h.holds hvalid hready
  have hacc : (outcome e σ).accepted = true → σ.tx.pending A.beatBytes = true := by
    intro hacc
    by_contra hp
    rw [Bool.not_eq_true] at hp
    rw [outcome, hp, Bool.and_false, A.accepted_cycle] at hacc
    cases hacc
  have hhand : ∀ x, (outcome e σ).handed = some x → σ.rx.pending A.beatBytes = true := by
    intro x hx
    by_contra hp
    rw [Bool.not_eq_true] at hp
    rw [outcome, hp, Bool.and_false, A.handed_cycle] at hx
    cases hx
  have hmem : ∀ x, (memNext σ.rx σ.mem x).completed = σ.mem.completed
      ∧ Kept m (memNext σ.rx σ.mem x) := by
    intro x
    cases x with
    | none => exact ⟨rfl, h.kept⟩
    | some x => use rfl, h.kept.txBuf, h.kept.data, h.kept.declared, h.kept.fresh
  constructor
  · simp only [Board.cycle, (hmem _).1]
    split
    · apply h.tx.advance (hacc ‹_›)
      intro hlast
      cases hlast
    · apply h.tx
  · simp only [Board.cycle, (hmem _).1]
    cases hx : (outcome e σ).handed with
    | none => apply h.rx
    | some x =>
        apply h.rx.advance (hhand x hx)
        apply (hout x.1 x.2 hx).2
  · apply hin
  · apply (hmem _).2
  · intro i hi
    simp only [Board.cycle]
    cases hx : (outcome e σ).handed with
    | none =>
        rw [hx] at hi
        apply h.received i hi
    | some x =>
        rw [hx] at hi
        obtain ⟨-, hmoved, -⟩ := h.rx.carries.of_pending (hhand x hx)
        simp only [memNext, hmoved]
        by_cases hik : i = k
        · rw [hik, Function.update_self]
          apply (hout x.1 x.2 hx).1
        · rw [Function.update_of_ne hik]
          apply h.received i
          simp only [Option.isSome_some, if_true] at hi
          omega

theorem Flight.cycle (h : Flight m n sent returned Inside result j k σ) (e : Env) :
  ∃ j' k', Flight m n sent returned Inside result j' k' (cycle e σ)
  := ⟨_, _, h.cycle_counts hserves e⟩

omit hserves in
/-- The report of a descriptor done leaves the beats where they are. -/
theorem Flight.complete (h : Flight m n sent returned Inside result j k σ)
    (hsent : sent < m.declared) (hreturned : returned < m.declared) (hne : sent ≠ returned)
    (c : Chan) :
  Flight m n sent returned Inside result j k (complete c σ)
  := by
  have hkept : ∀ done < m.declared, Kept m (σ.mem.complete done) := by
    intro done hdone
    use h.kept.txBuf, h.kept.data, h.kept.declared
    intro c' hc'
    obtain rfl | hc' := List.mem_cons.mp hc'
    · rw [← h.kept.declared] at hdone
      apply hdone
    · apply h.kept.fresh c' hc'
  rw [Board.complete]
  split
  · apply h
  · rename_i d rest hissued
    split
    · apply h
    · rename_i hp
      cases c with
      | tx =>
          obtain ⟨rfl, htx⟩ := h.tx.retire hissued hp
          constructor
          · apply htx
          · apply h.rx.other hne.symm
          · apply h.holds
          · apply hkept sent hsent
          · apply h.received
      | rx =>
          obtain ⟨rfl, hrx⟩ := h.rx.retire hissued hp
          constructor
          · apply h.tx.other hne
          · apply hrx
          · apply h.holds
          · apply hkept returned hreturned
          · apply h.received

/-- A tile stays in transit whatever the hardware does. -/
theorem stable_flight (hsent : sent < m.declared) (hreturned : returned < m.declared)
    (hne : sent ≠ returned) :
  (platform A π).Stable fun σ => ∃ j k, Flight m n sent returned Inside result j k σ
  := by
  apply stable_of
  · rintro e σ ⟨j, k, h⟩
    apply h.cycle hserves e
  · rintro c σ ⟨j, k, h⟩
    use j, k
    apply h.complete hsent hreturned hne c

end Flight

end Board
