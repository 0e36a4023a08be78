import ZynqRtlFlow.Board.Lending
import ZynqRtlFlow.Board.Quiet
import ZynqRtlFlow.Rtl.Ports

/-!
# Every exit of `accel_run_tile`

`accel_run_tile` leaves at nine places, with three different cleanups.  Followed with the
descriptors lent to the channels, every one of them leaves both channels holding none, so
the completions on its stack are not signalled once it has returned, and no later tile
shares a channel with a descriptor of an earlier one (`channels_empty_on_every_exit`).
-/

open AxiLite Driver

namespace Board

variable {A : Accelerator} {π : Type} {old : ℕ} {signals : ℕ → ℕ} {bytes : ℕ}

/-- Throughout a tile of `bytes` bytes, the channels hold what is lent to them. -/
def Lends (A : Accelerator) (π : Type) (old : ℕ) (signals : ℕ → ℕ) (bytes : ℕ)
    (σ : State A π) : Prop :=
  ∃ now loan, Lending old signals bytes now loan σ

variable {now : ℕ} {loan : Chan → Loan} {σ : State A π}

theorem Lending.lends (h : Lending old signals bytes now loan σ) :
  Lends A π old signals bytes σ
  := ⟨now, loan, h⟩

theorem Returned.lending (h : Returned old signals σ) (bytes : ℕ) :
  Lending old signals bytes σ.mem.declared (fun _ => .none) σ
  := by
  constructor
  · apply h.signals
  · apply h.empty
  · intro c desc hdesc
    cases hdesc
  · intro c desc hdesc
    cases hdesc
  · intro c c' desc desc' hdesc
    cases hdesc

theorem Returned.lends (h : Returned old signals σ) (bytes : ℕ) :
  Lends A π old signals bytes σ
  := (h.lending bytes).lends

/-- With no descriptor lent, both channels have been returned. -/
theorem Lending.returned (h : Lending old signals bytes now loan σ)
    (hloan : ∀ c desc, loan c ≠ .lent desc) :
  Returned old signals σ
  := by
  constructor
  · rw [h.signals.declared]
    apply h.signals
  · intro c
    have hholds := h.holds c
    cases hc : loan c with
    | none =>
        rw [hc] at hholds
        apply hholds
    | due desc =>
        rw [hc] at hholds
        apply hholds.1
    | lent desc => exact absurd hc (hloan c desc)

/-! ### The operations -/

/-- An operation that touches neither a channel nor a completion. -/
theorem steady_of_noDma {o : KernelOp π} (ho : o.NoDma) {c : Choice} {x : o.Res}
    {τ : State A π} (hexec : exec o c σ = some (x, τ)) :
  Steady σ τ
  := by
  cases o with
  | readl reg =>
      obtain ⟨-, rfl, -⟩ := exec_readl hexec
      apply steady_cycle
  | writel word reg =>
      obtain ⟨-, rfl⟩ := Prod.mk.inj (Option.some.inj hexec)
      exact ⟨fun c => by cases c <;> rfl, rfl, rfl⟩
  | copyFromUser bytes =>
      obtain ⟨-, rfl⟩ := Prod.mk.inj (Option.some.inj hexec)
      exact ⟨fun c => by cases c <;> rfl, rfl, rfl⟩
  | copyToUser dst bytes =>
      obtain ⟨-, rfl⟩ := Prod.mk.inj (Option.some.inj hexec)
      exact ⟨fun _ => rfl, rfl, rfl⟩
  | copyRxToUser dst bytes =>
      obtain ⟨-, rfl⟩ := Prod.mk.inj (Option.some.inj hexec)
      exact ⟨fun _ => rfl, rfl, rfl⟩
  | pollsLeft =>
      obtain ⟨-, rfl⟩ := Prod.mk.inj (Option.some.inj hexec)
      exact ⟨fun _ => rfl, rfl, rfl⟩
  | load =>
      obtain ⟨-, rfl⟩ := Prod.mk.inj (Option.some.inj hexec)
      exact ⟨fun _ => rfl, rfl, rfl⟩
  | store data =>
      obtain ⟨-, rfl⟩ := Prod.mk.inj (Option.some.inj hexec)
      exact ⟨fun c => by cases c <;> rfl, rfl, rfl⟩
  | _ => cases ho

/-- A program of a register layer leaves the loans as they are. -/
theorem always_lending {α : Type} {p : Kernel π α} (hp : p.Performs KernelOp.NoDma)
    (h : Lending old signals bytes now loan σ) :
  (platform A π).Always p (Lends A π old signals bytes)
    (fun _ => Lending old signals bytes now loan) σ
  := by
  apply Platform.always_of_performs hp stable_lending
  · intro τ hτ
    apply hτ.lends
  · intro o ho σ c x σ' hσ hexec
    apply hσ.steady (steady_of_noDma ho hexec)
  · apply h

theorem always_returned {α : Type} {p : Kernel π α} (hp : p.Performs KernelOp.NoDma)
    (bytes : ℕ) (h : Returned old signals σ) :
  (platform A π).Always p (Lends A π old signals bytes) (fun _ => Returned old signals) σ
  := by
  apply Platform.always_of_performs hp stable_returned
  · intro τ hτ
    apply hτ.lends
  · intro o ho σ c x σ' hσ hexec
    apply hσ.steady (steady_of_noDma ho hexec)
  · apply h

/-- An operation of the transport, from loans to loans that depend on its result, of which
`Q` is known. -/
theorem always_op {o : KernelOp π} {now' : ℕ} {loan' : o.Res → Chan → Loan} {Q : o.Res → Prop}
    (h : Lending old signals bytes now loan σ)
    (hexec : ∀ (σ : State A π) c x σ', Lending old signals bytes now loan σ →
      exec o c σ = some (x, σ') → Q x ∧ Lending old signals bytes now' (loan' x) σ') :
  (platform A π).Always (Prog.perform o) (Lends A π old signals bytes)
    (fun x τ => Q x ∧ Lending old signals bytes now' (loan' x) τ) σ
  := by
  apply Platform.always_perform stable_lending _ h
  · intro x e τ hτ
    use hτ.1
    apply stable_lending e τ hτ.2
  · intro x τ hτ
    apply hτ.2.lends
  · intro σ c x σ' hσ hx
    apply hexec σ c x σ' hσ hx
  · intro τ hτ
    apply hτ.lends

/-- An operation of the transport, from loans to loans that depend on its result. -/
theorem always_step {o : KernelOp π} {loan' : o.Res → Chan → Loan}
    (h : Lending old signals bytes now loan σ)
    (hexec : ∀ (σ : State A π) c x σ', Lending old signals bytes now loan σ →
      exec o c σ = some (x, σ') → Lending old signals bytes now (loan' x) σ') :
  (platform A π).Always (Prog.perform o) (Lends A π old signals bytes)
    (fun x => Lending old signals bytes now (loan' x)) σ
  := by
  have hop : ∀ (σ : State A π) c x σ', Lending old signals bytes now loan σ →
      exec o c σ = some (x, σ') → True ∧ Lending old signals bytes now (loan' x) σ' := by
    intro σ c x σ' hσ hx
    use trivial
    apply hexec σ c x σ' hσ hx
  apply Platform.always_mono (always_op (Q := fun _ => True) h hop)
  rintro x τ ⟨-, hτ⟩
  apply hτ

/-- A completion is declared for the descriptor of a channel that expects none. -/
theorem Lending.declare (h : Lending old signals bytes now loan σ) {c : Chan}
    (hc : loan c = .none) :
  Lending old signals bytes (now + 1) (Function.update loan c (.due ⟨bytes, now⟩))
    { σ with mem := { σ.mem with declared := σ.mem.declared + 1 } }
  := by
  have hcases : ∀ c' desc, (Function.update loan c (.due ⟨bytes, now⟩) c').desc = some desc →
      c' = c ∧ desc = ⟨bytes, now⟩ ∨ (loan c').desc = some desc := by
    intro c' desc hdesc
    rw [Function.update_apply] at hdesc
    split at hdesc
    · left
      use ‹_›
      apply (Option.some.inj hdesc).symm
    · right
      apply hdesc
  have hfresh : now ∉ σ.mem.completed := by
    intro hmem
    exact absurd (h.signals.fresh now hmem) (Nat.lt_irrefl now)
  constructor
  · constructor
    · apply Nat.le_succ_of_le h.signals.le
    · apply congrArg Nat.succ h.signals.declared
    · intro d hd
      apply Nat.lt_succ_of_lt (h.signals.fresh d hd)
    · apply h.signals.count
  · intro c'
    have hholds := h.holds c'
    rw [Function.update_apply]
    split
    · rename_i heq
      rw [heq, hc] at hholds
      rw [heq]
      use (by cases c <;> apply hholds)
    · cases c' <;> apply hholds
  · intro c' desc hdesc
    obtain ⟨-, rfl⟩ | hdesc := hcases c' desc hdesc
    · rfl
    · apply h.bytes c' desc hdesc
  · intro c' desc hdesc
    obtain ⟨-, rfl⟩ | hdesc := hcases c' desc hdesc
    · use h.signals.le
      apply Nat.lt_succ_self
    · obtain ⟨hold, hnow⟩ := h.done c' desc hdesc
      use hold
      apply Nat.lt_succ_of_lt hnow
  · intro c₁ c₂ desc₁ desc₂ h₁ h₂ hdone
    obtain ⟨hc₁, hdesc₁⟩ | hold₁ := hcases c₁ desc₁ h₁
    · obtain ⟨hc₂, -⟩ | hold₂ := hcases c₂ desc₂ h₂
      · rw [hc₁, hc₂]
      · have hlt := (h.done c₂ desc₂ hold₂).2
        rw [← hdone, hdesc₁] at hlt
        exact absurd hlt (Nat.lt_irrefl now)
    · obtain ⟨-, hdesc₂⟩ | hold₂ := hcases c₂ desc₂ h₂
      · have hlt := (h.done c₁ desc₁ hold₁).2
        rw [hdone, hdesc₂] at hlt
        exact absurd hlt (Nat.lt_irrefl now)
      · apply h.distinct c₁ c₂ desc₁ desc₂ hold₁ hold₂ hdone

/-- A change to one channel, and to what it has on loan. -/
theorem Lending.setChan (h : Lending old signals bytes now loan σ) (c : Chan) {ch : Channel}
    {l : Loan} (hl : l.Holds ch σ.mem.completed) (hdesc : l.desc = none ∨ l.desc = (loan c).desc) :
  Lending old signals bytes now (Function.update loan c l) (setChan σ ch c)
  := by
  have hcases : ∀ c' desc, (Function.update loan c l c').desc = some desc →
      (loan c').desc = some desc := by
    intro c' desc hsome
    rw [Function.update_apply] at hsome
    split at hsome
    · rename_i heq
      obtain hnone | hsame := hdesc
      · rw [hnone] at hsome
        cases hsome
      · rw [heq, ← hsame, hsome]
    · apply hsome
  have hmem := mem_setChan σ ch c
  constructor
  · rw [hmem]
    apply h.signals
  · intro c'
    rw [hmem, chan_setChan, Function.update_apply]
    split
    · apply hl
    · apply h.holds c'
  · intro c' desc hsome
    apply h.bytes c' desc (hcases c' desc hsome)
  · intro c' desc hsome
    apply h.done c' desc (hcases c' desc hsome)
  · intro c₁ c₂ desc₁ desc₂ h₁ h₂ hdone
    apply h.distinct c₁ c₂ desc₁ desc₂ (hcases c₁ desc₁ h₁) (hcases c₂ desc₂ h₂) hdone

section Operations

variable (h : Lending old signals bytes now loan σ)

include h

theorem always_declare {c : Chan} (hc : loan c = .none) :
  (platform A π).Always declareCompletion (Lends A π old signals bytes)
    (fun done τ => done = now
      ∧ Lending old signals bytes (now + 1) (Function.update loan c (.due ⟨bytes, now⟩)) τ) σ
  := by
  apply always_op (o := KernelOp.declareCompletion) h
  intro σ ch done σ' hσ hexec
  obtain ⟨rfl, rfl⟩ := Prod.mk.inj (Option.some.inj hexec)
  use hσ.signals.declared
  apply hσ.declare hc

theorem always_prepSlaveSingle (c : Chan) (n done : ℕ) :
  (platform A π).Always (prepSlaveSingle c n done) (Lends A π old signals bytes)
    (fun x τ => (x = none ∨ x = some ⟨n, done⟩) ∧ Lending old signals bytes now loan τ) σ
  := by
  apply always_op (o := KernelOp.prepSlaveSingle c n done) h
  intro σ ch x σ' hσ hexec
  obtain ⟨rfl, rfl⟩ := Prod.mk.inj (Option.some.inj hexec)
  constructor
  · cases ch.ok
    · left
      rfl
    · right
      rfl
  · apply hσ

/-- A descriptor that is submitted is lent. -/
theorem always_submit {c : Chan} {desc : Desc} (hc : loan c = .due desc) :
  (platform A π).Always (submit c desc) (Lends A π old signals bytes)
    (fun x => Lending old signals bytes now
      (Function.update loan c (if x.isNone then .lent desc else .due desc))) σ
  := by
  apply always_step h
  intro σ ch x σ' hσ hexec
  obtain rfl := exec_submit hexec
  have hholds := hσ.holds c
  rw [hc] at hholds
  split
  · apply hσ.setChan c
    · constructor
      · right
        obtain ⟨hissued, hsubmitted⟩ := List.append_eq_nil_iff.mp hholds.1
        rw [descs, Channel.submit, hissued, hsubmitted]
        rfl
      · intro hdone
        exact absurd hdone hholds.2
    · right
      rw [hc]
      rfl
  · rw [← hc, Function.update_eq_self]
    apply hσ

theorem always_issuePending (c : Chan) :
  (platform A π).Always (issuePending c) (Lends A π old signals bytes)
    (fun _ => Lending old signals bytes now loan) σ
  := by
  apply always_step h
  intro σ ch x σ' hσ hexec
  obtain ⟨-, rfl⟩ := Prod.mk.inj (Option.some.inj hexec)
  apply hσ.steady
  constructor
  · intro c'
    rw [chan_setChan]
    split
    · rename_i heq
      rw [heq, descs, Channel.issuePending, descs]
      apply List.append_nil
    · rfl
  · rw [mem_setChan]
  · rw [mem_setChan]

/-- A channel that is terminated holds nothing. -/
theorem always_terminateSync (c : Chan) :
  (platform A π).Always (terminateSync c) (Lends A π old signals bytes)
    (fun _ => Lending old signals bytes now (Function.update loan c .none)) σ
  := by
  apply always_step h
  intro σ ch x σ' hσ hexec
  obtain ⟨-, rfl⟩ := Prod.mk.inj (Option.some.inj hexec)
  apply hσ.setChan c
  · rfl
  · left
    rfl

/-- The wait for a descriptor: it is given back, by the channel or by terminating it. -/
theorem always_accelWait {c : Chan} {d : Desc} (hc : loan c = .lent d) :
  (platform A π).Always (accelWait c d.done) (Lends A π old signals bytes)
    (fun _ => Lending old signals bytes now (Function.update loan c .none)) σ
  := by
  have hwait : (platform A π).Always (waitForCompletion d.done) (Lends A π old signals bytes)
      (fun x => Lending old signals bytes now
        (if x then Function.update loan c .none else loan)) σ := by
    apply always_step h
    intro σ ch x σ' hσ hexec
    obtain ⟨rfl, rfl⟩ := Prod.mk.inj (Option.some.inj hexec)
    split
    · rename_i hdone
      have hholds := hσ.holds c
      rw [hc] at hholds
      have hset : Lending old signals bytes now (Function.update loan c .none)
          (Board.setChan σ (chan σ c) c) :=
        hσ.setChan c (hholds.2 (of_decide_eq_true hdone)) (.inl rfl)
      have hsame : Board.setChan σ (chan σ c) c = σ := by
        cases c <;> rfl
      rw [hsame] at hset
      apply hset
    · apply hσ
  apply Platform.always_seq hwait
  intro x τ hτ
  cases x with
  | true =>
      apply Platform.always_ret stable_lending _ hτ
      intro υ hυ
      apply hυ.lends
  | false =>
      apply Platform.always_seq (always_terminateSync hτ c)
      intro _ υ hυ
      apply Platform.always_ret stable_lending _ hυ
      intro φ hφ
      apply hφ.lends

end Operations

/-! ### The parts of `accel_run_tile` -/

/-- What each channel has on loan. -/
def loans (t r : Loan) : Chan → Loan
  | .tx => t
  | .rx => r

theorem update_tx (t r l : Loan) :
  Function.update (loans t r) .tx l = loans l r
  := by
  funext c
  cases c <;> rfl

theorem update_rx (t r l : Loan) :
  Function.update (loans t r) .rx l = loans t l
  := by
  funext c
  cases c <;> rfl

/-- The loan of the return path once it has been submitted, if there is one. -/
def rxLent (duplex : Bool) (desc : Desc) : Loan :=
  if duplex then .lent desc else .due desc

/-- A loan that needs no terminating: the channel holds nothing. -/
def Loan.Free : Loan → Prop
  | .lent _ => False
  | _ => True

theorem Lending.returned_of_free {t r : Loan}
    (h : Lending old signals bytes now (loans t r) σ) (ht : t.Free) (hr : r.Free) :
  Returned old signals σ
  := by
  apply h.returned
  intro c desc hc
  cases c with
  | tx =>
      obtain rfl : t = .lent desc := hc
      apply ht
  | rx =>
      obtain rfl : r = .lent desc := hc
      apply hr

section Parts

variable (L : RegisterLayer π) {t r : Loan} (h : Lending old signals bytes now (loans t r) σ)

include h

theorem always_pure {α : Type} (ht : t.Free) (hr : r.Free) (a : α) :
  (platform A π).Always (pure a : Kernel π α) (Lends A π old signals bytes)
    (fun b τ => b = a ∧ Returned old signals τ) σ
  := by
  apply Platform.always_ret
  · intro e τ hτ
    use hτ.1
    apply stable_returned e τ hτ.2
  · intro τ hτ
    apply hτ.2.lends
  · use rfl
    apply h.returned_of_free ht hr

/-- The label `discard` gives the return path back. -/
theorem always_discard (ht : t.Free) (hr : L.duplex = false → r.Free) (e : Errno) :
  (platform A π).Always (Driver.discard L.toAccelOps e) (Lends A π old signals bytes)
    (fun ret τ => ret = .error e ∧ Returned old signals τ) σ
  := by
  rw [Driver.discard, terminateRx]
  split
  · apply Platform.always_seq (always_terminateSync h .rx)
    intro _ τ hτ
    rw [update_rx] at hτ
    apply always_pure hτ ht trivial
  · rename_i hduplex
    apply always_pure h ht (hr (by simpa using hduplex)) (Except.error e)

end Parts

section Tile

variable (L : RegisterLayer π) {sent returned : ℕ}

/-- What a submission leaves on loan. -/
def SubmittedLoans (old : ℕ) (signals : ℕ → ℕ) (bytes now : ℕ) (sent returned : ℕ) :
    Except Errno Unit → State A π → Prop
  | .ok () => Lending old signals bytes now
      (loans (.lent ⟨bytes, sent⟩) (rxLent L.duplex ⟨bytes, returned⟩))
  | .error _ => Returned old signals

theorem always_prepRx (h : Lending old signals bytes now loan σ) :
  (platform A π).Always (prepRx L.toAccelOps bytes returned) (Lends A π old signals bytes)
    (fun x τ => (x = none ∨ L.duplex = true ∧ x = some ⟨bytes, returned⟩)
      ∧ Lending old signals bytes now loan τ) σ
  := by
  rw [prepRx]
  split
  · apply Platform.always_mono (always_prepSlaveSingle h .rx bytes returned)
    rintro x τ ⟨hx | hx, hτ⟩
    · use .inl hx
    · use .inr ⟨‹_›, hx⟩
  · apply Platform.always_ret
    · intro e τ hτ
      use hτ.1
      apply stable_lending e τ hτ.2
    · intro τ hτ
      apply hτ.2.lends
    · use .inl rfl

theorem rxLent_free {duplex : Bool} {desc : Desc} (hduplex : duplex = false) :
  (rxLent duplex desc).Free
  := by
  rw [hduplex]
  trivial

/-- The return path is submitted, if there is one. -/
theorem always_submitRx {t : Loan} {x : Option Desc}
    (hx : ¬ (L.duplex && x.isNone) = true)
    (hx' : x = none ∨ L.duplex = true ∧ x = some ⟨bytes, returned⟩)
    (h : Lending old signals bytes now (loans t (.due ⟨bytes, returned⟩)) σ) :
  (platform A π).Always (submitRx x) (Lends A π old signals bytes)
    (fun e => Lending old signals bytes now (loans t
      (if e.isNone then rxLent L.duplex ⟨bytes, returned⟩ else .due ⟨bytes, returned⟩))) σ
  := by
  obtain rfl | ⟨hduplex, rfl⟩ := hx'
  · have hsimplex : L.duplex = false := by simpa using hx
    rw [hsimplex]
    apply Platform.always_ret stable_lending
    · intro τ hτ
      apply hτ.lends
    · apply h
  · apply Platform.always_mono (always_submit h rfl)
    intro e τ hτ
    rw [update_rx] at hτ
    rw [hduplex]
    apply hτ

/-- A submission leaves a descriptor lent to each channel, or none to either. -/
theorem always_submitTile
    (h : Lending old signals bytes now (loans (.due ⟨bytes, sent⟩) (.due ⟨bytes, returned⟩)) σ) :
  (platform A π).Always (submitTile L.toAccelOps bytes sent returned)
    (Lends A π old signals bytes)
    (SubmittedLoans L old signals bytes now sent returned) σ
  := by
  have hfail : ∀ {t r : Loan} (τ : State A π), Lending old signals bytes now (loans t r) τ →
      t.Free → (L.duplex = false → r.Free) → ∀ e,
      (platform A π).Always (Driver.discard L.toAccelOps e) (Lends A π old signals bytes)
        (SubmittedLoans L old signals bytes now sent returned) τ := by
    intro t r τ hτ ht hr e
    apply Platform.always_mono (always_discard L hτ ht hr e)
    rintro ret υ ⟨rfl, hυ⟩
    apply hυ
  apply Platform.always_seq (always_prepRx L h)
  rintro rxDesc τ ⟨hrx, hτ⟩
  split
  · apply Platform.always_mono (always_pure hτ trivial trivial (Except.error Errno.EIO))
    rintro ret υ ⟨rfl, hυ⟩
    apply hυ
  · rename_i hsome
    apply Platform.always_seq (always_prepSlaveSingle hτ .tx bytes sent)
    rintro txDesc υ ⟨rfl | rfl, hυ⟩
    · apply hfail υ hυ trivial (fun _ => trivial)
    · apply Platform.always_seq (always_submitRx L hsome hrx hυ)
      intro x φ hφ
      cases x with
      | some e => apply hfail φ hφ trivial (fun _ => trivial)
      | none =>
          apply Platform.always_seq (always_submit hφ rfl)
          intro y ψ hψ
          rw [update_tx] at hψ
          cases y with
          | some e => apply hfail ψ hψ trivial rxLent_free
          | none =>
              apply Platform.always_ret stable_lending _ hψ
              intro χ hχ
              apply hχ.lends

/-- The transfers of a tile, from the loan of both descriptors to their return. -/
theorem always_transferTile
    (h : Lending old signals bytes now
      (loans (.lent ⟨bytes, sent⟩) (rxLent L.duplex ⟨bytes, returned⟩)) σ) :
  (platform A π).Always (transferTile L.toAccelOps sent returned)
    (Lends A π old signals bytes) (fun _ => Returned old signals) σ
  := by
  apply Platform.always_seq (always_lending L.start_noDma h)
  intro _ τ hτ
  have hrx : (platform A π).Always (issueRx L.toAccelOps) (Lends A π old signals bytes)
      (fun _ => Lending old signals bytes now
        (loans (.lent ⟨bytes, sent⟩) (rxLent L.duplex ⟨bytes, returned⟩))) τ := by
    rw [issueRx]
    split
    · apply always_issuePending hτ
    · apply Platform.always_ret stable_lending _ hτ
      intro υ hυ
      apply hυ.lends
  apply Platform.always_seq hrx
  intro _ υ hυ
  apply Platform.always_seq (always_issuePending hυ .tx)
  intro _ φ hφ
  apply Platform.always_seq (always_accelWait hφ (d := ⟨bytes, sent⟩) rfl)
  intro ret ψ hψ
  rw [update_tx] at hψ
  cases ret with
  | error e =>
      apply Platform.always_mono (always_discard L hψ trivial rxLent_free e)
      rintro ret χ ⟨-, hχ⟩
      apply hχ
  | ok =>
      dsimp only
      rw [waitRx]
      split
      · rename_i hduplex
        rw [hduplex] at hψ
        apply Platform.always_mono (always_accelWait hψ (d := ⟨bytes, returned⟩) rfl)
        intro ret χ hχ
        rw [update_rx] at hχ
        apply hχ.returned_of_free trivial trivial
      · rename_i hduplex
        have hfree : (rxLent L.duplex ⟨bytes, returned⟩).Free :=
          rxLent_free (by simpa using hduplex)
        apply Platform.always_mono (always_pure hψ trivial hfree (Except.ok ()))
        rintro ret χ ⟨-, hχ⟩
        apply hχ

omit L in
/-- A program that returns at once, both channels holding nothing. -/
theorem always_return {α : Type} (a : α) (bytes : ℕ) (h : Returned old signals σ) :
  (platform A π).Always (pure a : Kernel π α) (Lends A π old signals bytes)
    (fun _ => Returned old signals) σ
  := by
  apply Platform.always_ret stable_returned _ h
  intro τ hτ
  apply hτ.lends

theorem always_publish (n : ℕ) (h : Returned old signals σ) :
  (platform A π).Always (publish L.toAccelOps n) (Lends A π old signals bytes)
    (fun _ => Returned old signals) σ
  := by
  rw [publish]
  split
  · apply always_returned (performs_setReceived n) bytes h
  · apply always_return () bytes h

/-- Whatever fails, `accel_run_tile` leaves both channels holding nothing. -/
theorem always_accelRunTile (h : Returned old signals σ) :
  (platform A π).Always (accelRunTile L.toAccelOps bytes) (Lends A π old signals bytes)
    (fun _ => Returned old signals) σ
  := by
  have hnone : (fun _ : Chan => Loan.none) = loans .none .none := by
    funext c
    cases c <;> rfl
  have hlending := h.lending bytes
  rw [hnone] at hlending
  apply Platform.always_seq (always_declare hlending (c := .tx) rfl)
  rintro _ τ₁ ⟨rfl, hτ₁⟩
  rw [update_tx] at hτ₁
  apply Platform.always_seq (always_declare hτ₁ (c := .rx) rfl)
  rintro _ τ₂ ⟨rfl, hτ₂⟩
  rw [update_rx] at hτ₂
  apply Platform.always_seq (always_lending (performs_setReceived 0) hτ₂)
  intro _ τ₃ hτ₃
  apply Platform.always_seq (always_lending L.accept_noDma hτ₃)
  intro ret τ₄ hτ₄
  cases ret with
  | error e => apply always_return _ bytes (hτ₄.returned_of_free trivial trivial)
  | ok =>
      apply Platform.always_seq (always_submitTile L hτ₄)
      intro ret τ₅ hτ₅
      cases ret with
      | error e => apply always_return _ bytes hτ₅
      | ok =>
          apply Platform.always_seq (always_transferTile L hτ₅)
          intro ret τ₆ hτ₆
          cases ret with
          | error e => apply always_return _ bytes hτ₆
          | ok =>
              apply Platform.always_seq (always_returned (L.finish_noDma _) bytes hτ₆)
              intro ret τ₇ hτ₇
              cases ret with
              | error e => apply always_return _ bytes hτ₇
              | ok =>
                  apply Platform.always_seq (always_publish L bytes hτ₇)
                  intro _ τ₈ hτ₈
                  apply always_return _ bytes hτ₈

end Tile

/-! ### Any schedule -/

/-- The calls on the character device of a register layer. -/
def deviceApi (L : RegisterLayer π) : Api (KernelOp π) KernelOp.Res FileCall FileCall.Val where
  early c := c.early L.toAccelOps
  interrupted c := c.interrupted
  body c := c.body L.toAccelOps

/-- The length of the tile of a call. -/
def tileBytes : FileCall → ℕ
  | .write bytes => bytes.length
  | .read _ _ => 0

variable (L : RegisterLayer π)

theorem always_body (c : FileCall) (h : Returned old signals σ) :
  (platform A π).Always (c.body L.toAccelOps) (Lends A π old signals (tileBytes c))
    (fun _ => Returned old signals) σ
  := by
  cases c with
  | read dst count => apply always_returned (L.result_noDma dst count) _ h
  | write bytes =>
      have hcopy : (copyFromUser bytes : Kernel π _).Performs KernelOp.NoDma :=
        Prog.performs_perform trivial
      apply Platform.always_seq (always_returned hcopy _ h)
      intro ok τ hτ
      split
      · apply always_return _ _ hτ
      · apply Platform.always_seq (always_accelRunTile L hτ)
        intro ret υ hυ
        cases ret with
        | error e => apply always_return _ _ hυ
        | ok => apply always_return _ _ hυ

theorem guards_returned (old : ℕ) (signals : ℕ → ℕ) :
  (deviceApi L).Guards (P := platform A π) (Returned old signals)
    (fun c => Lends A π old signals (tileBytes c))
  := by
  constructor
  · apply stable_returned
  · intro c σ h
    apply always_body L c h

/-- No call is at work: the lock is free, or its holder has only to return. -/
def AtRest {P : Platform (KernelOp π) KernelOp.Res} (x : Api.Config P FileCall.Val) : Prop :=
  ∀ c p, x.running = some ⟨c, p⟩ → ∃ v, p = .ret v

theorem atRest_of_isNone {P : Platform (KernelOp π) KernelOp.Res} {x : Api.Config P FileCall.Val}
    (h : x.running.isNone = true) :
  AtRest x
  := by
  intro c p hrunning
  rw [hrunning] at h
  cases h

theorem Returned.restart (h : Returned old signals σ) :
  Returned σ.mem.declared (σ.mem.completed.count ·) σ
  := by
  constructor
  · use Nat.le_refl _, rfl
    · apply h.signals.fresh
    · intro c _
      rfl
  · apply h.empty

/-- Once a configuration is at rest its past is settled, whatever is called next. -/
theorem guarded_of_atRest {x : Api.Config (platform A π) FileCall.Val} (hrest : AtRest x)
    (hx : Api.Guarded (Returned old signals) (fun c => Lends A π old signals (tileBytes c)) x) :
  Returned old signals x.state
    ∧ Api.Guarded (Returned x.state.mem.declared (x.state.mem.completed.count ·))
      (fun c => Lends A π x.state.mem.declared (x.state.mem.completed.count ·) (tileBytes c)) x
  := by
  obtain ⟨σ, waiting, running, log⟩ := x
  cases running with
  | none => exact ⟨hx, Returned.restart hx⟩
  | some holder =>
      obtain ⟨c, p⟩ := holder
      obtain ⟨v, rfl⟩ := hrest c p rfl
      have hreturned := hx.returning rfl
      use hreturned
      apply always_return v (tileBytes c) hreturned.restart

/-- What the calls on a character device leave of the DMA channels, from a configuration
`x` on: at rest both are empty; the completions declared so far are signalled no more, and
whatever a channel comes to hold is one descriptor, of the tile being run and declared
later. -/
structure LeavesEmpty (x : Api.Config (platform A π) FileCall.Val) : Prop where
  empty : ∀ c, (chan x.state c).submitted = [] ∧ (chan x.state c).issued = []
  silent : ∀ (es : List (Api.Event (platform A π) FileCall)), ∀ done < x.state.mem.declared,
    (es.foldl (deviceApi L).next x).state.mem.completed.count done
      = x.state.mem.completed.count done
  alone : ∀ (es : List (Api.Event (platform A π) FileCall)) c desc,
    desc ∈ descs (chan (es.foldl (deviceApi L).next x).state c) →
    descs (chan (es.foldl (deviceApi L).next x).state c) = [desc]
      ∧ x.state.mem.declared ≤ desc.done
      ∧ ∃ call p, (es.foldl (deviceApi L).next x).running = some ⟨call, p⟩
        ∧ desc.bytes = tileBytes call

theorem guarded_start (hw : A.State) (txBuf rxBuf : ℕ → BitVec 8) (priv : π)
    (es : List (Api.Event (platform A π) FileCall)) :
  Api.Guarded (P := platform A π) (Returned 0 fun _ => 0)
    (fun c => Lends A π 0 (fun _ => 0) (tileBytes c))
    ((deviceApi L).schedule (start hw txBuf rxBuf priv) es)
  := by
  apply Api.guarded_schedule (guards_returned L 0 fun _ => 0)
  constructor
  · use Nat.le_refl 0, rfl
    · intro c hc
      cases hc
    · intro c _
      rfl
  · intro c
    cases c with
    | tx => rfl
    | rx => rfl

/-- Whatever is called on the character device of an accelerator, in whatever order, and
whatever fails, both DMA channels are empty whenever no call is at work, and no descriptor
of an earlier tile is heard of again. -/
theorem channels_empty_on_every_exit (hw : A.State) (txBuf rxBuf : ℕ → BitVec 8) (priv : π)
    (es : List (Api.Event (platform A π) FileCall))
    (hrest : AtRest ((deviceApi L).schedule (start hw txBuf rxBuf priv) es)) :
  LeavesEmpty L ((deviceApi L).schedule (start hw txBuf rxBuf priv) es)
  := by
  obtain ⟨hreturned, hx⟩ := guarded_of_atRest hrest (guarded_start L hw txBuf rxBuf priv es)
  have hlater := Api.guarded_schedule (guards_returned L _ _) hx
  constructor
  · intro c
    obtain ⟨hissued, hsubmitted⟩ := List.append_eq_nil_iff.mp (hreturned.empty c)
    use hsubmitted
  · intro later done hdone
    cases hrunning : (later.foldl (deviceApi L).next _).running with
    | none => apply ((hlater later).idle hrunning).signals.count done hdone
    | some holder =>
        obtain ⟨now, loan, hlending⟩ := (hlater later).running hrunning
        apply hlending.signals.count done hdone
  · intro later c desc hmem
    cases hrunning : (later.foldl (deviceApi L).next _).running with
    | none =>
        rw [((hlater later).idle hrunning).empty c] at hmem
        cases hmem
    | some holder =>
        obtain ⟨now, loan, hlending⟩ := (hlater later).running hrunning
        obtain ⟨hlent, hone, -⟩ := (hlending.holds c).lent_of_mem hmem
        have hdesc : (loan c).desc = some desc := by
          rw [hlent]
          rfl
        use hone, (hlending.done c desc hdesc).1, holder.1, holder.2, rfl
        apply hlending.bytes c desc hdesc

/-- Both drivers out of reset, the Leaky ReLU after a tile of two beats and the sparse CNN,
which has no return path, after a tile of one. -/
theorem channels_empty_after_a_tile :
  LeavesEmpty Driver.Relu.layer ((deviceApi Driver.Relu.layer).schedule
      (start (A := ReluAxi.accelerator) (ReluAxi.fresh 0 0 0) (fun _ => 0) (fun _ => 0) ())
      (promptly (.write [0x80, 5]) 20))
    ∧ LeavesEmpty Driver.SparseCnn.layer ((deviceApi Driver.SparseCnn.layer).schedule
      (start (A := SparseCnnAxi.accelerator) (SparseCnnAxi.fresh 0 0 0) (fun _ => 0) (fun _ => 0)
        ⟨0, 0⟩)
      (promptly (.write [3, 5]) 20))
  := by
  constructor
  · apply channels_empty_on_every_exit (A := ReluAxi.accelerator) Driver.Relu.layer
      (ReluAxi.fresh 0 0 0) (fun _ => 0) (fun _ => 0) () (promptly (.write [0x80, 5]) 20)
    apply atRest_of_isNone
    decide +kernel
  · apply channels_empty_on_every_exit (A := SparseCnnAxi.accelerator) Driver.SparseCnn.layer
      (SparseCnnAxi.fresh 0 0 0) (fun _ => 0) (fun _ => 0) ⟨0, 0⟩ (promptly (.write [3, 5]) 20)
    apply atRest_of_isNone
    decide +kernel

end Board
