import ZynqRtlFlow.Board.Frame

/-!
# A board with no transfer under way

While neither channel has an issued descriptor, the hardware moves the accelerator and
the bus alone, and no beat moves.  `At` says that the channels and the memory are known
and that the accelerator and the bus satisfy an assertion; the lemmas below say what each
operation of the driver does to it.
-/

open AxiLite Driver

namespace Board

variable {A : Accelerator} {π : Type}

/-- An assertion on the accelerator and the bus that holds on while no beat moves. -/
def Undisturbed (A : Accelerator) (I : A.State → Bus → Prop) : Prop :=
  ∀ hw bus e beat last, I hw bus →
    I (A.cycle (bus.drive e) false beat last false hw).next
      (bus.cycle (A.write hw) (bus.drive e))

theorem Undisturbed.and {A : Accelerator} {I : A.State → Bus → Prop} (hI : Undisturbed A I)
    (p : Prop) :
  Undisturbed A fun hw bus => I hw bus ∧ p
  := by
  intro hw bus e beat last h
  use hI _ _ _ _ _ h.1, h.2

/-- What a register read finds: if `I` holds before the cycle in which the address of
`reg` is accepted, and every write posted has been taken after it, `I'` holds of the word
read and the accelerator and the bus after it. -/
def Reads (A : Accelerator) (I : A.State → Bus → Prop) (reg : BitVec 8)
    (I' : BitVec 32 → A.State → Bus → Prop) : Prop :=
  ∀ hw bus e beat last, I hw bus → (A.read hw).arready = true → e.arvalid = true →
    e.araddr = reg → (bus.cycle (A.write hw) (bus.drive e)).posted = [] →
    I' (A.read (A.cycle (bus.drive e) false beat last false hw).next).rdataQ
      (A.cycle (bus.drive e) false beat last false hw).next
      (bus.cycle (A.write hw) (bus.drive e))

/-- The channels and the memory are known, and `I` holds of the accelerator and the bus. -/
structure At (t r : Channel) (m : Mem π) (I : A.State → Bus → Prop) (σ : State A π) : Prop where
  tx : σ.tx = t
  rx : σ.rx = r
  mem : σ.mem = m
  holds : I σ.hw σ.bus

theorem At.imp {t r : Channel} {m : Mem π} {I I' : A.State → Bus → Prop} {σ : State A π}
    (h : At t r m I σ) (hI : ∀ hw bus, I hw bus → I' hw bus) :
  At t r m I' σ
  := by
  use h.tx, h.rx, h.mem
  apply hI _ _ h.holds

/-- No descriptor of either channel is issued. -/
structure Quiet (t r : Channel) : Prop where
  tx : t.issued = []
  rx : r.issued = []

variable {t r : Channel} {m : Mem π} {I : A.State → Bus → Prop} {σ : State A π}

theorem outcome_of_quiet (hq : Quiet σ.tx σ.rx) (e : Env) :
  outcome e σ = A.cycle (σ.bus.drive e.axil) false (beatAt A σ.mem.txBuf σ.tx.moved)
    (σ.tx.atLast A.beatBytes) false σ.hw
  := by
  simp only [outcome, Channel.pending_nil hq.tx, Channel.pending_nil hq.rx, Bool.and_false]

/-- A cycle in which no beat moves. -/
theorem cycle_of_quiet (hq : Quiet σ.tx σ.rx) (e : Env) :
  ∃ beat last, cycle e σ = { σ with
    hw := (A.cycle (σ.bus.drive e.axil) false beat last false σ.hw).next
    bus := σ.bus.cycle (A.write σ.hw) (σ.bus.drive e.axil) }
  := by
  use beatAt A σ.mem.txBuf σ.tx.moved, σ.tx.atLast A.beatBytes
  simp only [cycle, outcome_of_quiet hq, A.accepted_cycle, A.handed_cycle, rxNext, memNext,
    Bool.false_eq_true, if_false]

theorem At.cycle (hI : Undisturbed A I) (hq : Quiet t r) (h : At t r m I σ) (e : Env) :
  At t r m I (cycle e σ)
  := by
  obtain ⟨rfl, rfl, rfl, h⟩ := h
  obtain ⟨beat, last, heq⟩ := cycle_of_quiet hq e
  rw [heq]
  use rfl, rfl, rfl
  apply hI _ _ _ _ _ h

theorem complete_of_quiet (hq : Quiet σ.tx σ.rx) (c : Chan) :
  complete c σ = σ
  := by
  cases c with
  | tx => simp only [complete, chan, hq.tx]
  | rx => simp only [complete, chan, hq.rx]

theorem stable_at (hI : Undisturbed A I) (hq : Quiet t r) :
  (platform A π).Stable (At t r m I)
  := by
  apply stable_of
  · intro e σ h
    apply h.cycle hI hq
  · rintro c σ ⟨rfl, rfl, rfl, h⟩
    rw [complete_of_quiet hq c]
    use rfl, rfl, rfl

/-! ### The operations -/

/-- A submission that fails changes nothing. -/
theorem exec_submit {c : Chan} {desc : Desc} {ch : Choice} {x : Option Errno} {σ σ' : State A π}
    (hx : exec (.submit c desc) ch σ = some (x, σ')) :
  σ' = if x.isNone then setChan σ ((chan σ c).submit desc) c else σ
  := by
  simp only [exec] at hx
  split at hx
  · obtain ⟨rfl, rfl⟩ := Prod.mk.inj (Option.some.inj hx)
    rfl
  · obtain ⟨rfl, rfl⟩ := Prod.mk.inj (Option.some.inj hx)
    rfl

section Operations

variable (hI : Undisturbed A I) (hq : Quiet t r) (h : At t r m I σ)

include hI hq h

theorem wp_pure_at {α : Type} (a : α) :
  (platform A π).wp (pure a : Kernel π α) (fun b τ => b = a ∧ At t r m I τ) σ
  := by
  apply Platform.wp_ret
  · intro e τ hτ
    use hτ.1
    apply stable_at hI hq e τ hτ.2
  · use rfl

theorem wp_readl {reg : BitVec 8} {I' : BitVec 32 → A.State → Bus → Prop}
    (hI' : ∀ v, Undisturbed A (I' v)) (hread : Reads A I reg I') :
  (platform A π).wp (readl reg) (fun v => At t r m (I' v)) σ
  := by
  apply Platform.wp_perform (stable_at hI hq) h
  · intro v
    apply stable_at (hI' v) hq
  · intro σ c v σ' hat hexec
    obtain ⟨rfl, rfl, rfl, hat⟩ := hat
    obtain ⟨beat, last, heq⟩ := cycle_of_quiet hq (readEnv c.env reg)
    obtain ⟨hready, rfl, horder, rfl⟩ := exec_readl hexec
    rw [heq] at horder ⊢
    use rfl, rfl, rfl
    apply hread _ _ _ _ _ hat hready rfl rfl horder

/-- An operation on a board whose channels and memory are known. -/
theorem wp_perform_at {o : KernelOp π} {post : o.Res → State A π → Prop}
    (hpost : ∀ x, (platform A π).Stable (post x))
    (hexec : ∀ hw bus c x σ', I hw bus → exec o c ⟨hw, bus, t, r, m⟩ = some (x, σ') →
      post x σ') :
  (platform A π).wp (Prog.perform o) post σ
  := by
  apply Platform.wp_perform (stable_at hI hq) h hpost
  rintro ⟨hw, bus, t', r', m'⟩ c x σ' ⟨rfl, rfl, rfl, hat⟩ hx
  apply hexec hw bus c x σ' hat hx

/-- An operation that changes nothing but the memory, and has a result as `Q` says. -/
theorem wp_answer {o : KernelOp π} {Q : o.Res → Prop} {m' : Mem π}
    (hexec : ∀ (hw : A.State) bus c, ∃ x,
      exec o c ⟨hw, bus, t, r, m⟩ = some (x, ⟨hw, bus, t, r, m'⟩) ∧ Q x) :
  (platform A π).wp (Prog.perform o) (fun x τ => Q x ∧ At t r m' I τ) σ
  := by
  apply wp_perform_at hI hq h
  · rintro x e τ ⟨hx, hτ⟩
    use hx
    apply stable_at hI hq e τ hτ
  · intro hw bus c x σ' hat hx
    obtain ⟨y, hy, hQ⟩ := hexec hw bus c
    obtain ⟨rfl, rfl⟩ := Prod.mk.inj (Option.some.inj (hy.symm.trans hx))
    use hQ, rfl, rfl, rfl

theorem wp_writel {word : BitVec 32} {reg : BitVec 8} {I' : A.State → Bus → Prop}
    (hI' : Undisturbed A I') (hpost : ∀ hw bus, I hw bus → I' hw (bus.post reg word)) :
  (platform A π).wp (writel word reg) (fun _ => At t r m I') σ
  := by
  apply wp_perform_at hI hq h
  · intro _
    apply stable_at hI' hq
  · rintro hw bus c x σ' hat hx
    obtain ⟨-, rfl⟩ := Prod.mk.inj (Option.some.inj hx)
    use rfl, rfl, rfl
    apply hpost _ _ hat

theorem wp_load :
  (platform A π).wp load (fun data τ => data = m.data ∧ At t r m I τ) σ
  := by
  apply wp_answer hI hq h
  intro hw bus c
  use m.data, rfl

theorem wp_store (data : AccelData π) :
  (platform A π).wp (store data) (fun _ => At t r { m with data := data } I) σ
  := by
  apply wp_perform_at hI hq h
  · intro _
    apply stable_at hI hq
  · rintro hw bus c x σ' hat hx
    obtain ⟨-, rfl⟩ := Prod.mk.inj (Option.some.inj hx)
    use rfl, rfl, rfl

theorem wp_setReceived (bytes : ℕ) :
  (platform A π).wp (setReceived bytes)
    (fun _ => At t r { m with data := { m.data with received := bytes } } I) σ
  := by
  apply Platform.wp_seq (wp_load hI hq h)
  rintro data τ ⟨rfl, hτ⟩
  apply wp_store hI hq hτ

/-- A new completion differs from those declared before it. -/
theorem wp_declareCompletion :
  (platform A π).wp declareCompletion
    (fun done τ => done = m.declared ∧ At t r { m with declared := m.declared + 1 } I τ) σ
  := by
  apply wp_answer hI hq h
  intro hw bus c
  use m.declared, rfl

theorem wp_prepSlaveSingle (c : Chan) (bytes done : ℕ) :
  (platform A π).wp (prepSlaveSingle c bytes done)
    (fun x τ => (x = none ∨ x = some ⟨bytes, done⟩) ∧ At t r m I τ) σ
  := by
  apply wp_answer hI hq h
  intro hw bus c
  use if c.ok then some ⟨bytes, done⟩ else none, rfl
  cases c.ok
  · left
    rfl
  · right
    rfl

/-- A descriptor that is submitted waits in its channel. -/
theorem wp_submit_tx (desc : Desc) :
  (platform A π).wp (submit .tx desc)
    (fun x => At (if x.isNone then t.submit desc else t) r m I) σ
  := by
  apply wp_perform_at hI hq h
  · intro x
    apply stable_at hI
    use by split <;> apply hq.tx
    apply hq.rx
  · rintro hw bus c x σ' hat hx
    obtain rfl := exec_submit hx
    split
    · use rfl, rfl, rfl
      apply hat
    · use rfl, rfl, rfl

theorem wp_submit_rx (desc : Desc) :
  (platform A π).wp (submit .rx desc)
    (fun x => At t (if x.isNone then r.submit desc else r) m I) σ
  := by
  apply wp_perform_at hI hq h
  · intro x
    apply stable_at hI
    use hq.tx
    split <;> apply hq.rx
  · rintro hw bus c x σ' hat hx
    obtain rfl := exec_submit hx
    split
    · use rfl, rfl, rfl
      apply hat
    · use rfl, rfl, rfl

theorem wp_terminateSync_rx :
  (platform A π).wp (terminateSync .rx) (fun _ => At t .empty m I) σ
  := by
  apply wp_perform_at hI hq h
  · intro _
    apply stable_at hI
    use hq.tx
    rfl
  · rintro hw bus c x σ' hat hx
    obtain ⟨-, rfl⟩ := Prod.mk.inj (Option.some.inj hx)
    use rfl, rfl, rfl
    apply hat

/-- A copy from user memory that fails may leave anything in the buffer. -/
theorem wp_copyFromUser (bytes : List (BitVec 8)) :
  (platform A π).wp (copyFromUser bytes)
    (fun ok τ => ∃ buf, (ok = true → buf = fill m.txBuf bytes)
      ∧ At t r { m with txBuf := buf } I τ) σ
  := by
  apply wp_perform_at hI hq h
  · rintro ok e τ ⟨buf, hbuf, hτ⟩
    use buf, hbuf
    apply stable_at hI hq e τ hτ
  · rintro hw bus c x σ' hat hx
    obtain ⟨rfl, rfl⟩ := Prod.mk.inj (Option.some.inj hx)
    use if c.ok then fill m.txBuf bytes else c.buf
    constructor
    · intro hok
      rw [if_pos hok]
    · use rfl, rfl, rfl

theorem wp_copyToUser (dst : UserPtr) (bytes : List (BitVec 8)) :
  (platform A π).wp (copyToUser dst bytes)
    (fun ok τ => ok = decide (bytes.length ≤ dst) ∧ At t r m I τ) σ
  := by
  apply wp_answer hI hq h
  intro hw bus c
  use decide (bytes.length ≤ dst), rfl

theorem wp_copyRxToUser (dst : UserPtr) (bytes : ℕ) :
  (platform A π).wp (copyRxToUser dst bytes)
    (fun x τ => x = (if bytes ≤ dst then some ((List.range bytes).map m.rxBuf) else none)
      ∧ At t r m I τ) σ
  := by
  apply wp_answer hI hq h
  intro hw bus c
  use if bytes ≤ dst then some ((List.range bytes).map m.rxBuf) else none, rfl
  rfl

theorem wp_pollsLeft :
  (platform A π).wp pollsLeft (fun _ => At t r m I) σ
  := by
  apply wp_perform_at hI hq h
  · intro _
    apply stable_at hI hq
  · rintro hw bus c x σ' hat hx
    obtain ⟨-, rfl⟩ := Prod.mk.inj (Option.some.inj hx)
    use rfl, rfl, rfl

end Operations

/-! ### Refusing a busy accelerator -/

/-- What a check of a status register leaves: the accelerator refused or let through. -/
def Checked (I I' : A.State → Bus → Prop) : Except Errno Unit → A.State → Bus → Prop
  | .ok () => I'
  | .error _ => I

/-- A check of a status register: the bits of `mask` refuse, and without them the
accelerator satisfies `I'`. -/
theorem wp_refuseBusy {reg : BitVec 8} {mask : BitVec 32} {I' : A.State → Bus → Prop}
    (hI : Undisturbed A I) (hI' : Undisturbed A I') (hq : Quiet t r)
    (hread : Reads A I reg fun v hw bus => I hw bus ∧ (¬ v &&& mask ≠ 0 → I' hw bus))
    (h : At t r m I σ) :
  (platform A π).wp (do
    let status ← readl reg
    if status &&& mask ≠ 0 then return .error .EBUSY
    return .ok ()) (fun ret => At t r m (Checked I I' ret)) σ
  := by
  have hboth : ∀ v : BitVec 32, Undisturbed A fun hw bus =>
      I hw bus ∧ (¬ v &&& mask ≠ 0 → I' hw bus) := by
    intro v hw bus e beat last hv
    use hI _ _ _ _ _ hv.1
    intro hfree
    apply hI' _ _ _ _ _ (hv.2 hfree)
  apply Platform.wp_seq (wp_readl hI hq h hboth hread)
  intro v τ hτ
  split
  · apply Platform.wp_ret
    · apply stable_at hI hq
    · apply hτ.imp
      intro hw bus hv
      apply hv.1
  · apply Platform.wp_ret
    · apply stable_at hI' hq
    · apply hτ.imp
      intro hw bus hv
      apply hv.2 ‹_›

/-- A check of a status register that finds no bit of `mask` refuses nothing. -/
theorem wp_refuseBusy_of_free {reg : BitVec 8} {mask : BitVec 32} {I' : A.State → Bus → Prop}
    (hI : Undisturbed A I) (hI' : Undisturbed A I') (hq : Quiet t r)
    (hread : Reads A I reg fun v hw bus => I' hw bus ∧ ¬ v &&& mask ≠ 0) (h : At t r m I σ) :
  (platform A π).wp (do
    let status ← readl reg
    if status &&& mask ≠ 0 then return .error .EBUSY
    return .ok ()) (fun ret => At t r m (Checked (fun _ _ => False) I' ret)) σ
  := by
  apply Platform.wp_seq (wp_readl hI hq h (fun _ => hI'.and _) hread)
  rintro v τ ⟨htx, hrx, hmem, hτ, hfree⟩
  rw [if_neg hfree]
  apply Platform.wp_ret
  · apply stable_at hI' hq
  · use htx, hrx, hmem
    apply hτ

/-! ### Polling -/

/-- What the loop of a poll leaves: `K` of the word that met the condition, or `N` if the
last word did not. -/
def Polled (t r : Channel) (m : Mem π) (N : A.State → Bus → Prop)
    (K : BitVec 32 → A.State → Bus → Prop) : Except Errno (BitVec 32) → State A π → Prop
  | .ok v => At t r m (K v)
  | .error _ => At t r m N

/-- What one read of a poll leaves. -/
def Sampled (cond : BitVec 32 → Bool) (N : A.State → Bus → Prop)
    (K : BitVec 32 → A.State → Bus → Prop) (v : BitVec 32) : A.State → Bus → Prop :=
  if cond v then K v else N

theorem sampled_of {cond : BitVec 32 → Bool} {N : A.State → Bus → Prop}
    {K : BitVec 32 → A.State → Bus → Prop} {v : BitVec 32} {hw : A.State} {bus : Bus}
    (hK : cond v = true → K v hw bus) (hN : cond v = false → N hw bus) :
  Sampled cond N K v hw bus
  := by
  cases hc : cond v
  · rw [Sampled, hc]
    apply hN hc
  · rw [Sampled, hc]
    apply hK hc

section Poll

variable {reg : BitVec 8} {cond : BitVec 32 → Bool} {N : A.State → Bus → Prop}
  {K : BitVec 32 → A.State → Bus → Prop} (hI : Undisturbed A I) (hN : Undisturbed A N)
  (hK : ∀ v, Undisturbed A (K v)) (hq : Quiet t r) (hread : Reads A I reg (Sampled cond N K))

include hI hN hK hq hread

/-- One read of a poll. -/
theorem wp_poll (h : At t r m I σ) :
  (platform A π).wp (readl reg) (fun v => At t r m (Sampled cond N K v)) σ
  := by
  apply wp_readl hI hq h _ hread
  intro v
  rw [Sampled]
  split
  · apply hK
  · apply hN

theorem wp_pollLoop (hagain : ∀ hw bus, N hw bus → I hw bus) (polls : ℕ) (h : At t r m I σ) :
  (platform A π).wp (pollLoop reg cond polls) (Polled t r m N K) σ
  := by
  have hstable : ∀ ret, (platform A π).Stable (Polled t r m N K ret) := by
    intro ret
    cases ret with
    | ok v => apply stable_at (hK v) hq
    | error e => apply stable_at hN hq
  have hok : ∀ v τ, cond v = true → At t r m (Sampled cond N K v) τ →
      (platform A π).wp (pure (.ok v) : Kernel π _) (Polled t r m N K) τ := by
    intro v τ hc hτ
    rw [Sampled, if_pos hc] at hτ
    apply Platform.wp_ret (hstable _)
    apply hτ
  have hno : ∀ v τ, ¬ cond v = true → At t r m (Sampled cond N K v) τ → At t r m N τ := by
    intro v τ hc hτ
    rw [Sampled, if_neg hc] at hτ
    apply hτ
  induction polls generalizing σ with
  | zero =>
      apply Platform.wp_seq (wp_poll hI hN hK hq hread h)
      intro v τ hv
      split
      · apply hok v τ ‹_› hv
      · have hτ := (hno v τ ‹_› hv).imp hagain
        apply Platform.wp_seq (wp_poll hI hN hK hq hread hτ)
        intro w υ hw
        split
        · apply hok w υ ‹_› hw
        · apply Platform.wp_ret (hstable _)
          apply hno w υ ‹_› hw
  | succ polls ih =>
      apply Platform.wp_seq (wp_poll hI hN hK hq hread h)
      intro v τ hv
      split
      · apply hok v τ ‹_› hv
      · apply ih ((hno v τ ‹_› hv).imp hagain)

/-- A poll that ends in time has read a word that meets its condition, and one that does
not has read a word that misses it. -/
theorem wp_readlPollTimeout (hagain : ∀ hw bus, N hw bus → I hw bus) (h : At t r m I σ) :
  (platform A π).wp (readlPollTimeout reg cond) (Polled t r m N K) σ
  := by
  apply Platform.wp_seq (wp_pollsLeft hI hq h)
  intro polls τ hτ
  apply wp_pollLoop hI hN hK hq hread hagain polls hτ

end Poll

end Board
