import ZynqRtlFlow.Board.Calm
import ZynqRtlFlow.Board.Progress
import ZynqRtlFlow.Program.Can
import ZynqRtlFlow.Program.Honors

/-!
# Every tile can be served

An accelerator that is calm, and to which the bus, the DMA and the kernel do what they can,
takes a tile in and hands it over: the beats it has not moved become fewer as long as some
are left.  So from a calm accelerator every write of a tile can end with the tile done
(`EagerContract.can_writeTile`).
-/

open AxiLite Driver

namespace Board

variable {A : Accelerator} {π : Type}

/-- An assertion on the control registers and the bus that every clock cycle keeps, whether
or not beats move. -/
structure Controls (A : Accelerator) (Control : A.State → Bus → Prop) : Prop where
  coherent : ∀ hw bus, Control hw bus → bus.Coherent (A.write hw)
  cycle : ∀ hw bus e valid beat last ready, Control hw bus →
    Control (A.cycle (bus.drive e) valid beat last ready hw).next
      (bus.cycle (A.write hw) (bus.drive e))

/-- The operations that keep such an assertion. -/
def Keeps (Control : A.State → Bus → Prop) : KernelOp π → Prop
  | .writel word reg => ∀ hw bus, Control hw bus → Control hw (bus.post reg word)
  | _ => True

theorem keeps_of_ne_writel (Control : A.State → Bus → Prop) {o : KernelOp π}
    (h : ∀ word reg, o ≠ .writel word reg) :
  Keeps Control o
  := by
  cases o with
  | writel word reg => cases h word reg rfl
  | _ => trivial

/-- The control registers and the bus of the board. -/
def Under (Control : A.State → Bus → Prop) (σ : State A π) : Prop :=
  Control σ.hw σ.bus

section Control

variable {Control : A.State → Bus → Prop} (hcontrol : Controls A Control)

include hcontrol

theorem stable_under :
  (platform A π).Stable (Under Control)
  := by
  apply stable_of
  · intro e σ h
    apply hcontrol.cycle _ _ _ _ _ _ _ h
  · intro c σ h
    obtain ⟨hhw, hbus⟩ := complete_hw_bus c σ
    rw [Under, hhw, hbus]
    apply h

theorem Under.exec {o : KernelOp π} {c : Choice} {σ σ' : State A π} {x : o.Res}
    (ho : Keeps Control o) (h : Under Control σ) (hx : exec o c σ = some (x, σ')) :
  Under Control σ'
  := by
  have hsame : o.NoRegister → Under Control σ' := by
    intro hregister
    obtain ⟨hhw, hbus⟩ := exec_hw_bus hregister hx
    rw [Under, hhw, hbus]
    apply h
  cases o with
  | readl reg =>
      obtain ⟨-, rfl, -⟩ := exec_readl hx
      apply hcontrol.cycle _ _ _ _ _ _ _ h
  | writel word reg =>
      obtain rfl := exec_writel hx
      apply ho _ _ h
  | _ => apply hsame trivial

/-- Whatever operation the driver waits for can be performed. -/
theorem responsive (hA : ReadsOwn A) :
  (platform A π).Responsive (Under Control) (Keeps Control)
  := by
  constructor
  · apply stable_under hcontrol
  · intro o c σ x σ' ho h hx
    apply Under.exec hcontrol ho h hx
  · intro o σ ho h
    obtain ⟨es, -, hperformed⟩ := (unblocked hA).performed o σ (hcontrol.coherent _ _ h)
    obtain ⟨⟨x, σ'⟩, hx⟩ := hperformed willing
    use es, willing, x, σ'

/-- A program that keeps the control registers can end as all its runs do. -/
theorem can_end {α : Type} (hA : ReadsOwn A) {p : Kernel π α} (hp : p.Performs (Keeps Control))
    {post : α → State A π → Prop} {σ : State A π} (h : Under Control σ)
    (hwp : (platform A π).wp p post σ) :
  (platform A π).Can p (fun a τ => Under Control τ ∧ post a τ) σ
  := Platform.can_of_wp (Platform.can_of_performs (responsive hcontrol hA) hp h) hwp

/-- Operations that keep the control registers do so on the board. -/
theorem upholds_under :
  (platform A π).Upholds (Under Control) (fun _ _ => True) (Keeps Control)
  := by
  intro o c σ x σ' h ho hx
  use Under.exec hcontrol ho h hx

end Control

/-! ### Moving beats -/

/-- A transfer in its channel, once issued. -/
theorem Carries.of_issued {beatBytes : ℕ} {desc : Desc} {k : ℕ} {ch : Channel}
    (h : Carries beatBytes desc k ch) (hissued : ch.issued ≠ []) :
  ch.pending beatBytes = decide (k * beatBytes < desc.bytes) ∧ ch.moved = k
    ∧ ch.atLast beatBytes = decide (desc.bytes ≤ (k + 1) * beatBytes)
  := by
  cases h with
  | waiting => cases hissued rfl
  | moving k ended h =>
      refine ⟨?_, rfl, rfl⟩
      cases ended with
      | false => rfl
      | true =>
          have hle := h rfl
          simp only [Channel.pending, Bool.not_true, Bool.false_and]
          apply (decide_eq_false _).symm
          omega
  | gone k => cases hissued rfl

section Airborne

variable (ops : AccelOps π) (m : Mem π) (n sent returned : ℕ)
  (Inside : ℕ → ℕ → A.State → Bus → Prop) (result : ℕ → BitVec 8)

/-- A tile in transit whose transfers have been issued and not reported done. -/
structure Airborne (j k : ℕ) (σ : State A π) : Prop where
  flight : Flight m n sent returned Inside result j k σ
  tx : σ.tx.issued ≠ []
  rx : if ops.duplex then σ.rx.issued ≠ [] else σ.rx = .empty

/-- All beats of the tile have moved. -/
def AllMoved (j k : ℕ) : Prop :=
  n ≤ j * A.beatBytes ∧ (ops.duplex = true → n ≤ k * A.beatBytes)

variable {ops m n sent returned Inside result} {j k : ℕ} {σ : State A π}
  (h : Airborne ops m n sent returned Inside result j k σ)

include h

/-- What an eager cycle does to a tile in transit. -/
theorem Airborne.outcome :
  outcome eager σ = A.cycle (σ.bus.drive drain.axil) (decide (j * A.beatBytes < n))
    (beatAt A m.txBuf j) (decide (n ≤ (j + 1) * A.beatBytes))
    (ops.duplex && decide (k * A.beatBytes < n)) σ.hw
  := by
  obtain ⟨hpending, hmoved, hlast⟩ := h.flight.tx.carries.of_issued h.tx
  have hrx : σ.rx.pending A.beatBytes = (ops.duplex && decide (k * A.beatBytes < n)) := by
    have hrx := h.rx
    cases hduplex : ops.duplex with
    | true =>
        rw [hduplex, if_pos rfl] at hrx
        apply (h.flight.rx.carries.of_issued hrx).1
    | false =>
        rw [hduplex, if_neg Bool.false_ne_true] at hrx
        rw [hrx]
        rfl
  rw [Board.outcome, hpending, hmoved, hlast, hrx, h.flight.kept.txBuf]
  rfl

variable (hserves : Serves A m.txBuf n Inside result)

include hserves

theorem Airborne.cycle (e : Env) :
  Airborne ops m n sent returned Inside result
    (if (Board.outcome e σ).accepted then j + 1 else j)
    (if (Board.outcome e σ).handed.isSome then k + 1 else k) (cycle e σ)
  := by
  have hsame : ∀ x, (rxNext σ.rx x).issued = σ.rx.issued := by
    intro x
    cases x with
    | none => rfl
    | some x => rfl
  use h.flight.cycle_counts hserves e
  · change (if (Board.outcome e σ).accepted then σ.tx.advance false else σ.tx).issued ≠ []
    split
    · apply h.tx
    · apply h.tx
  · have hrx := h.rx
    cases hduplex : ops.duplex with
    | true =>
        rw [hduplex, if_pos rfl] at hrx
        rw [if_pos rfl]
        change (rxNext σ.rx _).issued ≠ []
        rw [hsame]
        apply hrx
    | false =>
        rw [hduplex, if_neg Bool.false_ne_true] at hrx
        rw [if_neg Bool.false_ne_true]
        apply stable_rx_empty (.cycle e) σ hrx

end Airborne

/-- The report of a transfer that has moved all of its beats. -/
theorem mem_completed_complete {desc : Desc} {k : ℕ} {σ : State A π} {c : Chan}
    (h : Carries A.beatBytes desc k (chan σ c)) (hissued : (chan σ c).issued ≠ [])
    (hall : desc.bytes ≤ k * A.beatBytes) :
  desc.done ∈ (complete c σ).mem.completed
  := by
  have hpending : ¬ (chan σ c).pending A.beatBytes = true := by
    rw [(h.of_issued hissued).1, decide_eq_true_eq]
    omega
  have hhead : (chan σ c).issued = [desc] := by
    generalize chan σ c = ch at h hissued
    cases h with
    | waiting => cases hissued rfl
    | moving k ended hended => rfl
    | gone k => cases hissued rfl
  rw [complete, hhead]
  simp only [hpending]
  apply List.mem_cons_self

theorem rx_complete_tx (σ : State A π) :
  (complete .tx σ).rx = σ.rx
  := by
  rw [complete]
  split
  · rfl
  · split
    · rfl
    · rfl

/-- A wait for a completion already signalled. -/
theorem can_accelWait {c : Chan} {done : ℕ} {σ : State A π} (h : done ∈ σ.mem.completed) :
  (platform A π).Can (accelWait c done) (fun ret τ => ret = .ok () ∧ τ = σ) σ
  := by
  let ch : Choice := ⟨eager, true, .EBUSY, fun _ => 0, 0⟩
  have hexec : exec (.waitForCompletion done) ch σ = some (true, σ) :=
    congrArg (fun b => some (b, σ)) (decide_eq_true h)
  apply Platform.can_op (c := ch) hexec
  apply Platform.can_ret
  use rfl

theorem can_publish (ops : AccelOps π) (n : ℕ) (σ : State A π) :
  (platform A π).Can (publish ops n) (fun _ _ => True) σ
  := by
  let ch : Choice := ⟨eager, true, .EBUSY, fun _ => 0, 0⟩
  rw [publish]
  split
  · have hload : exec .load ch σ = some (σ.mem.data, σ) := rfl
    apply Platform.can_op (c := ch) hload
    apply Platform.can_perform (c := ch) rfl
    trivial
  · apply Platform.can_ret
    trivial

/-- An accelerator and its register layer finish the tiles of a contract: in an eager cycle
the beats not moved become fewer, or what comes before them, and the register layer agrees
that a tile of which all have moved is done. -/
structure EagerContract {ops : AccelOps π} {buf : ℕ → BitVec 8} {n : ℕ}
    {C : TileContract A ops buf n} (K : CalmContract C) where
  Control : A.State → Bus → Prop
  control : Controls A Control
  accept : ops.accept.Performs (Keeps Control)
  start : ops.start.Performs (Keeps Control)
  rank : ℕ → ℕ → A.State → Bus → ℕ
  advances : ∀ j k hw bus, C.Inside j k hw bus → Control hw bus → ¬ AllMoved (A := A) ops n j k →
    let out := A.cycle (bus.drive drain.axil) (decide (j * A.beatBytes < n)) (beatAt A buf j)
      (decide (n ≤ (j + 1) * A.beatBytes)) (ops.duplex && decide (k * A.beatBytes < n)) hw
    rank (if out.accepted then j + 1 else j) (if out.handed.isSome then k + 1 else k) out.next
      (bus.cycle (A.write hw) (bus.drive drain.axil)) < rank j k hw bus
  finish : ∀ j k (m : Mem π) σ, AllMoved (A := A) ops n j k →
    At .empty .empty m (C.Inside j k) σ → Under Control σ →
    (platform A π).Can (ops.finish (n / ops.beatBytes)) (fun ret _ => ret = .ok ()) σ

namespace EagerContract

variable {ops : AccelOps π} {m : Mem π} {n sent returned : ℕ} {C : TileContract A ops m.txBuf n}
  {K : CalmContract C} (E : EagerContract K)

/-- Eager cycles move all beats of a tile in transit. -/
theorem all_moved {j k : ℕ} {σ : State A π}
    (h : Airborne ops m n sent returned C.Inside C.result j k σ) (hctrl : Under E.Control σ) :
  ∃ N j' k', Airborne ops m n sent returned C.Inside C.result j' k' ((cycle eager)^[N] σ)
    ∧ Under E.Control ((cycle eager)^[N] σ) ∧ AllMoved (A := A) ops n j' k'
  := by
  induction hr : E.rank j k σ.hw σ.bus using Nat.strongRecOn generalizing j k σ with
  | ind r ih =>
      by_cases hmoved : AllMoved (A := A) ops n j k
      · use 0, j, k, h, hctrl
      · have hlt := E.advances j k σ.hw σ.bus h.flight.holds hctrl hmoved
        have hnext := h.cycle C.serves eager
        have hctrl' : Under E.Control (cycle eager σ) := stable_under E.control (.cycle eager) σ hctrl
        rw [← h.outcome] at hlt
        rw [← hr] at ih
        obtain ⟨N, hN⟩ := ih _ hlt hnext hctrl' rfl
        use N + 1
        apply hN

/-- The hardware can bring both transfers of a tile to their ends. -/
theorem transfers_end {j k : ℕ} {σ : State A π}
    (h : Airborne ops m n sent returned C.Inside C.result j k σ) (hctrl : Under E.Control σ)
    (hsent : sent < m.declared) (hreturned : returned < m.declared) (hne : sent ≠ returned) :
  ∃ (es : List Move) (τ : State A π), (platform A π).moves es σ = τ ∧ Under E.Control τ
    ∧ sent ∈ τ.mem.completed ∧ (ops.duplex = true → returned ∈ τ.mem.completed)
  := by
  obtain ⟨N, j', k', hN, hctrl', htx, hrx⟩ := E.all_moved h hctrl
  have hmoves := moves_replicate (A := A) (π := π) eager N σ
  generalize (cycle eager)^[N] σ = τ at hN hctrl' hmoves
  have hstable := stable_under (π := π) E.control
  have hcompleted : sent ∈ (complete .tx τ).mem.completed :=
    mem_completed_complete (c := .tx) hN.flight.tx.carries hN.tx htx
  have hflight := hN.flight.complete hsent hreturned hne .tx
  let reports : List Move := [.complete .tx, .complete .rx]
  use List.replicate N (Move.cycle eager) ++ reports, complete .rx (complete .tx τ)
  use (Platform.moves_append (P := platform A π) _ reports σ).trans
    (congrArg ((platform A π).moves reports) hmoves)
  constructor
  · apply hstable (.complete .rx) _ (hstable (.complete .tx) _ hctrl')
  · constructor
    · apply stable_completed sent (.complete .rx) _ hcompleted
    · intro hduplex
      have hissued := hN.rx
      rw [hduplex, if_pos rfl] at hissued
      apply mem_completed_complete (c := .rx) hflight.rx.carries _ (hrx hduplex)
      change (complete .tx τ).rx.issued ≠ []
      rw [rx_complete_tx]
      apply hissued

/-- The return path is issued, if there is one. -/
theorem can_issueRx {σ : State A π} (hctrl : Under E.Control σ) (hfresh : Fresh m)
    (hsent : sent ∉ m.completed) (hreturned : returned ∉ m.completed)
    (h : At (Channel.empty.submit ⟨n, sent⟩) (rxSubmitted ops n returned) m (C.Inside 0 0) σ) :
  (platform A π).Can (issueRx ops) (fun _ τ => Under E.Control τ
    ∧ Flight m n sent returned C.Inside C.result 0 0 τ ∧ τ.tx = Channel.empty.submit ⟨n, sent⟩
    ∧ if ops.duplex then τ.rx.issued ≠ [] else τ.rx = .empty) σ
  := by
  have hflight := flight_of_submitted C.result hfresh hsent hreturned h
  have hrx := h.rx
  let ch : Choice := ⟨eager, true, .EBUSY, fun _ => 0, 0⟩
  rw [issueRx]
  cases hduplex : ops.duplex with
  | true =>
      rw [rxSubmitted, hduplex, if_pos rfl] at hrx
      rw [if_pos rfl]
      have hexec : exec (.issuePending .rx) ch σ = some ((), setChan σ (chan σ .rx).issuePending .rx) :=
        rfl
      apply Platform.can_perform (c := ch) hexec
      use hctrl, hflight.issuePending .rx, h.tx
      rw [if_pos rfl]
      change (σ.rx.issuePending).issued ≠ []
      rw [hrx]
      apply List.cons_ne_nil
  | false =>
      rw [rxSubmitted, hduplex, if_neg Bool.false_ne_true] at hrx
      rw [if_neg Bool.false_ne_true]
      apply Platform.can_ret
      use hctrl, hflight, h.tx
      rw [if_neg Bool.false_ne_true]
      apply hrx

/-- The transfers of a tile can complete. -/
theorem can_transferTile (hA : ReadsOwn A) {σ : State A π} (hctrl : Under E.Control σ)
    (hfresh : Fresh m) (hsent : sent ∉ m.completed) (hreturned : returned ∉ m.completed)
    (hsent' : sent < m.declared) (hreturned' : returned < m.declared) (hne : sent ≠ returned)
    (h : At (Channel.empty.submit ⟨n, sent⟩) (rxSubmitted ops n returned) m C.Ready σ) :
  (platform A π).Can (transferTile ops sent returned)
    (fun ret τ => ret = .ok () ∧ Under E.Control τ) σ
  := by
  have hquiet : Quiet (Channel.empty.submit ⟨n, sent⟩) (rxSubmitted ops n returned) := by
    use rfl
    rw [rxSubmitted]
    split <;> rfl
  let ch : Choice := ⟨eager, true, .EBUSY, fun _ => 0, 0⟩
  apply Platform.can_seq (can_end E.control hA E.start hctrl (C.start _ _ _ _ hquiet h))
  rintro _ τ ⟨hctrl, hτ⟩
  apply Platform.can_seq (E.can_issueRx hctrl hfresh hsent hreturned hτ)
  rintro _ τ ⟨hctrl, hflight, htx, hrx⟩
  have hexec : exec (.issuePending .tx) ch τ = some ((), setChan τ (chan τ .tx).issuePending .tx) :=
    rfl
  apply Platform.can_op (c := ch) hexec
  have hairborne : Airborne ops m n sent returned C.Inside C.result 0 0
      (setChan τ (chan τ .tx).issuePending .tx) := by
    use hflight.issuePending .tx
    · change τ.tx.issuePending.issued ≠ []
      rw [htx]
      apply List.cons_ne_nil
    · apply hrx
  obtain ⟨es, φ, hmoves, hctrl', hdone, hback⟩ :=
    E.transfers_end hairborne hctrl hsent' hreturned' hne
  apply Platform.can_moves es
  apply Platform.can_seq (can_accelWait (hmoves ▸ hdone))
  rintro _ υ ⟨rfl, rfl⟩
  change (platform A π).Can (waitRx ops returned) _ _
  rw [waitRx]
  split
  · apply Platform.can_mono (can_accelWait (hmoves ▸ hback ‹_›))
    rintro _ υ ⟨rfl, rfl⟩
    exact ⟨rfl, hmoves ▸ hctrl'⟩
  · apply Platform.can_ret
    exact ⟨rfl, hmoves ▸ hctrl'⟩

/-- With a free DMA engine both transfers of a tile can be submitted. -/
theorem can_submitTile {σ : State A π} (hctrl : Under E.Control σ) :
  (platform A π).Can (submitTile ops n sent returned) (fun ret τ => ret = .ok () ∧ Under E.Control τ) σ
  := by
  let ch : Choice := ⟨eager, true, .EBUSY, fun _ => 0, 0⟩
  have hprep : ∀ (c : Chan) (done : ℕ) (τ : State A π),
      exec (.prepSlaveSingle c n done) ch τ = some (some ⟨n, done⟩, τ) := fun _ _ _ => rfl
  have hsubmit : ∀ (c : Chan) (desc : Desc) (τ : State A π),
      exec (.submit c desc) ch τ = some (none, setChan τ ((chan τ c).submit desc) c) :=
    fun _ _ _ => rfl
  have hchan : ∀ (c : Chan) (channel : Channel) (τ : State A π), Under E.Control τ →
      Under E.Control (setChan τ channel c) := by
    intro c channel τ hτ
    obtain ⟨hhw, hbus⟩ := setChan_hw_bus τ channel c
    rw [Under, hhw, hbus]
    apply hτ
  have htx : ∀ (k : Option Errno → Kernel π (Except Errno Unit)) (τ : State A π),
      k none = pure (.ok ()) → Under E.Control τ → (platform A π).Can
        (.op (.submit .tx ⟨n, sent⟩) k) (fun ret τ => ret = .ok () ∧ Under E.Control τ) τ := by
    intro k τ hk hτ
    apply Platform.can_op (c := ch) (hsubmit .tx _ τ)
    rw [hk]
    apply Platform.can_ret
    use rfl
    apply hchan _ _ _ hτ
  rw [submitTile, prepRx]
  cases hduplex : ops.duplex with
  | true =>
      apply Platform.can_op (c := ch) (hprep .rx returned σ)
      apply Platform.can_op (c := ch) (hprep .tx sent σ)
      apply Platform.can_op (c := ch) (hsubmit .rx _ σ)
      apply htx _ _ rfl
      apply hchan _ _ _ hctrl
  | false =>
      apply Platform.can_op (c := ch) (hprep .tx sent σ)
      apply htx _ σ rfl hctrl

/-- A tile run from a calm accelerator can end done. -/
theorem can_runTile (hA : ReadsOwn A) {σ : State A π} (hctrl : Under E.Control σ)
    (hfresh : Fresh m) (h : At .empty .empty m K.Calm σ) :
  (platform A π).Can (runTile ops n) (fun exit _ => exit = .done) σ
  := by
  have hkeeps : ∀ bytes : ℕ, (setReceived bytes : Kernel π Unit).Performs (Keeps E.Control) := by
    intro bytes
    apply Prog.performs_bind (Prog.performs_perform trivial)
    intro data
    apply Prog.performs_perform trivial
  have hdeclare : (declareCompletion : Kernel π ℕ).Performs (Keeps E.Control) :=
    Prog.performs_perform trivial
  apply Platform.can_seq (can_end E.control hA hdeclare hctrl
    (wp_declareCompletion K.calm quiet_empty h))
  rintro sent τ₁ ⟨hctrl₁, rfl, hτ₁⟩
  apply Platform.can_seq (can_end E.control hA hdeclare hctrl₁
    (wp_declareCompletion K.calm quiet_empty hτ₁))
  rintro returned τ₂ ⟨hctrl₂, rfl, hτ₂⟩
  apply Platform.can_seq (can_end E.control hA (hkeeps 0) hctrl₂
    (wp_setReceived K.calm quiet_empty hτ₂ 0))
  rintro _ τ₃ ⟨hctrl₃, hτ₃⟩
  apply Platform.can_seq (can_end E.control hA E.accept hctrl₃ (K.accept _ τ₃ hτ₃))
  rintro ret τ₄ ⟨hctrl₄, hτ₄⟩
  cases ret with
  | error e => cases hτ₄.holds
  | ok =>
      have hfresh' : ∀ c ∈ m.completed, c < m.declared + 1 + 1 := by
        intro c hc
        have hlt := hfresh c hc
        omega
      have hlt : m.declared < m.declared + 1 + 1 := by omega
      have hlt' : m.declared + 1 < m.declared + 1 + 1 := by omega
      have hne : m.declared ≠ m.declared + 1 := by omega
      have hsent := hfresh.notMem (Nat.le_refl m.declared)
      have hreturned := hfresh.notMem (Nat.le_succ m.declared)
      apply Platform.can_seq (Platform.can_of_wp (E.can_submitTile hctrl₄)
        (wp_submitTile ops C.ready hτ₄ n m.declared (m.declared + 1)))
      rintro ret τ₅ ⟨⟨rfl, hctrl₅⟩, hτ₅⟩
      have hquiet : Quiet (Channel.empty.submit ⟨n, m.declared⟩)
          (rxSubmitted ops n (m.declared + 1)) := by
        use rfl
        rw [rxSubmitted]
        split <;> rfl
      have htransfer := E.can_transferTile (m := { m with
        data := { m.data with received := 0 }
        declared := m.declared + 1 + 1 }) hA hctrl₅ hfresh' hsent hreturned hlt hlt' hne hτ₅
      have hwp := wp_transferTile (m := { m with
        data := { m.data with received := 0 }
        declared := m.declared + 1 + 1 }) C.serves hlt hlt' hne hfresh' hsent hreturned
        (C.start _ _ _ τ₅ hquiet hτ₅)
      apply Platform.can_seq (Platform.can_of_wp htransfer hwp)
      rintro ret τ₆ ⟨⟨rfl, hctrl₆⟩, m', j, k, hkept, hat, hj, hk⟩
      have hmoved : AllMoved (A := A) ops n j k := ⟨hj, fun hduplex => (hk hduplex).1⟩
      apply Platform.can_seq (E.finish j k m' τ₆ hmoved hat hctrl₆)
      rintro ret τ₇ rfl
      apply Platform.can_seq (can_publish ops n τ₇)
      intro _ τ₈ _
      apply Platform.can_ret
      rfl

/-- So can a write of the tile. -/
theorem can_writeTile (hA : ReadsOwn A) {m : Mem π} {bytes : List (BitVec 8)}
    {C : TileContract A ops (Mem.txBuf { m with txBuf := fill m.txBuf bytes }) bytes.length}
    {K : CalmContract C} (E : EagerContract K) {σ : State A π} (hctrl : Under E.Control σ)
    (hfresh : Fresh m) (h : At .empty .empty m K.Calm σ) :
  (platform A π).Can (writeTile ops bytes) (fun v _ => v = .ran .done) σ
  := by
  obtain ⟨htx, hrx, rfl, hcalm⟩ := h
  let σ' : State A π := { σ with mem := { σ.mem with txBuf := fill σ.mem.txBuf bytes } }
  have hcopy : (platform A π).Can (copyFromUser bytes) (fun ok τ => ok = true ∧ τ = σ') σ := by
    let ch : Choice := ⟨eager, true, .EBUSY, fun _ => 0, 0⟩
    have hexec : exec (.copyFromUser bytes) ch σ = some (true, σ') := rfl
    apply Platform.can_perform (c := ch) hexec
    exact ⟨rfl, rfl⟩
  have htile := E.can_runTile (σ := σ') hA hctrl hfresh ⟨htx, hrx, rfl, hcalm⟩
  apply Platform.can_seq hcopy
  rintro ok τ ⟨rfl, rfl⟩
  apply Platform.can_seq htile
  rintro exit τ rfl
  apply Platform.can_ret
  rfl

end EagerContract

end Board
