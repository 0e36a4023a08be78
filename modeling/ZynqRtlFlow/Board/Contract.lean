import ZynqRtlFlow.Board.Transit
import ZynqRtlFlow.Driver.TileExit

/-!
# The accelerator contract

What the transport relies on to carry a tile of `n` bytes from a buffer, as assertions on
the accelerator and its bus: at rest, ready for a tile, and with so many beats in and out.
An accelerator and a register layer that satisfy `TileContract` are used correctly by
`accel_run_tile`: whatever fails, both channels are empty again and the accelerator at
rest, and a tile is reported complete only when all of it has been sent, and received if
there is a return path (`TileContract.wp_accelRunTile`).
-/

open AxiLite Driver

namespace Board

variable {A : Accelerator} {π : Type}

/-- Every completion signalled has been declared. -/
def Fresh (m : Mem π) : Prop := ∀ c ∈ m.completed, c < m.declared

theorem Fresh.notMem {m : Mem π} (h : Fresh m) {c : ℕ} (hc : m.declared ≤ c) :
  c ∉ m.completed
  := by
  intro hmem
  have hlt := h c hmem
  omega

/-- An accelerator and its register layer keep the contract for a tile of `n` bytes from
`buf`. -/
structure TileContract (A : Accelerator) {π : Type} (ops : AccelOps π) (buf : ℕ → BitVec 8)
    (n : ℕ) where
  /-- Between tiles. -/
  Rest : A.State → Bus → Prop
  /-- A tile may start. -/
  Ready : A.State → Bus → Prop
  /-- The tile has been started, and so many beats are in and out. -/
  Inside : ℕ → ℕ → A.State → Bus → Prop
  /-- The beats out. -/
  result : ℕ → BitVec 8
  /-- What a tile that finished may leave in the driver's own data. -/
  Latched : AccelData π → AccelData π → Prop
  rest : Undisturbed A Rest
  ready : Undisturbed A Ready
  serves : Serves A buf n Inside result
  idle : ∀ hw bus, Ready hw bus → Rest hw bus
  landed : ∀ j k hw bus, Inside j k hw bus → Rest hw bus
  accept : ∀ (m : Mem π) σ, At .empty .empty m Rest σ →
    (platform A π).wp ops.accept (fun ret => At .empty .empty m (Checked Rest Ready ret)) σ
  start : ∀ t r (m : Mem π) σ, Quiet t r → At t r m Ready σ →
    (platform A π).wp ops.start (fun _ => At t r m (Inside 0 0)) σ
  finish : ∀ j k (m : Mem π) σ, n ≤ j * A.beatBytes →
    (ops.duplex = true → n ≤ k * A.beatBytes) → At .empty .empty m (Inside j k) σ →
    (platform A π).wp (ops.finish (n / ops.beatBytes)) (fun ret τ => match ret with
      | .ok () => ∃ data, Latched m.data data ∧ At .empty .empty { m with data := data } Rest τ
      | .error _ => At .empty .empty m Rest τ) σ

namespace TileContract

variable {ops : AccelOps π} {m : Mem π} {n : ℕ} (C : TileContract A ops m.txBuf n)

/-- The driver's own data once a tile has been published. -/
def published (ops : AccelOps π) (n : ℕ) (data : AccelData π) : AccelData π :=
  if ops.duplex then { data with received := n } else data

/-- What running a tile leaves: the accelerator at rest with empty channels, and results
published if it succeeded, none if it failed. -/
def Ran : Except Errno Unit → State A π → Prop
  | .ok () => fun σ => ∃ m' data, Fresh m' ∧ At .empty .empty m' C.Rest σ
      ∧ C.Latched { m.data with received := 0 } data ∧ m'.data = published ops n data
      ∧ (ops.duplex = true → ∃ k, n ≤ k * A.beatBytes ∧ ∀ i < k, m'.rxBuf i = C.result i)
  | .error _ => fun σ => ∃ m', Fresh m' ∧ At .empty .empty m' C.Rest σ
      ∧ m'.data = { m.data with received := 0 }

theorem stable_ran (ret : Except Errno Unit) :
  (platform A π).Stable (C.Ran ret)
  := by
  intro e τ hτ
  cases ret with
  | ok =>
      obtain ⟨m', data, hfresh, hat, h⟩ := hτ
      exact ⟨m', data, hfresh, stable_at C.rest quiet_empty e τ hat, h⟩
  | error =>
      obtain ⟨m', hfresh, hat, h⟩ := hτ
      exact ⟨m', hfresh, stable_at C.rest quiet_empty e τ hat, h⟩

/-! ### Where a tile leaves -/

section Exits

variable {E B X : A.State → Bus → Prop}

/-- What running a tile leaves, by where it leaves: `B` if the register layer refused it,
an accelerator still ready if the transfers were not issued, at rest if they or the tile
did not end, and `X` once the tile is done. -/
def Exited (B X : A.State → Bus → Prop) : TileExit → State A π → Prop
  | .done => fun σ => ∃ m' data, Fresh m' ∧ At .empty .empty m' X σ
      ∧ C.Latched { m.data with received := 0 } data ∧ m'.data = published ops n data
      ∧ (ops.duplex = true → ∃ k, n ≤ k * A.beatBytes ∧ ∀ i < k, m'.rxBuf i = C.result i)
  | .refused _ => fun σ => ∃ m', Fresh m' ∧ At .empty .empty m' B σ
      ∧ m'.data = { m.data with received := 0 }
  | .notSubmitted _ => fun σ => ∃ m', Fresh m' ∧ At .empty .empty m' C.Ready σ
      ∧ m'.data = { m.data with received := 0 }
  | .notTransferred _ | .notFinished _ => fun σ => ∃ m', Fresh m' ∧ At .empty .empty m' C.Rest σ
      ∧ m'.data = { m.data with received := 0 }

theorem stable_exited (hB : Undisturbed A B) (hX : Undisturbed A X) (exit : TileExit) :
  (platform A π).Stable (C.Exited B X exit)
  := by
  have hfail : ∀ {I : A.State → Bus → Prop}, Undisturbed A I →
      (platform A π).Stable fun σ : State A π => ∃ m', Fresh m' ∧ At .empty .empty m' I σ
        ∧ m'.data = { m.data with received := 0 } := by
    rintro I hI e τ ⟨m', hfresh, hat, hdata⟩
    exact ⟨m', hfresh, stable_at hI quiet_empty e τ hat, hdata⟩
  cases exit with
  | refused e => apply hfail hB
  | notSubmitted e => apply hfail C.ready
  | notTransferred e => apply hfail C.rest
  | notFinished e => apply hfail C.rest
  | done =>
      rintro e τ ⟨m', data, hfresh, hat, h⟩
      exact ⟨m', data, hfresh, stable_at hX quiet_empty e τ hat, h⟩

omit C in
theorem wp_publish (hX : Undisturbed A X) {σ : State A π} {m' : Mem π}
    (hσ : At .empty .empty m' X σ) :
  (platform A π).wp (publish ops n)
    (fun _ => At .empty .empty { m' with data := published ops n m'.data } X) σ
  := by
  rw [publish, published]
  split
  · apply wp_setReceived hX quiet_empty hσ
  · apply Platform.wp_skip (stable_at hX quiet_empty)
    apply hσ

variable (hE : Undisturbed A E) (hB : Undisturbed A B) (hX : Undisturbed A X)
  (haccept : ∀ (m : Mem π) σ, At .empty .empty m E σ →
    (platform A π).wp ops.accept (fun ret => At .empty .empty m (Checked B C.Ready ret)) σ)
  (hfinish : ∀ j k (m : Mem π) σ, n ≤ j * A.beatBytes →
    (ops.duplex = true → n ≤ k * A.beatBytes) → At .empty .empty m (C.Inside j k) σ →
    (platform A π).wp (ops.finish (n / ops.beatBytes)) (fun ret τ => match ret with
      | .ok () => ∃ data, C.Latched m.data data ∧ At .empty .empty { m with data := data } X τ
      | .error _ => At .empty .empty m C.Rest τ) σ)

include hE hB hX haccept hfinish

/-- Running a tile, from `E`: where it leaves says what it leaves. -/
theorem wp_runTile {σ : State A π} (hfresh : Fresh m) (hσ : At .empty .empty m E σ) :
  (platform A π).wp (runTile ops n) (C.Exited B X) σ
  := by
  have hstable := C.stable_exited (m := m) hB hX
  apply Platform.wp_seq (wp_declareCompletion hE quiet_empty hσ)
  rintro sent τ₁ ⟨rfl, hτ₁⟩
  apply Platform.wp_seq (wp_declareCompletion hE quiet_empty hτ₁)
  rintro returned τ₂ ⟨rfl, hτ₂⟩
  apply Platform.wp_seq (wp_setReceived hE quiet_empty hτ₂ 0)
  intro _ τ₃ hτ₃
  have hfresh₃ : ∀ c ∈ m.completed, c < m.declared + 1 + 1 := by
    intro c hc
    have hlt := hfresh c hc
    omega
  have hlt : m.declared < m.declared + 1 + 1 := by omega
  have hlt' : m.declared + 1 < m.declared + 1 + 1 := by omega
  have hne : m.declared ≠ m.declared + 1 := by omega
  have hsent := hfresh.notMem (Nat.le_refl m.declared)
  have hreturned := hfresh.notMem (Nat.le_succ m.declared)
  apply Platform.wp_seq (haccept _ τ₃ hτ₃)
  intro ret τ₄ hτ₄
  cases ret with
  | error e =>
      apply Platform.wp_ret (hstable _)
      refine ⟨_, ?_, hτ₄, rfl⟩
      apply hfresh₃
  | ok =>
      apply Platform.wp_seq (wp_submitTile ops C.ready hτ₄ n _ _)
      intro ret τ₅ hτ₅
      cases ret with
      | error e =>
          apply Platform.wp_ret (hstable _)
          refine ⟨_, ?_, hτ₅, rfl⟩
          apply hfresh₃
      | ok =>
          have hquiet : Quiet (Channel.empty.submit ⟨n, m.declared⟩)
              (rxSubmitted ops n (m.declared + 1)) := by
            use rfl
            rw [rxSubmitted]
            split <;> rfl
          have hstart := C.start _ _ _ τ₅ hquiet hτ₅
          have htransfer := wp_transferTile (m := { m with
              data := { m.data with received := 0 }
              declared := m.declared + 1 + 1 }) C.serves hlt hlt' hne hfresh₃ hsent hreturned
            hstart
          apply Platform.wp_seq htransfer
          intro ret τ₆ hτ₆
          cases ret with
          | error e =>
              obtain ⟨m', j, k, hkept, hat⟩ := hτ₆
              apply Platform.wp_ret (hstable _)
              exact ⟨m', hkept.fresh, At.imp hat (C.landed j k), hkept.data⟩
          | ok =>
              obtain ⟨m', j, k, hkept, hat, hj, hk⟩ := hτ₆
              apply Platform.wp_seq (hfinish j k m' τ₆ hj (fun hduplex => (hk hduplex).1) hat)
              intro ret τ₇ hτ₇
              cases ret with
              | error e =>
                  apply Platform.wp_ret (hstable _)
                  exact ⟨m', hkept.fresh, hτ₇, hkept.data⟩
              | ok =>
                  obtain ⟨data, hlatched, hτ₇⟩ := hτ₇
                  apply Platform.wp_seq (wp_publish hX hτ₇)
                  intro _ τ₈ hτ₈
                  apply Platform.wp_ret (hstable _)
                  rw [hkept.data] at hlatched
                  refine ⟨_, data, ?_, hτ₈, hlatched, rfl, ?_⟩
                  · apply hkept.fresh
                  · intro hduplex
                    use k
                    apply hk hduplex

end Exits

/-- Running a tile, from rest to rest. -/
theorem wp_accelRunTile {σ : State A π} (hfresh : Fresh m) (hσ : At .empty .empty m C.Rest σ) :
  (platform A π).wp (accelRunTile ops n) C.Ran σ
  := by
  rw [accelRunTile_eq]
  apply Platform.wp_map
  apply Platform.wp_mono
    (C.wp_runTile C.rest C.rest C.rest C.accept C.finish hfresh hσ)
  intro exit τ hτ
  cases exit with
  | refused e => apply hτ
  | notSubmitted e =>
      obtain ⟨m', hfresh', hat, hdata⟩ := hτ
      exact ⟨m', hfresh', hat.imp C.idle, hdata⟩
  | notTransferred e => apply hτ
  | notFinished e => apply hτ
  | done => apply hτ

/-! ### A write -/

/-- What a write leaves: a refused one may have changed the buffer, and any other has run
a tile. -/
def Wrote : WriteReturn → State A π → Prop
  | .refused _ => fun σ => ∃ buf, At .empty .empty { m with txBuf := buf } C.Rest σ
  | .ran (.ok count) => fun σ => count = n ∧ C.Ran (.ok ()) σ
  | .ran (.error e) => C.Ran (.error e)

theorem stable_wrote (v : WriteReturn) :
  (platform A π).Stable (C.Wrote v)
  := by
  intro e τ hτ
  cases v with
  | refused =>
      obtain ⟨buf, hat⟩ := hτ
      use buf
      apply stable_at C.rest quiet_empty e τ hat
  | ran ret =>
      cases ret with
      | ok count => exact ⟨hτ.1, C.stable_ran _ e τ hτ.2⟩
      | error err => apply C.stable_ran (.error err) e τ hτ

/-- A write that has taken the lock, from rest to rest: the tile is the bytes written, if
they could be copied. -/
theorem wp_accelWrite {m : Mem π} {bytes : List (BitVec 8)}
    (C : TileContract A ops (Mem.txBuf { m with txBuf := fill m.txBuf bytes }) bytes.length)
    {σ : State A π} (hfresh : Fresh m) (hσ : At .empty .empty m C.Rest σ) :
  (platform A π).wp (accelWrite ops bytes) C.Wrote σ
  := by
  apply Platform.wp_seq (wp_copyFromUser C.rest quiet_empty hσ bytes)
  rintro ok τ ⟨buf, hbuf, hτ⟩
  cases ok with
  | false =>
      apply Platform.wp_ret (C.stable_wrote _)
      use buf
  | true =>
      rw [hbuf rfl] at hτ
      apply Platform.wp_seq (C.wp_accelRunTile hfresh hτ)
      intro ret υ hυ
      cases ret with
      | error e =>
          apply Platform.wp_ret (C.stable_wrote _)
          apply hυ
      | ok =>
          apply Platform.wp_ret (C.stable_wrote _)
          use rfl

end TileContract

end Board
