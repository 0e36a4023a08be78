import ZynqRtlFlow.Board.Transfer

/-!
# Carrying a tile

What `accel_run_tile` does from the submission of a tile's transfers to the end of both:
whatever fails, both channels end up empty, and it succeeds only when all of the tile has
been sent, and received if there is a return path (`wp_transferTile`).
-/

open AxiLite Driver

namespace Board

variable {A : Accelerator} {π : Type}

/-! ### Waiting for a transfer -/

theorem stable_completed (done : ℕ) :
  (platform A π).Stable fun σ => done ∈ σ.mem.completed
  := by
  apply stable_of
  · intro e σ h
    rw [cycle]
    cases (outcome e σ).handed with
    | none => apply h
    | some x => apply h
  · intro c σ h
    rw [complete]
    split
    · apply h
    · split
      · apply h
      · apply List.mem_cons_of_mem _ h

theorem stable_tx_empty :
  (platform A π).Stable fun σ => σ.tx = .empty
  := by
  apply stable_of
  · intro e σ h
    have hacc : (outcome e σ).accepted = false := by
      rw [outcome, h, Channel.pending_empty, Bool.and_false, A.accepted_cycle]
    rw [cycle, hacc]
    apply h
  · intro c σ h
    rw [complete]
    split
    · apply h
    · rename_i hissued
      split
      · apply h
      · cases c with
        | tx =>
            rw [chan, h] at hissued
            cases hissued
        | rx => apply h

theorem stable_rx_empty :
  (platform A π).Stable fun σ => σ.rx = .empty
  := by
  apply stable_of
  · intro e σ h
    have hhand : (outcome e σ).handed = none := by
      rw [outcome, h, Channel.pending_empty, Bool.and_false, A.handed_cycle]
    rw [cycle, hhand]
    apply h
  · intro c σ h
    rw [complete]
    split
    · apply h
    · rename_i hissued
      split
      · apply h
      · cases c with
        | tx => apply h
        | rx =>
            rw [chan, h] at hissued
            cases hissued

section Waiting

variable {F : State A π → Prop} {σ : State A π} (hF : (platform A π).Stable F) (h : F σ)

include hF h

theorem wp_waitForCompletion (done : ℕ) :
  (platform A π).wp (waitForCompletion done)
    (fun b τ => F τ ∧ (b = true → done ∈ τ.mem.completed)) σ
  := by
  apply Platform.wp_perform hF h
  · intro b
    apply hF.and
    intro e τ hτ hb
    apply stable_completed done e τ (hτ hb)
  · rintro σ c b σ' hat hx
    obtain ⟨rfl, rfl⟩ := Prod.mk.inj (Option.some.inj hx)
    use hat
    apply of_decide_eq_true

/-- An operation that replaces a channel. -/
theorem wp_setChan {o : KernelOp π} {F' : State A π → Prop} {c : Chan}
    {f : Channel → Channel} (hF' : (platform A π).Stable F')
    (hexec : ∀ (ch : Choice) (σ : State A π) (x : o.Res) (σ' : State A π),
      exec o ch σ = some (x, σ') → σ' = setChan σ (f (chan σ c)) c)
    (hstep : ∀ σ, F σ → F' (setChan σ (f (chan σ c)) c)) :
  (platform A π).wp (Prog.perform o) (fun _ => F') σ
  := by
  apply Platform.wp_perform hF h
  · intro _
    apply hF'
  · rintro σ ch x σ' hat hx
    rw [hexec ch σ x σ' hx]
    apply hstep σ hat

theorem wp_issuePending {F' : State A π → Prop} (c : Chan) (hF' : (platform A π).Stable F')
    (hstep : ∀ σ, F σ → F' (setChan σ (chan σ c).issuePending c)) :
  (platform A π).wp (issuePending c) (fun _ => F') σ
  := by
  apply wp_setChan hF h hF' _ hstep
  rintro ch σ x σ' hx
  exact (Prod.mk.inj (Option.some.inj hx)).2.symm

theorem wp_terminateSync {F' : State A π → Prop} (c : Chan) (hF' : (platform A π).Stable F')
    (hstep : ∀ σ, F σ → F' (setChan σ .empty c)) :
  (platform A π).wp (terminateSync c) (fun _ => F') σ
  := by
  apply wp_setChan (f := fun _ => .empty) hF h hF' _ hstep
  rintro ch σ x σ' hx
  exact (Prod.mk.inj (Option.some.inj hx)).2.symm

/-- A wait that succeeds has seen its completion; one that fails has terminated the
channel. -/
theorem wp_accelWait {F' : State A π → Prop} (c : Chan) (done : ℕ)
    (hF' : (platform A π).Stable F') (hstep : ∀ σ, F σ → F' (setChan σ .empty c)) :
  (platform A π).wp (accelWait c done)
    (fun ret τ => match ret with
      | .ok () => F τ ∧ done ∈ τ.mem.completed
      | .error _ => F' τ) σ
  := by
  apply Platform.wp_seq (wp_waitForCompletion hF h done)
  rintro b τ ⟨hτ, hb⟩
  split
  · apply Platform.wp_ret (hF.and (stable_completed done))
    use hτ
    apply hb ‹_›
  · apply Platform.wp_seq (wp_terminateSync hF hτ c hF' hstep)
    intro _ υ hυ
    apply Platform.wp_ret hF' hυ

end Waiting

/-! ### The flight of a tile -/

section Flight

variable {m : Mem π} {n sent returned : ℕ} {Inside : ℕ → ℕ → A.State → Bus → Prop}
  {result : ℕ → BitVec 8} {j k : ℕ} {σ : State A π}
  (h : Flight m n sent returned Inside result j k σ)

include h

theorem Flight.issuePending (c : Chan) :
  Flight m n sent returned Inside result j k (setChan σ (chan σ c).issuePending c)
  := by
  cases c with
  | tx => use h.tx.issuePending, h.rx, h.holds, h.kept, h.received
  | rx => use h.tx, h.rx.issuePending, h.holds, h.kept, h.received

theorem Flight.terminate (c : Chan) :
  Flight m n sent returned Inside result j k (setChan σ .empty c)
  := by
  cases c with
  | tx => use h.tx.terminate, h.rx, h.holds, h.kept, h.received
  | rx => use h.tx, h.rx.terminate, h.holds, h.kept, h.received

/-- A tile whose transfers are both gone leaves the board quiet. -/
theorem Flight.landed (htx : σ.tx = .empty) (hrx : σ.rx = .empty) :
  At .empty .empty σ.mem (Inside j k) σ
  := by
  use htx, hrx, rfl
  apply h.holds

end Flight

/-- A tile whose transfers have been submitted, before they are issued. -/
theorem flight_of_submitted {ops : AccelOps π} {m : Mem π} {n sent returned : ℕ}
    {Inside : ℕ → ℕ → A.State → Bus → Prop} (result : ℕ → BitVec 8) {σ : State A π}
    (hfresh : ∀ c ∈ m.completed, c < m.declared) (hsent : sent ∉ m.completed)
    (hreturned : returned ∉ m.completed)
    (h : At (Channel.empty.submit ⟨n, sent⟩) (rxSubmitted ops n returned) m (Inside 0 0) σ) :
  Flight m n sent returned Inside result 0 0 σ
  := by
  obtain ⟨htx, hrx, rfl, hholds⟩ := h
  constructor
  · rw [htx]
    use .of_submit _ _
    intro hdone
    exact absurd hdone hsent
  · rw [hrx, rxSubmitted]
    constructor
    · split
      · apply Carries.of_submit
      · apply Carries.gone
    · intro hdone
      exact absurd hdone hreturned
  · apply hholds
  · use rfl, rfl, rfl
  · intro i hi
    cases hi

/-! ### The transfer of a tile -/

section Transfer

variable (ops : AccelOps π) (m : Mem π) (n sent returned : ℕ)
  (Inside : ℕ → ℕ → A.State → Bus → Prop) (result : ℕ → BitVec 8)

/-- A tile is in transit; without a return path nothing is in the `rx` channel. -/
def InTransit (σ : State A π) : Prop :=
  (∃ j k, Flight m n sent returned Inside result j k σ) ∧ (ops.duplex = false → σ.rx = .empty)

/-- What the transfer of a tile leaves: quiet channels, with all of the tile moved if it
succeeded. -/
def Transferred : Except Errno Unit → State A π → Prop
  | .ok () => fun σ => ∃ m' j k, Kept m m' ∧ At .empty .empty m' (Inside j k) σ
      ∧ n ≤ j * A.beatBytes
      ∧ (ops.duplex = true → n ≤ k * A.beatBytes ∧ ∀ i < k, m'.rxBuf i = result i)
  | .error _ => fun σ => ∃ m' j k, Kept m m' ∧ At .empty .empty m' (Inside j k) σ

variable {ops m n sent returned Inside result}

theorem InTransit.terminate {σ : State A π} (h : InTransit ops m n sent returned Inside result σ)
    (c : Chan) :
  InTransit ops m n sent returned Inside result (setChan σ .empty c)
  := by
  obtain ⟨⟨j, k, h⟩, hrx⟩ := h
  use ⟨j, k, h.terminate c⟩
  intro hduplex
  cases c with
  | tx => apply hrx hduplex
  | rx => rfl

variable (hserves : Serves A m.txBuf n Inside result)

include hserves

theorem stable_transferred (ret : Except Errno Unit) :
  (platform A π).Stable (Transferred ops m n Inside result ret)
  := by
  intro e τ hτ
  cases ret with
  | ok =>
      obtain ⟨m', j, k, hkept, hat, h⟩ := hτ
      use m', j, k, hkept, stable_at (hserves.undisturbed j k) quiet_empty e τ hat
  | error =>
      obtain ⟨m', j, k, hkept, hat⟩ := hτ
      exact ⟨m', j, k, hkept, stable_at (hserves.undisturbed j k) quiet_empty e τ hat⟩

variable (hsent : sent < m.declared) (hreturned : returned < m.declared) (hne : sent ≠ returned)

include hsent hreturned hne

theorem stable_inTransit :
  (platform A π).Stable (InTransit ops m n sent returned Inside result)
  := by
  apply (stable_flight hserves hsent hreturned hne).and
  intro e σ h hduplex
  apply stable_rx_empty e σ (h hduplex)

/-- The return path is issued, if there is one. -/
theorem wp_issueRx (hfresh : ∀ c ∈ m.completed, c < m.declared) (hs : sent ∉ m.completed)
    (hr : returned ∉ m.completed) {σ : State A π}
    (h : At (Channel.empty.submit ⟨n, sent⟩) (rxSubmitted ops n returned) m (Inside 0 0) σ) :
  (platform A π).wp (issueRx ops) (fun _ => InTransit ops m n sent returned Inside result) σ
  := by
  have hstable : (platform A π).Stable (InTransit ops m n sent returned Inside result) :=
    stable_inTransit hserves hsent hreturned hne
  have hquiet : Quiet (Channel.empty.submit ⟨n, sent⟩) (rxSubmitted ops n returned) := by
    use rfl
    rw [rxSubmitted]
    split <;> rfl
  rw [issueRx]
  split
  · rename_i hduplex
    apply wp_issuePending (stable_at (hserves.undisturbed 0 0) hquiet) h .rx hstable
    intro σ hσ
    use ⟨0, 0, (flight_of_submitted result hfresh hs hr hσ).issuePending .rx⟩
    simp [hduplex]
  · rename_i hduplex
    apply Platform.wp_skip hstable
    use ⟨0, 0, flight_of_submitted result hfresh hs hr h⟩
    intro _
    rw [h.rx, rxSubmitted, if_neg hduplex]

theorem wp_issueTx {σ : State A π} (h : InTransit ops m n sent returned Inside result σ) :
  (platform A π).wp (issuePending .tx)
    (fun _ => InTransit ops m n sent returned Inside result) σ
  := by
  have hstable : (platform A π).Stable (InTransit ops m n sent returned Inside result) :=
    stable_inTransit hserves hsent hreturned hne
  apply wp_issuePending hstable h .tx hstable
  rintro σ ⟨⟨j, k, hσ⟩, hrx⟩
  use ⟨j, k, hσ.issuePending .tx⟩
  apply hrx

/-- A tile whose `tx` channel has been terminated is given up. -/
theorem wp_discard_transit {σ : State A π}
    (h : InTransit ops m n sent returned Inside result σ ∧ σ.tx = .empty) (e : Errno) :
  (platform A π).wp (Driver.discard ops e) (Transferred ops m n Inside result) σ
  := by
  have htransit : (platform A π).Stable (InTransit ops m n sent returned Inside result) :=
    stable_inTransit hserves hsent hreturned hne
  have hstable := htransit.and stable_tx_empty
  have hrx : (platform A π).wp (terminateRx ops)
      (fun _ τ => (InTransit ops m n sent returned Inside result τ ∧ τ.tx = .empty)
        ∧ τ.rx = .empty) σ := by
    rw [terminateRx]
    split
    · apply wp_terminateSync hstable h .rx (hstable.and stable_rx_empty)
      rintro τ ⟨hτ, htx⟩
      use ⟨hτ.terminate .rx, htx⟩
      rfl
    · apply Platform.wp_skip (hstable.and stable_rx_empty)
      use h
      apply h.1.2
      simpa using ‹¬ ops.duplex = true›
  apply Platform.wp_seq hrx
  rintro _ τ ⟨⟨⟨⟨j, k, hτ⟩, -⟩, htx⟩, hrx⟩
  apply Platform.wp_ret (stable_transferred hserves _)
  exact ⟨τ.mem, j, k, hτ.kept, hτ.landed htx hrx⟩

/-- Once all of a tile has been sent, the wait for the return path, if there is one. -/
theorem wp_waitRx {σ : State A π}
    (h : InTransit ops m n sent returned Inside result σ ∧ sent ∈ σ.mem.completed) :
  (platform A π).wp (waitRx ops returned) (Transferred ops m n Inside result) σ
  := by
  have htransit : (platform A π).Stable (InTransit ops m n sent returned Inside result) :=
    stable_inTransit hserves hsent hreturned hne
  have hstable := htransit.and (stable_completed sent)
  rw [waitRx]
  split
  · apply Platform.wp_mono (wp_accelWait hstable h .rx returned (hstable.and stable_rx_empty) _)
    · intro ret τ hτ
      cases ret with
      | error e =>
          obtain ⟨⟨⟨⟨j, k, hfl⟩, -⟩, hdone⟩, hrx⟩ := hτ
          exact ⟨τ.mem, j, k, hfl.kept, hfl.landed (hfl.tx.done hdone).2 hrx⟩
      | ok =>
          obtain ⟨⟨⟨⟨j, k, hfl⟩, -⟩, hdone⟩, hback⟩ := hτ
          use τ.mem, j, k, hfl.kept, hfl.landed (hfl.tx.done hdone).2 (hfl.rx.done hback).2,
            (hfl.tx.done hdone).1
          intro _
          use (hfl.rx.done hback).1, hfl.received
    · rintro τ ⟨hτ, hdone⟩
      use ⟨hτ.terminate .rx, hdone⟩
      rfl
  · rename_i hduplex
    obtain ⟨⟨⟨j, k, hfl⟩, hrx⟩, hdone⟩ := h
    apply Platform.wp_ret (stable_transferred hserves _)
    use σ.mem, j, k, hfl.kept, hfl.landed (hfl.tx.done hdone).2 (hrx (by simpa using hduplex)),
      (hfl.tx.done hdone).1
    intro htrue
    exact absurd htrue hduplex

/-- The transfers of a tile, from the submission of both to the end of both. -/
theorem wp_transferTile (hfresh : ∀ c ∈ m.completed, c < m.declared) (hs : sent ∉ m.completed)
    (hr : returned ∉ m.completed) {σ : State A π}
    (hstart : (platform A π).wp ops.start (fun _ => At (Channel.empty.submit ⟨n, sent⟩)
      (rxSubmitted ops n returned) m (Inside 0 0)) σ) :
  (platform A π).wp (transferTile ops sent returned) (Transferred ops m n Inside result) σ
  := by
  have hstable : (platform A π).Stable (InTransit ops m n sent returned Inside result) :=
    stable_inTransit hserves hsent hreturned hne
  apply Platform.wp_seq hstart
  intro _ τ hτ
  apply Platform.wp_seq (wp_issueRx hserves hsent hreturned hne hfresh hs hr hτ)
  intro _ υ hυ
  apply Platform.wp_seq (wp_issueTx hserves hsent hreturned hne hυ)
  intro _ φ hφ
  have hwait := wp_accelWait hstable hφ .tx sent (hstable.and stable_tx_empty) (by
    intro ψ hψ
    use hψ.terminate .tx
    rfl)
  apply Platform.wp_seq hwait
  intro ret ψ hψ
  cases ret with
  | error e => apply wp_discard_transit hserves hsent hreturned hne hψ
  | ok => apply wp_waitRx hserves hsent hreturned hne hψ

end Transfer

end Board
