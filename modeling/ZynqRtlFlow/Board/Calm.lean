import ZynqRtlFlow.Board.Contract

/-!
# Tiles that are not started

Up to the start of a tile, `accel_run_tile` reads registers only: a call that leaves
before it issues the transfers finds the accelerator as it leaves it, but for the clock
cycles that pass and the writes posted before it (`wp_runTile_unissued`).

An accelerator that is calm between tiles refuses none of them, and is calm again after
every tile that either was not started or finished (`CalmContract.wp_runTile`).
-/

open AxiLite Driver

namespace Board

variable {A : Accelerator} {π : Type}

/-! ### Cycles in which nothing is asked of the accelerator -/

/-- The accelerator and the bus after any number of clock cycles in which no register
write is posted and no beat moves. -/
inductive Idles (A : Accelerator) (hw₀ : A.State) (bus₀ : Bus) : A.State → Bus → Prop
  | refl : Idles A hw₀ bus₀ hw₀ bus₀
  | cycle {hw : A.State} {bus : Bus} (h : Idles A hw₀ bus₀ hw bus) (e : AxiLite.Inputs)
      (beat : List (BitVec 8)) (last : Bool) :
      Idles A hw₀ bus₀ (A.cycle (bus.drive e) false beat last false hw).next
        (bus.cycle (A.write hw) (bus.drive e))

theorem undisturbed_idles (hw₀ : A.State) (bus₀ : Bus) :
  Undisturbed A (Idles A hw₀ bus₀)
  := by
  intro hw bus e beat last h
  apply h.cycle

/-- What no cycle disturbs holds on. -/
theorem Idles.keeps {I : A.State → Bus → Prop} (hI : Undisturbed A I) {hw₀ hw : A.State}
    {bus₀ bus : Bus} (h : Idles A hw₀ bus₀ hw bus) (h₀ : I hw₀ bus₀) :
  I hw bus
  := by
  induction h with
  | refl => apply h₀
  | cycle h e beat last ih => apply hI _ _ _ _ _ ih

/-- No register write has been posted, and no beat has moved. -/
structure Untouched (σ τ : State A π) : Prop where
  idles : Idles A σ.hw σ.bus τ.hw τ.bus
  tx : τ.tx = .empty
  rx : τ.rx = .empty

/-! ### Programs that only observe -/

section Observes

variable {t r : Channel} {m : Mem π} {I : A.State → Bus → Prop} {σ : State A π}
  (hI : Undisturbed A I) (hq : Quiet t r)

include hI

theorem reads_undisturbed (reg : BitVec 8) :
  Reads A I reg fun _ => I
  := by
  intro hw bus e beat last h _ _ _ _
  apply hI _ _ _ _ _ h

include hq

theorem wp_observe {o : KernelOp π} (ho : o.Observes) (h : At t r m I σ) :
  (platform A π).wp (Prog.perform o) (fun _ => At t r m I) σ
  := by
  cases o with
  | readl reg => apply wp_readl hI hq h (fun _ => hI) (reads_undisturbed hI reg)
  | copyToUser dst bytes =>
      apply Platform.wp_mono (wp_copyToUser hI hq h dst bytes)
      rintro ok τ ⟨-, hτ⟩
      apply hτ
  | copyRxToUser dst bytes =>
      apply Platform.wp_mono (wp_copyRxToUser hI hq h dst bytes)
      rintro x τ ⟨-, hτ⟩
      apply hτ
  | pollsLeft => apply wp_pollsLeft hI hq h
  | load =>
      apply Platform.wp_mono (wp_load hI hq h)
      rintro data τ ⟨-, hτ⟩
      apply hτ
  | _ => cases ho

/-- A program that only observes leaves everything as it was. -/
theorem wp_observes {α : Type} {p : Kernel π α} (hp : p.Performs KernelOp.Observes)
    (h : At t r m I σ) :
  (platform A π).wp p (fun _ => At t r m I) σ
  := by
  induction p generalizing σ with
  | ret a => apply Platform.wp_skip (stable_at hI hq) h
  | op o k ih =>
      apply Platform.wp_seq (p := Prog.perform o) (f := k) (wp_observe hI hq hp.1 h)
      intro x τ hτ
      apply ih x (hp.2 x) hτ

end Observes

/-! ### Before the transfers are issued -/

section Unissued

variable {ops : AccelOps π} (haccept : ops.accept.Performs KernelOp.Observes)
  {m : Mem π} {I : A.State → Bus → Prop} {σ : State A π} (hI : Undisturbed A I)

include haccept hI

/-- A tile whose transfers are not issued disturbs nothing. -/
theorem wp_runTile_unissued (h : At .empty .empty m I σ) (n : ℕ) :
  (platform A π).wp (runTile ops n)
    (fun exit τ => exit.BeforeIssue → ∃ m', At .empty .empty m' I τ) σ
  := by
  have hstable : ∀ exit : TileExit, (platform A π).Stable fun τ =>
      exit.BeforeIssue → ∃ m', At .empty .empty m' I τ := by
    intro exit e τ hτ hexit
    obtain ⟨m', hτ⟩ := hτ hexit
    use m'
    apply stable_at hI quiet_empty e τ hτ
  have hlater : ∀ (exit : TileExit) τ, ¬ exit.BeforeIssue →
      (platform A π).wp (pure exit : Kernel π TileExit)
        (fun exit τ => exit.BeforeIssue → ∃ m', At .empty .empty m' I τ) τ := by
    intro exit τ hexit
    apply Platform.wp_ret (hstable exit)
    intro hbefore
    cases hexit hbefore
  apply Platform.wp_seq (wp_declareCompletion hI quiet_empty h)
  rintro sent τ₁ ⟨rfl, hτ₁⟩
  apply Platform.wp_seq (wp_declareCompletion hI quiet_empty hτ₁)
  rintro returned τ₂ ⟨rfl, hτ₂⟩
  apply Platform.wp_seq (wp_setReceived hI quiet_empty hτ₂ 0)
  intro _ τ₃ hτ₃
  apply Platform.wp_seq (wp_observes hI quiet_empty haccept hτ₃)
  intro ret τ₄ hτ₄
  cases ret with
  | error e =>
      apply Platform.wp_ret (hstable _)
      intro _
      exact ⟨_, hτ₄⟩
  | ok =>
      apply Platform.wp_seq (wp_submitTile ops hI hτ₄ n _ _)
      intro ret τ₅ hτ₅
      cases ret with
      | error e =>
          apply Platform.wp_ret (hstable _)
          intro _
          exact ⟨_, hτ₅⟩
      | ok =>
          apply Platform.wp_seq (Platform.wp_trivial _ τ₅)
          intro ret τ₆ _
          cases ret with
          | error e => apply hlater _ _ id
          | ok =>
              apply Platform.wp_seq (Platform.wp_trivial _ τ₆)
              intro ret τ₇ _
              cases ret with
              | error e => apply hlater _ _ id
              | ok =>
                  apply Platform.wp_seq (Platform.wp_trivial _ τ₇)
                  intro _ τ₈ _
                  apply hlater _ _ id

/-- Nor does a write that returns before. -/
theorem wp_writeTile_unissued (h : At .empty .empty m I σ) (bytes : List (BitVec 8)) :
  (platform A π).wp (writeTile ops bytes)
    (fun v τ => v.BeforeIssue → ∃ m', At .empty .empty m' I τ) σ
  := by
  have hstable : ∀ v : WriteExit, (platform A π).Stable fun τ =>
      v.BeforeIssue → ∃ m', At .empty .empty m' I τ := by
    intro v e τ hτ hv
    obtain ⟨m', hτ⟩ := hτ hv
    use m'
    apply stable_at hI quiet_empty e τ hτ
  apply Platform.wp_seq (wp_copyFromUser hI quiet_empty h bytes)
  rintro ok τ ⟨buf, -, hτ⟩
  cases ok with
  | false =>
      apply Platform.wp_ret (hstable _)
      intro _
      exact ⟨_, hτ⟩
  | true =>
      apply Platform.wp_seq (wp_runTile_unissued haccept hI hτ bytes.length)
      intro exit υ hυ
      apply Platform.wp_ret (hstable _)
      apply hυ

end Unissued

/-- With both channels empty, a write that returns before the transfers are issued posts
no register write and moves no beat. -/
theorem untouched_of_runs {ops : AccelOps π} (haccept : ops.accept.Performs KernelOp.Observes)
    {σ τ : State A π} (htx : σ.tx = .empty) (hrx : σ.rx = .empty) {bytes : List (BitVec 8)}
    {v : WriteExit} (hrun : (platform A π).Runs (writeTile ops bytes) σ v τ)
    (hv : v.BeforeIssue) :
  Untouched σ τ
  := by
  have hσ : At .empty .empty σ.mem (Idles A σ.hw σ.bus) σ := by
    use htx, hrx, rfl
    apply Idles.refl
  have hwrite := wp_writeTile_unissued haccept (undisturbed_idles σ.hw σ.bus) hσ bytes
  obtain ⟨m', hτ⟩ := Platform.post_of_runs hwrite hrun hv
  use hτ.holds, hτ.tx, hτ.rx

/-! ### Accelerators that are calm between tiles -/

/-- An accelerator that is ready for a tile is calm, a calm one is accepted, and it is
calm again when its tile has finished. -/
structure CalmContract {A : Accelerator} {π : Type} {ops : AccelOps π} {buf : ℕ → BitVec 8}
    {n : ℕ} (C : TileContract A ops buf n) where
  Calm : A.State → Bus → Prop
  calm : Undisturbed A Calm
  rest : ∀ hw bus, Calm hw bus → C.Rest hw bus
  ready : ∀ hw bus, C.Ready hw bus → Calm hw bus
  accept : ∀ (m : Mem π) σ, At .empty .empty m Calm σ →
    (platform A π).wp ops.accept
      (fun ret => At .empty .empty m (Checked (fun _ _ => False) C.Ready ret)) σ
  finish : ∀ j k (m : Mem π) σ, n ≤ j * A.beatBytes →
    (ops.duplex = true → n ≤ k * A.beatBytes) → At .empty .empty m (C.Inside j k) σ →
    (platform A π).wp (ops.finish (n / ops.beatBytes)) (fun ret τ => match ret with
      | .ok () => ∃ data, C.Latched m.data data ∧ At .empty .empty { m with data := data } Calm τ
      | .error _ => At .empty .empty m C.Rest τ) σ

/-- At rest, and calm if `d` says so. -/
def CalmIf (d : Prop) (Rest Calm : A.State → Bus → Prop) (hw : A.State) (bus : Bus) : Prop :=
  Rest hw bus ∧ (d → Calm hw bus)

theorem undisturbed_calmIf {d : Prop} {Rest Calm : A.State → Bus → Prop}
    (hrest : Undisturbed A Rest) (hcalm : Undisturbed A Calm) :
  Undisturbed A (CalmIf d Rest Calm)
  := by
  rintro hw bus e beat last ⟨hr, hc⟩
  use hrest _ _ _ _ _ hr
  intro hd
  apply hcalm _ _ _ _ _ (hc hd)

/-- At rest and calm if `d` says so, with some memory in which completions are fresh. -/
def Between (d : Prop) (Rest Calm : A.State → Bus → Prop) (σ : State A π) : Prop :=
  ∃ m, Fresh m ∧ At .empty .empty m (CalmIf d Rest Calm) σ

theorem stable_between {d : Prop} {Rest Calm : A.State → Bus → Prop}
    (hrest : Undisturbed A Rest) (hcalm : Undisturbed A Calm) :
  (platform A π).Stable (Between d Rest Calm)
  := by
  rintro e σ ⟨m, hfresh, hσ⟩
  use m, hfresh
  apply stable_at (undisturbed_calmIf hrest hcalm) quiet_empty e σ hσ

theorem between_of {d : Prop} {Rest Calm I : A.State → Bus → Prop} {m : Mem π} {σ : State A π}
    (hfresh : Fresh m) (hσ : At .empty .empty m I σ) (hrest : ∀ hw bus, I hw bus → Rest hw bus)
    (hcalm : d → ∀ hw bus, I hw bus → Calm hw bus) :
  Between d Rest Calm σ
  := by
  use m, hfresh
  apply hσ.imp
  intro hw bus h
  use hrest hw bus h
  intro hd
  apply hcalm hd hw bus h

namespace CalmContract

variable {ops : AccelOps π} {m : Mem π} {n : ℕ} {C : TileContract A ops m.txBuf n}
  (K : CalmContract C)

/-- A tile run from a calm accelerator is not refused, and leaves a calm accelerator
unless it was started and did not finish. -/
theorem wp_runTile {d : Prop} {σ : State A π} (hfresh : Fresh m)
    (hσ : At .empty .empty m (CalmIf d C.Rest K.Calm) σ) :
  (platform A π).wp (runTile ops n) (fun exit τ => (d → ¬ exit.Refused)
    ∧ Between (d ∧ ¬ exit.Stuck) C.Rest K.Calm τ) σ
  := by
  by_cases hd : d
  · have hcalm : At .empty .empty m K.Calm σ := hσ.imp fun _ _ h => h.2 hd
    apply Platform.wp_mono (C.wp_runTile K.calm (fun _ _ _ _ _ h => h) K.calm K.accept K.finish
      hfresh hcalm)
    intro exit τ hτ
    cases exit with
    | refused e =>
        obtain ⟨m', -, hat, -⟩ := hτ
        cases hat.holds
    | notSubmitted e =>
        obtain ⟨m', hfresh', hat, -⟩ := hτ
        use fun _ => id
        apply between_of hfresh' hat C.idle
        intro _
        apply K.ready
    | notTransferred e =>
        obtain ⟨m', hfresh', hat, -⟩ := hτ
        use fun _ => id
        apply between_of hfresh' hat fun _ _ => id
        rintro ⟨-, hstuck⟩
        cases hstuck trivial
    | notFinished e =>
        obtain ⟨m', hfresh', hat, -⟩ := hτ
        use fun _ => id
        apply between_of hfresh' hat fun _ _ => id
        rintro ⟨-, hstuck⟩
        cases hstuck trivial
    | done =>
        obtain ⟨m', data, hfresh', hat, -⟩ := hτ
        use fun _ => id
        apply between_of hfresh' hat K.rest
        intro _ _ _
        apply id
  · have hrest : At .empty .empty m C.Rest σ := hσ.imp fun _ _ h => h.1
    apply Platform.wp_mono (C.wp_runTile C.rest C.rest C.rest C.accept C.finish hfresh hrest)
    intro exit τ hτ
    use fun h => absurd h hd
    have hnot : d ∧ ¬ exit.Stuck → ∀ hw bus, C.Rest hw bus → K.Calm hw bus :=
      fun h => absurd h.1 hd
    cases exit with
    | notSubmitted e =>
        obtain ⟨m', hfresh', hat, -⟩ := hτ
        apply between_of hfresh' (hat.imp C.idle) (fun _ _ => id) hnot
    | done =>
        obtain ⟨m', data, hfresh', hat, -⟩ := hτ
        apply between_of hfresh' hat (fun _ _ => id) hnot
    | _ =>
        obtain ⟨m', hfresh', hat, -⟩ := hτ
        apply between_of hfresh' hat (fun _ _ => id) hnot

end CalmContract

/-- So does a write of the tile. -/
theorem CalmContract.wp_writeTile {ops : AccelOps π} {m : Mem π} {bytes : List (BitVec 8)}
    {C : TileContract A ops (Mem.txBuf { m with txBuf := fill m.txBuf bytes }) bytes.length}
    (K : CalmContract C) {d : Prop} {σ : State A π} (hfresh : Fresh m)
    (hσ : At .empty .empty m (CalmIf d C.Rest K.Calm) σ) :
  (platform A π).wp (writeTile ops bytes) (fun v τ =>
    (d → ∀ exit ∈ FileCall.tileExit (.write bytes) v, ¬ exit.Refused)
    ∧ Between (d ∧ ∀ exit ∈ FileCall.tileExit (.write bytes) v, ¬ exit.Stuck) C.Rest K.Calm τ) σ
  := by
  have hI := undisturbed_calmIf (d := d) C.rest K.calm
  have hstable : ∀ v : WriteExit, (platform A π).Stable fun τ : State A π =>
      (d → ∀ exit ∈ FileCall.tileExit (.write bytes) v, ¬ exit.Refused)
      ∧ Between (d ∧ ∀ exit ∈ FileCall.tileExit (.write bytes) v, ¬ exit.Stuck)
        C.Rest K.Calm τ := by
    rintro v e τ ⟨hv, hτ⟩
    use hv
    apply stable_between C.rest K.calm e τ hτ
  apply Platform.wp_seq (wp_copyFromUser hI quiet_empty hσ bytes)
  rintro ok τ ⟨buf, hbuf, hτ⟩
  cases ok with
  | false =>
      apply Platform.wp_ret (hstable _)
      constructor
      · intro _ exit hexit
        cases hexit
      · apply between_of (m := { m with txBuf := buf }) hfresh hτ fun _ _ h => h.1
        intro hd hw bus h
        apply h.2 hd.1
  | true =>
      rw [hbuf rfl] at hτ
      apply Platform.wp_seq (K.wp_runTile hfresh hτ)
      rintro exit υ ⟨hexit, hυ⟩
      apply Platform.wp_ret (hstable _)
      constructor
      · intro hd _ hsome
        obtain rfl := Option.some.inj hsome
        apply hexit hd
      · obtain ⟨m', hfresh', hat⟩ := hυ
        apply between_of hfresh' hat fun _ _ h => h.1
        intro hd hw bus h
        apply h.2
        use hd.1
        apply hd.2 exit rfl

end Board
