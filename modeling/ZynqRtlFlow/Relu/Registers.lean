import ZynqRtlFlow.Relu.Accounting
import ZynqRtlFlow.Relu.Contract

/-!
# The register layer of the Leaky ReLU

What the driver learns from `STATUS` and `COUNT` while no beat moves: `relu_accept` lets
only an empty accelerator with a steady slope through, and `relu_finish` succeeds exactly
when the accelerator reports `DONE` and the count asked for.  With the beats counted in
`Inside`, this makes the accelerator and its register layer keep the contract of the
transport.
-/

namespace ReluAxi

open AxiLite Driver Board
open Driver.Relu (reluAccept reluStart reluFinish reluOps)

/-! ### Reading a register -/

theorem rdataQ_of_arFire {s : State} {i : Inputs} (h : s.read.arFire i.axil = true) :
  (posedge s i true).read.rdataQ = rdMux s i.axil.araddr
  := ReadChannel.rdataQ_posedge h _

/-- What a register read finds, from what an edge that moves no beat leaves. -/
theorem reads_of {I : State → Bus → Prop} {reg : BitVec 8}
    {I' : BitVec 32 → State → Bus → Prop}
    (hI : ∀ s b e i, I s b → i.axil = b.drive e → inFire s i = false → outFire s i = false →
      (b.cycle s.write i.axil).posted = [] →
      I' (rdMux s reg) (posedge s i true) (b.cycle s.write i.axil)) :
  Reads accelerator I reg I'
  := by
  intro s b e beat last h hready hvalid haddr hposted
  obtain ⟨harvalid, haraddr⟩ := b.drive_read e
  have hfire : s.read.arFire (inputs (b.drive e) false beat last false).axil = true := by
    rw [inputs_axil, ReadChannel.arFire, harvalid, hvalid]
    apply hready
  have hread := rdataQ_of_arFire hfire
  rw [inputs_axil, haraddr, haddr] at hread
  change I' (posedge s _ true).read.rdataQ _ _
  rw [hread]
  apply hI s b e _ h rfl
  · apply inFire_still
  · apply outFire_still
  · apply hposted

theorem rdMux_status (s : State) :
  rdMux s Driver.Relu.regStatus = statusWord s
  := rfl

theorem toNat_rdMux_count (s : State) :
  (rdMux s Driver.Relu.regCount).toNat = s.countQ.toNat
  := by
  have hcount : rdMux s Driver.Relu.regCount = s.countQ.setWidth 32 := rfl
  rw [hcount]
  apply BitVec.toNat_setWidth_of_le
  decide

theorem statusBusy_iff (s : State) :
  statusWord s &&& Driver.Relu.statusBusy ≠ 0 ↔ s.busyQ = true
  := by
  rw [statusWord]
  cases s.busyQ <;> cases s.doneQ <;> decide

theorem statusDone_iff (s : State) :
  statusWord s &&& Driver.Relu.statusDone ≠ 0 ↔ s.doneQ = true
  := by
  rw [statusWord]
  cases s.busyQ <;> cases s.doneQ <;> decide

/-! ### `relu_accept` -/

/-- An accelerator at rest that does not report `BUSY` is ready once no write is posted. -/
theorem reads_status_rest (slope : BitVec 8) :
  Reads accelerator (Rest slope) Driver.Relu.regStatus fun v s b =>
    Rest slope s b ∧ (¬ v &&& Driver.Relu.statusBusy ≠ 0 → Ready slope s b)
  := by
  apply reads_of
  intro s b e i h hi hin hout hposted
  have hcoherent := h.coherent.cycle_of_drive hi
  have hslope := (slopeDue_cycle h.coherent hi).trans h.slope
  constructor
  · use hcoherent, hslope
    rw [busyQ_still hin hout, outValidQ_still hin hout, beatsQ_still hin hout]
    apply h.clean
  · intro hfree
    have hbusy : s.busyQ = false := by
      rw [← Bool.not_eq_true, ← statusBusy_iff]
      apply hfree
    obtain ⟨hv, hbeats⟩ := h.clean hbusy
    rw [hposted] at hslope
    constructor
    · use hcoherent, hslope
      rw [hposted]
      apply List.forall_mem_nil
    · apply (busyQ_still hin hout).trans hbusy
    · apply (outValidQ_still hin hout).trans hv
    · apply (beatsQ_still hin hout).trans hbeats

variable {t r : Channel} {m : Mem Unit} {σ : Board.State accelerator Unit}

theorem wp_reluAccept {slope : BitVec 8} (hq : Quiet t r) (h : At t r m (Rest slope) σ) :
  (platform accelerator Unit).wp reluAccept
    (fun ret => At t r m (Checked (Rest slope) (Ready slope) ret)) σ
  := by
  apply wp_refuseBusy (undisturbed_rest slope) (undisturbed_ready slope) hq _ h
  apply reads_status_rest

/-! ### `relu_finish` -/

section Finish

variable {K : State → Bus → Prop} {d : Bool} {c : BitVec 16} (hK : Undisturbed accelerator K)
  (hknown : ∀ s b, K s b → s.doneQ = d ∧ s.countQ = c)

include hK

/-- A register read that leaves `K` as it is finds the word the register map gives. -/
theorem reads_known {reg : BitVec 8} {p : BitVec 32 → Prop} (hp : ∀ s b, K s b → p (rdMux s reg)) :
  Reads accelerator K reg fun v s b => K s b ∧ p v
  := by
  intro s b e beat last h hready hvalid haddr hposted
  have hword : Reads accelerator K reg fun v s b => p v := by
    apply reads_of
    intro s b e i h hi hin hout hposted
    apply hp s b h
  use hK _ _ _ _ _ h
  apply hword s b e beat last h hready hvalid haddr hposted

include hknown

theorem reads_done :
  Reads accelerator K Driver.Relu.regStatus
    (Sampled (fun status => status &&& Driver.Relu.statusDone ≠ 0)
      (fun s b => K s b ∧ d = false) (fun _ s b => K s b ∧ d = true))
  := by
  have hstatus : Reads accelerator K Driver.Relu.regStatus fun v s b =>
      K s b ∧ (v &&& Driver.Relu.statusDone ≠ 0 ↔ d = true) := by
    apply reads_known hK
    intro s b h
    rw [rdMux_status, statusDone_iff, (hknown s b h).1]
  intro s b e beat last h hready hvalid haddr hposted
  obtain ⟨hk, hd⟩ := hstatus s b e beat last h hready hvalid haddr hposted
  apply sampled_of
  · intro hc
    use hk, hd.mp (of_decide_eq_true hc)
  · intro hc
    use hk
    rw [← Bool.not_eq_true, ← hd]
    apply of_decide_eq_false hc

theorem reads_count :
  Reads accelerator K Driver.Relu.regCount fun v s b => K s b ∧ v.toNat = c.toNat
  := by
  apply reads_known hK
  intro s b h
  rw [toNat_rdMux_count, (hknown s b h).2]

/-- `relu_finish` succeeds exactly when the accelerator reports `DONE` and the count it is
asked for. -/
theorem wp_reluFinish (hq : Quiet t r) (h : At t r m K σ) (n : ℕ) :
  (platform accelerator Unit).wp (reluFinish n)
    (fun ret τ => (ret = .ok () ↔ d = true ∧ c.toNat = n) ∧ At t r m K τ) σ
  := by
  have hret : ∀ (ret : Except Errno Unit) τ, (ret = .ok () ↔ d = true ∧ c.toNat = n) →
      At t r m K τ → (platform accelerator Unit).wp (pure ret : Kernel Unit _)
        (fun ret τ => (ret = .ok () ↔ d = true ∧ c.toNat = n) ∧ At t r m K τ) τ := by
    intro ret τ hiff hτ
    apply Platform.wp_mono (wp_pure_at hK hq hτ ret)
    rintro _ υ ⟨rfl, hυ⟩
    use hiff
  have hpoll := wp_readlPollTimeout hK (hK.and _) (fun _ => hK.and _) hq
    (reads_done hK hknown) (fun s b hk => hk.1) h
  apply Platform.wp_seq hpoll
  intro ret τ hτ
  cases ret with
  | error e =>
      obtain ⟨htx, hrx, hmem, hk, hd⟩ := hτ
      apply hret
      · simp [hd]
      · use htx, hrx, hmem
  | ok v =>
      obtain ⟨htx, hrx, hmem, hk, hd⟩ := hτ
      apply Platform.wp_seq (wp_readl hK hq ⟨htx, hrx, hmem, hk⟩
        (fun _ => hK.and _) (reads_count hK hknown))
      rintro w υ ⟨htx', hrx', hmem', hk', hw⟩
      split
      · apply hret
        · simp_all
        · use htx', hrx', hmem'
      · apply hret
        · simp_all
        · use htx', hrx', hmem'

end Finish

/-! ### The contract -/

section Tile

variable {slope : BitVec 8} {n : ℕ}

theorem wp_reluStart (buf : ℕ → BitVec 8) (hn : 0 < n) (hq : Quiet t r) (h : At t r m (Ready slope) σ) :
  (platform accelerator Unit).wp reluStart
    (fun _ => At t r m (Inside slope buf n 0 0)) σ
  := by
  apply wp_writel (undisturbed_ready slope) hq h
  · apply (serves_inside slope buf n).undisturbed
  · intro s b hs
    have hready : Ready slope s (b.post Driver.Relu.regCtrl Driver.Relu.ctrlEn) := by
      use hs.steady.post (by decide) _, hs.busy, hs.free, hs.beats
    apply hready.inside buf hn

/-- All beats of the tile being out, `relu_finish` finds it done and changes nothing. -/
theorem wp_reluFinish_inside {buf : ℕ → BitVec 8} {j k : ℕ} (hn : n ≤ k) (hq : Quiet t r)
    (h : At t r m (Inside slope buf n j k) σ) :
  (platform accelerator Unit).wp (reluFinish n) (fun _ => At t r m (Inside slope buf n j k)) σ
  := by
  have hknown : ∀ s b, Inside slope buf n j k s b → s.doneQ = true ∧ s.countQ = BitVec.ofNat 16 n := by
    intro s b hs
    apply hs.finished (hs.out_eq hn)
  have hfinish := wp_reluFinish ((serves_inside slope buf n).undisturbed j k) hknown hq h n
  apply Platform.wp_mono hfinish
  rintro ret τ ⟨-, hτ⟩
  apply hτ

/-- The Leaky ReLU and its register layer keep the contract for a tile of `n` bytes, the
slope being the one due when the tile is accepted. -/
def tileContract (slope : BitVec 8) (buf : ℕ → BitVec 8) (n : ℕ) (hn : 0 < n) :
    TileContract accelerator reluOps buf n where
  Rest := Rest slope
  Ready := Ready slope
  Inside := Inside slope buf n
  result := activatedAt slope buf
  Latched data data' := data' = data
  rest := undisturbed_rest slope
  ready := undisturbed_ready slope
  serves := serves_inside slope buf n
  idle _ _ := rest_of_ready
  landed _ _ _ _ h := h.rest
  accept _ _ h := wp_reluAccept quiet_empty h
  start _ _ _ _ hq h := wp_reluStart buf hn hq h
  finish j k m σ _ hk h := by
    have hle : n ≤ k := by simpa [accelerator, reluOps] using hk rfl
    rw [show n / reluOps.beatBytes = n from Nat.div_one n]
    apply Platform.wp_mono (wp_reluFinish_inside hle quiet_empty h)
    intro ret τ hτ
    have hrest := hτ.imp fun s b hs => hs.rest
    cases ret with
    | ok => use m.data, rfl
    | error e => apply hrest

end Tile

end ReluAxi
