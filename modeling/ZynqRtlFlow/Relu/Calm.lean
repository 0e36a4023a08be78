import ZynqRtlFlow.Board.Calm
import ZynqRtlFlow.Relu.Registers

/-!
# The Leaky ReLU between tiles

It becomes busy with the first beat of a tile and is not busy once the last is out, so it
is calm, at rest and not busy, until a tile is cut short.  While no beat moves its tile
accounting and its output register keep their values, and its control registers change
only by writes posted before.
-/

namespace ReluAxi

open AxiLite Driver Board
open Driver.Relu (reluAccept reluFinish reluOps)

/-- At rest and not busy. -/
structure Calm (slope : BitVec 8) (s : State) (b : Bus) : Prop where
  rest : Rest slope s b
  busy : s.busyQ = false

theorem undisturbed_calm (slope : BitVec 8) :
  Undisturbed accelerator (Calm slope)
  := by
  intro s b e beat last h
  constructor
  · apply undisturbed_rest slope _ _ _ _ _ h.rest
  · apply (busyQ_still (inFire_still ..) (outFire_still ..)).trans h.busy

theorem calm_of_ready {slope : BitVec 8} {s : State} {b : Bus} (h : Ready slope s b) :
  Calm slope s b
  := ⟨rest_of_ready h, h.busy⟩

/-- A calm accelerator does not read as busy. -/
theorem reads_status_calm (slope : BitVec 8) :
  Reads accelerator (Calm slope) Driver.Relu.regStatus fun v s b =>
    Ready slope s b ∧ ¬ v &&& Driver.Relu.statusBusy ≠ 0
  := by
  have hfree : Reads accelerator (Calm slope) Driver.Relu.regStatus fun v _ _ =>
      ¬ v &&& Driver.Relu.statusBusy ≠ 0 := by
    apply reads_of
    intro s b e i h hi hin hout hposted
    rw [rdMux_status, statusBusy_iff, h.busy]
    apply Bool.false_ne_true
  intro s b e beat last h hready hvalid haddr hposted
  obtain ⟨-, haccept⟩ := reads_status_rest slope s b e beat last h.rest hready hvalid haddr hposted
  have hv := hfree s b e beat last h hready hvalid haddr hposted
  use haccept hv

section Tile

variable {t r : Channel} {m : Mem Unit} {σ : Board.State accelerator Unit} {slope : BitVec 8}
  {n : ℕ}

theorem wp_reluAccept_calm (hq : Quiet t r) (h : At t r m (Calm slope) σ) :
  (platform accelerator Unit).wp reluAccept
    (fun ret => At t r m (Checked (fun _ _ => False) (Ready slope) ret)) σ
  := by
  apply wp_refuseBusy_of_free (undisturbed_calm slope) (undisturbed_ready slope) hq _ h
  apply reads_status_calm

/-- All beats of the tile being out, the accelerator is calm whether or not `relu_finish`
agrees. -/
theorem wp_reluFinish_calm {buf : ℕ → BitVec 8} {j k : ℕ} (hn : n ≤ k) (hq : Quiet t r)
    (h : At t r m (Inside slope buf n j k) σ) :
  (platform accelerator Unit).wp (reluFinish n) (fun _ => At t r m (Calm slope)) σ
  := by
  apply Platform.wp_mono (wp_reluFinish_inside hn hq h)
  intro ret τ hτ
  apply hτ.imp
  intro s b hs
  use hs.rest
  rw [hs.busy, hs.out_eq hn]
  simp

/-- The Leaky ReLU is calm again after every tile that finished. -/
def calmContract (slope : BitVec 8) (buf : ℕ → BitVec 8) (n : ℕ) (hn : 0 < n) :
    CalmContract (tileContract slope buf n hn) where
  Calm := Calm slope
  calm := undisturbed_calm slope
  rest _ _ h := h.rest
  ready _ _ h := calm_of_ready h
  accept _ _ h := wp_reluAccept_calm quiet_empty h
  finish j k m σ _ hk h := by
    have hle : n ≤ k := by simpa [accelerator, reluOps] using hk rfl
    rw [show n / reluOps.beatBytes = n from Nat.div_one n]
    apply Platform.wp_mono (wp_reluFinish_calm hle quiet_empty h)
    intro ret τ hτ
    cases ret with
    | ok => use m.data, rfl
    | error e => apply hτ.imp fun s b h => h.rest

end Tile

/-! ### While no beat moves -/

/-- The tile accounting and the output register are as they were, and so are the control
registers if no write was on its way. -/
structure LeftAlone (σ τ : Board.State accelerator Unit) : Prop where
  tile : τ.hw = { σ.hw with
    write := τ.hw.write
    read := τ.hw.read
    ctrlReg := τ.hw.ctrlReg
    slopeReg := τ.hw.slopeReg }
  control : σ.bus.posted = [] → τ.hw.ctrlReg = σ.hw.ctrlReg ∧ τ.hw.slopeReg = σ.hw.slopeReg

theorem tile_still {s : State} {i : Inputs} (hin : inFire s i = false)
    (hout : outFire s i = false) :
  posedge s i true = { s with
    write := (posedge s i true).write
    read := (posedge s i true).read
    ctrlReg := (posedge s i true).ctrlReg
    slopeReg := (posedge s i true).slopeReg }
  := by
  rw [State.mk.injEq]
  refine ⟨rfl, rfl, rfl, rfl, outValidQ_still hin hout, ?_, ?_, busyQ_still hin hout,
    doneQ_still hin hout, beatsQ_still hin hout, countQ_still hout⟩
  · rw [posedge_outLastQ, outLastNext, hin, hout]
    rfl
  · rw [posedge_outDataQ, outDataNext, hin]
    rfl

theorem undisturbed_tile (s₀ : State) :
  Undisturbed accelerator fun s _ => s = { s₀ with
    write := s.write
    read := s.read
    ctrlReg := s.ctrlReg
    slopeReg := s.slopeReg }
  := by
  apply undisturbed_of
  intro s b e i h hi hin hout
  rw [tile_still hin hout, h]

/-- With no write on its way, none lands. -/
theorem control_still {s : State} {b : Bus} (h : b.Coherent s.write) (hb : b.posted = [])
    {e : AxiLite.Inputs} {i : Inputs} (hi : i.axil = b.drive e) :
  (b.cycle s.write i.axil).posted = [] ∧ (posedge s i true).ctrlReg = s.ctrlReg
    ∧ (posedge s i true).slopeReg = s.slopeReg
  := by
  have hc : s.write.wrCommit i.axil = false := by
    rw [hi, ← Bool.not_eq_true]
    intro hc
    have hposted := (h.cycle_of_commit hc).2.2
    rw [hb] at hposted
    cases hposted
  rw [posedge_ctrlReg, ctrlNext, ctrlWr, posedge_slopeReg, slopeNext, slopeWr, hc]
  rw [hi] at hc ⊢
  use (h.cycle_of_wait hc).2.trans hb
  constructor
  · rfl
  · rfl

theorem undisturbed_control (s₀ : State) :
  Undisturbed accelerator fun s b => b.Coherent s.write ∧ b.posted = []
    ∧ s.ctrlReg = s₀.ctrlReg ∧ s.slopeReg = s₀.slopeReg
  := by
  apply undisturbed_of
  rintro s b e i ⟨h, hb, hctrl, hslope⟩ hi hin hout
  obtain ⟨hposted, hctrl', hslope'⟩ := control_still h hb hi
  use h.cycle_of_drive hi, hposted, hctrl'.trans hctrl
  apply hslope'.trans hslope

theorem kept_of_untouched {σ τ : Board.State accelerator Unit} (h : Untouched σ τ)
    (hσ : σ.bus.Coherent σ.hw.write) :
  LeftAlone σ τ
  := by
  constructor
  · apply h.idles.keeps (undisturbed_tile σ.hw)
    rfl
  · intro hposted
    have hcontrol := h.idles.keeps (undisturbed_control σ.hw) ⟨hσ, hposted, rfl, rfl⟩
    apply hcontrol.2.2

end ReluAxi
