import ZynqRtlFlow.Board.Calm
import ZynqRtlFlow.SparseCnn.Registers

/-!
# The sparse CNN between tiles

It becomes busy with the write of a START, which is posted only once the transfers of a
tile are submitted, and is ready again when the tile has been latched.  While it is ready
and no write is posted, nothing of it changes but the AXI4-Lite port and the unread
`valid_out` of the processing element.
-/

namespace SparseCnnAxi

open AxiLite Driver Board
open Driver.SparseCnn (Result sparseCnnAccept sparseCnnOps)

/-- A ready accelerator does not read as busy. -/
theorem reads_status_ready :
  Reads accelerator Ready Driver.SparseCnn.regStatus fun v s b =>
    Ready s b ∧ ¬ v &&& Driver.SparseCnn.statusBusy ≠ 0
  := by
  apply reads_of
  intro s b e i h hi hbeat hposted
  use h.cycle hi
  rw [rdMux_status, statusBusy_iff, statusBusyBit, h.state, startTaken_eq, h.start,
    h.clean.startCommit_of_nil hi h.posted]
  apply Bool.false_ne_true

theorem wp_sparseCnnAccept_ready {t r : Channel} {m : Mem Result}
    {σ : Board.State accelerator Result} (hq : Quiet t r) (h : At t r m Ready σ) :
  (platform accelerator Result).wp sparseCnnAccept
    (fun ret => At t r m (Checked (fun _ _ => False) Ready ret)) σ
  := by
  apply wp_refuseBusy_of_free undisturbed_ready undisturbed_ready hq _ h
  apply reads_status_ready

/-- The sparse CNN is ready again after every tile that finished. -/
def calmContract (buf : ℕ → BitVec 8) {n N : ℕ} (hn : n = N * 2) (hN : 0 < N) :
    CalmContract (tileContract buf hn hN) where
  Calm := Ready
  calm := undisturbed_ready
  rest _ _ h := h.clean
  ready _ _ h := h
  accept _ _ h := wp_sparseCnnAccept_ready quiet_empty h
  finish j k m σ hj _ h := by
    have hle := beats_le_of_bytes_le hn hj
    apply Platform.wp_mono (wp_sparseCnnFinish hN hle quiet_empty h (n / sparseCnnOps.beatBytes))
    intro ret τ hτ
    cases ret with
    | ok => exact ⟨_, rfl, hτ⟩
    | error e => apply hτ

/-! ### While it is ready -/

/-- Nothing has changed but the AXI4-Lite port and `valid_out`. -/
def LeftAlone (σ τ : Board.State accelerator Result) : Prop :=
  τ.hw = { σ.hw with
    write := τ.hw.write
    read := τ.hw.read
    pe := { σ.hw.pe with validOut := τ.hw.pe.validOut } }

/-- With both pulses down and no write landing, the control register keeps its value. -/
theorem ctrlNext_of_down {s : State} {i : Inputs} (hstart : startPulse s = false)
    (hclear : clearPulse s = false) (hwr : ctrlWr s i = false) :
  ctrlNext s i = s.ctrlReg
  := by
  have hpulses : ∀ k, s.ctrlReg.getLsbD k = true →
      ((1#32 <<< ctrlStart) ||| (1#32 <<< ctrlClear)).getLsbD k = false := by
    intro k hbit
    obtain _ | _ | k := k
    · cases hbit.symm.trans hstart
    · cases hbit.symm.trans hclear
    · simp only [BitVec.getLsbD_or, BitVec.getLsbD_shiftLeft, BitVec.getLsbD_one]
      simp [ctrlClear]
  rw [ctrlNext, hwr]
  apply BitVec.eq_of_getLsbD_eq
  intro k hk
  simp only [Bool.false_eq_true, if_false, BitVec.getLsbD_and, BitVec.getLsbD_not, hk,
    decide_true, Bool.true_and]
  cases hbit : s.ctrlReg.getLsbD k
  · rfl
  · rw [hpulses k hbit]
    rfl

theorem Ready.still {s : State} {b : Bus} (h : Ready s b) {e : AxiLite.Inputs} {i : Inputs}
    (hi : i.axil = b.drive e) (hbeat : beat s i = false) :
  posedge s i true = { s with
    write := (posedge s i true).write
    read := (posedge s i true).read
    pe := { s.pe with validOut := (posedge s i true).pe.validOut } }
  := by
  have hwr : ctrlWr s i = false := by
    have hc := h.clean.startCommit_of_nil hi h.posted
    rw [h.clean.startCommit_eq hi] at hc
    rw [ctrlWr, hc, Bool.false_and]
  have hne : s.state ≠ .latch := by simp [h.state]
  rw [State.mk.injEq]
  refine ⟨rfl, rfl, ctrlNext_of_down h.start h.clean.clear hwr, ?_, ?_, ?_, ?_, ?_⟩
  · rw [posedge_state, stateNext, h.state, h.start]
    rfl
  · rw [posedge_doneQ, doneNext, h.state, h.start]
    rfl
  · rw [posedge_accQ, accNext_of_ne_latch hne, h.clean.clear]
    rfl
  · rw [posedge_skipQ, skipNext_of_ne_latch hne, h.clean.clear]
    rfl
  · simp [SparseMacPe.posedge, peInputs, peEn, peClear, hbeat, h.state, h.clean.clear]

theorem undisturbed_kept (s₀ : State) :
  Undisturbed accelerator fun s b => Ready s b ∧ s = { s₀ with
    write := s.write
    read := s.read
    pe := { s₀.pe with validOut := s.pe.validOut } }
  := by
  rintro s b e beat last ⟨h, hs⟩
  constructor
  · apply undisturbed_ready _ _ _ _ _ h
  · change posedge s (inputs (b.drive e) false beat last) true = _
    rw [h.still (i := inputs (b.drive e) false beat last) rfl rfl, hs]
    rfl

theorem kept_of_untouched {σ τ : Board.State accelerator Result} (h : Untouched σ τ)
    (hσ : Ready σ.hw σ.bus) :
  LeftAlone σ τ
  := (h.idles.keeps (undisturbed_kept σ.hw) ⟨hσ, rfl⟩).2

end SparseCnnAxi
