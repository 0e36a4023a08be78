import ZynqRtlFlow.SparseCnn.Contract

/-!
# The register layer of the sparse CNN

What the driver learns from `STATUS`, `ACC` and `SKIP`: `sparse_cnn_accept` lets a tile
through only if none is in flight and no START is on its way, and a `DONE` that
`sparse_cnn_finish` sees after all beats of a tile have been accepted is this tile's, so
the two results it copies are this tile's too.
-/

namespace SparseCnnAxi

open AxiLite Driver Board
open Driver.SparseCnn (Result sparseCnnAccept sparseCnnStart sparseCnnFinish latchResult sparseCnnOps)

/-! ### While no beat moves -/

theorem undisturbed_clean :
  Undisturbed accelerator Clean
  := by
  intro s b e beat last h
  apply h.cycle (i := inputs (b.drive e) false beat last) rfl

theorem undisturbed_ready :
  Undisturbed accelerator Ready
  := by
  intro s b e beat last h
  apply h.cycle (i := inputs (b.drive e) false beat last) rfl

theorem undisturbed_finished (tile : List Beat) :
  Undisturbed accelerator (Finished tile)
  := by
  intro s b e beat last h
  apply h.cycle (i := inputs (b.drive e) false beat last) rfl

/-! ### Reading a register -/

theorem rdataQ_of_arFire {s : State} {i : Inputs} (h : s.read.arFire i.axil = true) :
  (posedge s i true).read.rdataQ = rdMux s i i.axil.araddr
  := ReadChannel.rdataQ_posedge h _

/-- What a register read finds, from what an edge that accepts no beat leaves. -/
theorem reads_of {I : State → Bus → Prop} {reg : BitVec 8}
    {I' : BitVec 32 → State → Bus → Prop}
    (hI : ∀ s b e i, I s b → i.axil = b.drive e → beatOf s i = none →
      (b.cycle s.write i.axil).posted = [] →
      I' (rdMux s i reg) (posedge s i true) (b.cycle s.write i.axil)) :
  Reads accelerator I reg I'
  := by
  intro s b e beat last h hready hvalid haddr hposted
  obtain ⟨harvalid, haraddr⟩ := b.drive_read e
  have hfire : s.read.arFire (inputs (b.drive e) false beat last).axil = true := by
    rw [inputs_axil, ReadChannel.arFire, harvalid, hvalid]
    apply hready
  have hread := rdataQ_of_arFire hfire
  rw [inputs_axil, haraddr, haddr] at hread
  change I' (posedge s _ true).read.rdataQ _ _
  rw [hread]
  apply hI s b e _ h rfl
  · rfl
  · apply hposted

theorem rdMux_status (s : State) (i : Inputs) :
  rdMux s i Driver.SparseCnn.regStatus = statusWord s i
  := rfl

theorem statusBusy_iff (s : State) (i : Inputs) :
  statusWord s i &&& Driver.SparseCnn.statusBusy ≠ 0 ↔ statusBusyBit s i = true
  := by
  rw [statusWord]
  cases statusBusyBit s i <;> cases statusDoneBit s i <;> decide

theorem statusDone_iff (s : State) (i : Inputs) :
  statusWord s i &&& Driver.SparseCnn.statusDone ≠ 0 ↔ statusDoneBit s i = true
  := by
  rw [statusWord]
  cases statusBusyBit s i <;> cases statusDoneBit s i <;> decide

/-! ### `sparse_cnn_accept` -/

/-- A `STATUS` without `BUSY`: no tile is in flight and no START on its way. -/
theorem reads_status_clean :
  Reads accelerator Clean Driver.SparseCnn.regStatus fun v s b =>
    Clean s b ∧ (¬ v &&& Driver.SparseCnn.statusBusy ≠ 0 → Ready s b)
  := by
  apply reads_of
  intro s b e i h hi hbeat hposted
  have hclean := h.cycle hi
  use hclean
  intro hfree
  rw [rdMux_status, statusBusy_iff, statusBusyBit, Bool.or_eq_true, not_or, Bool.not_eq_true,
    Bool.not_eq_true, bne_eq_false_iff_eq, startTaken_eq, Bool.or_eq_false_iff] at hfree
  obtain ⟨hstate, hpulse, hcommit⟩ := hfree
  use hclean, hposted
  · rw [posedge_state, stateNext, hstate, hpulse]
    rfl
  · rw [startPulse_posedge, hcommit]

variable {t r : Channel} {m : Mem Result} {σ : Board.State accelerator Result}

theorem wp_sparseCnnAccept (hq : Quiet t r) (h : At t r m Clean σ) :
  (platform accelerator Result).wp sparseCnnAccept
    (fun ret => At t r m (Checked Clean Ready ret)) σ
  := by
  apply wp_refuseBusy undisturbed_clean undisturbed_ready hq _ h
  apply reads_status_clean

/-! ### `sparse_cnn_finish` -/

section Finish

variable {buf : ℕ → BitVec 8} {N : ℕ} (hN : 0 < N)

include hN

theorem undisturbed_inside (j : ℕ) :
  Undisturbed accelerator (Inside (tileOf buf N) j)
  := (serves_inside buf rfl hN).undisturbed j 0

/-- A `STATUS` with `DONE`, all beats of the tile having been accepted: the tile is
finished. -/
theorem reads_status_inside {j : ℕ} (hj : N ≤ j) :
  Reads accelerator (Inside (tileOf buf N) j) Driver.SparseCnn.regStatus
    (Sampled (fun status => status &&& Driver.SparseCnn.statusDone ≠ 0)
      (Inside (tileOf buf N) j) (fun _ => Finished (tileOf buf N)))
  := by
  apply reads_of
  intro s b e i h hi hbeat hposted
  have hne : tileOf buf N ≠ [] := by
    rw [← List.length_pos_iff, length_tileOf]
    apply hN
  apply sampled_of
  · intro hdone
    replace hdone := of_decide_eq_true hdone
    rw [rdMux_status, statusDone_iff, statusDoneBit, Bool.and_eq_true] at hdone
    cases h.phase with
    | posted => omega
    | pulse => omega
    | clear => omega
    | run j hlt =>
        rw [length_tileOf] at hlt
        omega
    | latch _ _ hnot =>
        rw [hnot] at hdone
        cases hdone.1
    | finished hf => apply hf.cycle hi
  · intro _
    constructor
    · apply h.clean.cycle hi
    · apply h.phase.cycle_still h.clean hi hne hbeat

omit hN in
theorem reads_finished {tile : List Beat} {reg : BitVec 8} {word : BitVec 32}
    (hword : ∀ s b i, Finished tile s b → rdMux s i reg = word) :
  Reads accelerator (Finished tile) reg fun v s b => Finished tile s b ∧ v = word
  := by
  apply reads_of
  intro s b e i h hi hbeat hposted
  use h.cycle hi
  apply hword s b i h

/-- The results of a tile, as the registers give them. -/
def resultOf (tile : List Beat) : Result where
  acc := Tile.acc ⟨[], tile⟩
  skip := (Tile.skip ⟨[], tile⟩).setWidth 32

omit hN in
theorem wp_latchResult {tile : List Beat} (hq : Quiet t r) (h : At t r m (Finished tile) σ) :
  (platform accelerator Result).wp latchResult
    (fun _ => At t r { m with data := { m.data with priv := resultOf tile } } (Finished tile)) σ
  := by
  have hI := undisturbed_finished tile
  have hacc : Reads accelerator (Finished tile) Driver.SparseCnn.regAcc fun v s b =>
      Finished tile s b ∧ v = (resultOf tile).acc :=
    reads_finished fun s b i h => h.acc
  have hskip : Reads accelerator (Finished tile) Driver.SparseCnn.regSkip fun v s b =>
      Finished tile s b ∧ v = (resultOf tile).skip :=
    reads_finished fun s b i h => congrArg (BitVec.setWidth 32) h.skip
  apply Platform.wp_seq (wp_readl hI hq h (fun _ => hI.and _) hacc)
  rintro acc τ₁ ⟨htx₁, hrx₁, hmem₁, h₁, rfl⟩
  apply Platform.wp_seq (wp_load hI hq ⟨htx₁, hrx₁, hmem₁, h₁⟩)
  rintro data τ₂ ⟨rfl, hτ₂⟩
  apply Platform.wp_seq (wp_store hI hq hτ₂ _)
  intro _ τ₃ hτ₃
  apply Platform.wp_seq (wp_readl hI hq hτ₃ (fun _ => hI.and _) hskip)
  rintro skip τ₄ ⟨htx₄, hrx₄, hmem₄, h₄, rfl⟩
  apply Platform.wp_seq (wp_load hI hq ⟨htx₄, hrx₄, hmem₄, h₄⟩)
  rintro data τ₅ ⟨rfl, hτ₅⟩
  apply wp_store hI hq hτ₅

/-- All beats of the tile having been accepted, `sparse_cnn_finish` copies the results of
this tile or fails. -/
theorem wp_sparseCnnFinish {j : ℕ} (hj : N ≤ j) (hq : Quiet t r)
    (h : At t r m (Inside (tileOf buf N) j) σ) (beats : ℕ) :
  (platform accelerator Result).wp (sparseCnnFinish beats) (fun ret => match ret with
    | .ok () => At t r { m with data := { m.data with priv := resultOf (tileOf buf N) } } Ready
    | .error _ => At t r m Clean) σ
  := by
  have hpoll := wp_readlPollTimeout (undisturbed_inside hN j) (undisturbed_inside hN j)
    (fun _ => undisturbed_finished _) hq (reads_status_inside hN hj) (fun s b h => h) h
  apply Platform.wp_seq hpoll
  intro ret τ hτ
  cases ret with
  | error e =>
      apply Platform.wp_ret
      · apply stable_at undisturbed_clean hq
      · apply hτ.imp
        intro s b h
        apply h.clean
  | ok v =>
      apply Platform.wp_seq (wp_latchResult hq hτ)
      intro _ υ hυ
      apply Platform.wp_ret
      · apply stable_at undisturbed_ready hq
      · apply hυ.imp
        intro s b h
        apply h.ready

end Finish

/-! ### The contract -/

theorem wp_sparseCnnStart (tile : List Beat) (hq : Quiet t r) (h : At t r m Ready σ)
    (hI : Undisturbed accelerator (Inside tile 0)) :
  (platform accelerator Result).wp sparseCnnStart (fun _ => At t r m (Inside tile 0)) σ
  := by
  apply wp_writel undisturbed_ready hq h hI
  intro s b hs
  constructor
  · use hs.clean.coherent.post _ _
    · intro x hx
      rw [Bus.post, hs.posted] at hx
      apply List.mem_singleton.mp hx
    · apply hs.clean.clear
  · apply Phase.posted
    · rw [Bus.post, hs.posted]
      rfl
    · apply hs.state
    · apply hs.start

theorem beats_le_of_bytes_le {n N j : ℕ} (hn : n = N * 2) (hj : n ≤ j * accelerator.beatBytes) :
  N ≤ j
  := by
  have hbytes : accelerator.beatBytes = 2 := rfl
  rw [hbytes] at hj
  omega

/-- The sparse CNN and its register layer keep the contract for a tile of `N` beats. -/
def tileContract (buf : ℕ → BitVec 8) {n N : ℕ} (hn : n = N * 2) (hN : 0 < N) :
    TileContract accelerator sparseCnnOps buf n where
  Rest := Clean
  Ready := Ready
  Inside j _ := Inside (tileOf buf N) j
  result _ := 0
  Latched data data' := data' = { data with priv := resultOf (tileOf buf N) }
  rest := undisturbed_clean
  ready := undisturbed_ready
  serves := serves_inside buf hn hN
  idle _ _ h := h.clean
  landed _ _ _ _ h := h.clean
  accept _ _ h := wp_sparseCnnAccept quiet_empty h
  start _ _ _ _ hq h := wp_sparseCnnStart _ hq h (undisturbed_inside hN 0)
  finish j k m σ hj _ h := by
    have hle := beats_le_of_bytes_le hn hj
    apply Platform.wp_mono (wp_sparseCnnFinish hN hle quiet_empty h (n / sparseCnnOps.beatBytes))
    intro ret τ hτ
    cases ret with
    | ok => exact ⟨_, rfl, hτ.imp fun _ _ h => h.clean⟩
    | error e => apply hτ

end SparseCnnAxi
