import ZynqRtlFlow.SparseCnn.Device
import ZynqRtlFlow.SparseCnn.Registers

/-!
# `/dev/sparse_cnn` reports exactly the last successful tile

Between two calls the channels are empty, the only writes posted are STARTs, and the
driver's own data hold the golden pair of the last successful tile.  Every call keeps
this, so the calls that take the lock, whatever their order and whatever fails, return
what the device returns.
-/

namespace SparseCnnAxi

open AxiLite Driver Board
open Driver.SparseCnn

/-- The board between two calls. -/
def Idle (d : ℤ × ℕ) (σ : Board.State accelerator Result) : Prop :=
  ∃ m, Fresh m ∧ At .empty .empty m Clean σ ∧ m.data.priv.acc.toInt = d.1
    ∧ m.data.priv.skip.toNat = d.2

theorem stable_idle (d : ℤ × ℕ) :
  (platform accelerator Result).Stable (Idle d)
  := by
  rintro e σ ⟨m, hfresh, hσ, h⟩
  use m, hfresh, stable_at undisturbed_clean quiet_empty e σ hσ

/-- A call has been answered as the device does. -/
abbrev Answered (d : ℤ × ℕ) (c : FileCall) : c.Val → Board.State accelerator Result → Prop :=
  Api.Answered (P := platform accelerator Result) device Idle d c

/-- A call that returns at once. -/
theorem wp_return {d : ℤ × ℕ} {c : FileCall} {v : c.Val} (hv : Allows d c v)
    {σ : Board.State accelerator Result} (hσ : Idle (keptNext d c v) σ) :
  (platform accelerator Result).wp (pure v : Kernel Result c.Val) (Answered d c) σ
  := Api.wp_return (P := platform accelerator Result) (D := device) stable_idle hv hσ

/-! ### `read` -/

theorem wp_sparseCnnResult {d : ℤ × ℕ} (dst : UserPtr) (count : ℕ)
    {σ : Board.State accelerator Result} (hσ : Idle d σ) :
  (platform accelerator Result).wp (sparseCnnResult dst count)
    (Answered d (.read dst count)) σ
  := by
  have hreturn : ∀ v τ, Gives d dst count v → Idle d τ →
      (platform accelerator Result).wp (pure v : Kernel Result _)
        (Answered d (.read dst count)) τ := by
    intro v τ hv hτ
    apply wp_return (c := .read dst count)
    · right
      apply hv
    · apply hτ
  obtain ⟨m, hfresh, hσ, hacc, hskip⟩ := hσ
  have hidle : ∀ τ, At .empty .empty m Clean τ → Idle d τ := by
    intro τ hτ
    use m
  apply Platform.wp_seq (wp_load undisturbed_clean quiet_empty hσ)
  rintro data τ ⟨rfl, hτ⟩
  split
  · rename_i hcount
    apply hreturn _ _ _ (hidle τ hτ)
    rw [Gives, if_pos hcount]
  · rename_i hcount
    have hcopy := wp_copyToUser undisturbed_clean quiet_empty hτ dst m.data.priv.bytes
    apply Platform.wp_seq hcopy
    rintro ok υ ⟨rfl, hυ⟩
    by_cases hdst : Result.size ≤ dst
    · have hok : decide (m.data.priv.bytes.length ≤ dst) = true := decide_eq_true hdst
      rw [hok]
      apply hreturn _ _ _ (hidle υ hυ)
      rw [Gives, if_neg hcount, if_neg (Nat.not_lt.mpr hdst)]
      use m.data.priv
    · have hok : decide (m.data.priv.bytes.length ≤ dst) = false := decide_eq_false hdst
      rw [hok]
      apply hreturn _ _ _ (hidle υ hυ)
      rw [Gives, if_neg hcount, if_pos (Nat.lt_of_not_le hdst)]

/-! ### `write` -/

/-- The beats of a buffer are the operand pairs of the bytes written to it. -/
theorem pairs_tileOf (buf : ℕ → BitVec 8) (bytes : List (BitVec 8)) {N : ℕ}
    (hN : bytes.length = N * 2) :
  (tileOf (fill buf bytes) N).map (fun b => (b.weight.toInt, b.act.toInt)) = pairs bytes
  := by
  have hhalf : bytes.length / 2 = N := by omega
  rw [tileOf, pairs, words, hhalf, List.map_map, List.map_map]
  apply List.map_congr_left
  intro k hk
  have hlt := List.mem_range.mp hk
  have hweight : fill buf bytes (k * 2) = bytes.getD (k * 2) 0 := by
    have hin : k * 2 < bytes.length := by omega
    simp [fill, hin]
  have hact : fill buf bytes (k * 2 + 1) = bytes.getD (k * 2 + 1) 0 := by
    have hin : k * 2 + 1 < bytes.length := by omega
    simp [fill, hin]
  simp only [Function.comp_apply, hweight, hact, BitVec.extractLsb'_append_eq_right,
    BitVec.extractLsb'_append_eq_left]

/-- The registers hold the golden pair of a tile exactly. -/
theorem resultOf_exact {buf : ℕ → BitVec 8} {bytes : List (BitVec 8)} {N : ℕ}
    (hN : bytes.length = N * 2) (hbytes : Admitted bytes) :
  (resultOf (tileOf (fill buf bytes) N)).acc.toInt = (goldenPair (pairs bytes)).1
    ∧ (resultOf (tileOf (fill buf bytes) N)).skip.toNat = (goldenPair (pairs bytes)).2
  := by
  have hpairs := pairs_tileOf buf bytes hN
  have hbounds := hbytes.bounds (pairs bytes).length
  rw [List.take_length, goldenPair_eq] at hbounds
  obtain ⟨hlow, hhigh, hskip⟩ := hbounds
  have hsum : ((tileOf (fill buf bytes) N).map fun b => b.weight.toInt * b.act.toInt).sum
      = ((pairs bytes).map fun p => p.1 * p.2).sum := by
    rw [← hpairs, List.map_map]
    rfl
  have hcount : (tileOf (fill buf bytes) N).countP (fun b => b.weight.toInt = 0 ∨ b.act.toInt = 0)
      = (pairs bytes).countP fun p => p.1 = 0 ∨ p.2 = 0 := by
    rw [← hpairs, List.countP_map]
    rfl
  rw [goldenPair_eq]
  constructor
  · rw [resultOf, Tile.acc, hsum]
    apply BitVec.toInt_ofInt_eq_self (by decide) hlow hhigh
  · rw [resultOf, Tile.skip, hcount]
    rw [BitVec.toNat_setWidth_of_le (by decide), BitVec.toNat_ofNat]
    apply Nat.mod_eq_of_lt hskip

theorem wp_sparseCnnWrite {d : ℤ × ℕ} {bytes : List (BitVec 8)}
    (hcheck : accelWriteCheck sparseCnnOps bytes.length = none)
    {σ : Board.State accelerator Result} (hσ : Idle d σ) :
  (platform accelerator Result).wp (accelWrite sparseCnnOps bytes)
    (Answered d (.write bytes)) σ
  := by
  obtain ⟨m, hfresh, hσ, hacc, hskip⟩ := hσ
  have hbytes : Admitted bytes := of_accelWriteCheck _ hcheck
  obtain ⟨N, hN⟩ : ∃ N, bytes.length = N * 2 := by
    use bytes.length / 2
    have hmod := hbytes.2.1
    omega
  have hpos : 0 < N := by
    have hlen := hbytes.1
    omega
  have hwrite := (tileContract (fill m.txBuf bytes) hN hpos).wp_accelWrite hfresh hσ
  apply Platform.wp_mono hwrite
  intro v τ hτ
  obtain e | e | count := v
  · obtain ⟨buf, hτ⟩ := hτ
    use trivial, { m with txBuf := buf }, hfresh, hτ, hacc
    apply hskip
  · obtain ⟨m', hfresh', hτ, hdata⟩ := hτ
    use hbytes, m', hfresh', hτ
    rw [hdata]
    use hacc, hskip
  · obtain ⟨rfl, m', data, hfresh', hτ, rfl, hdata, -⟩ := hτ
    use ⟨rfl, hbytes⟩, m', hfresh', hτ
    rw [hdata]
    apply resultOf_exact hN hbytes

/-! ### Any schedule -/

/-- The board, with the driver's calls, does what the device does. -/
theorem simulates_device :
  Api.Simulates (P := platform accelerator Result) Driver.SparseCnn.api device Idle
  := by
  constructor
  · apply stable_idle
  · intro d c v hv
    obtain bytes | ⟨dst, count⟩ := c
    · obtain ⟨e, -, rfl⟩ := Option.map_eq_some_iff.mp hv
      use trivial
      rfl
    · cases hv
  · intro d c v hv
    obtain bytes | ⟨dst, count⟩ := c
    · obtain rfl := Option.some.inj hv
      use trivial
      rfl
    · obtain rfl := Option.some.inj hv
      constructor
      · left
        rfl
      · rfl
  · intro d c σ hearly hσ
    obtain bytes | ⟨dst, count⟩ := c
    · apply wp_sparseCnnWrite (Option.map_eq_none_iff.mp hearly) hσ
    · apply wp_sparseCnnResult dst count hσ

theorem idle_start (s : State) (i : Inputs) (txBuf rxBuf : ℕ → BitVec 8) :
  Idle (0, 0) (start (A := accelerator) (reset s i) txBuf rxBuf ⟨0, 0⟩)
  := by
  refine ⟨_, ?_, ⟨rfl, rfl, rfl, ?_⟩, rfl, rfl⟩
  · intro c hc
    cases hc
  · constructor
    · apply Bus.coherent_reset _ i.axil
    · apply List.forall_mem_nil
    · have hreset : ctrlReset.getLsbD ctrlClear = false := by decide
      apply hreset

/-- Reads of `/dev/sparse_cnn` give the golden pair of the last successful write, whatever
the order of the calls and whatever fails. -/
theorem sparse_cnn_last_successful_tile (s : State) (i : Inputs) (txBuf rxBuf : ℕ → BitVec 8)
    (es : List (Api.Event (platform accelerator Result) FileCall)) :
  LastSuccessfulTile
    (Driver.SparseCnn.api.schedule (start (A := accelerator) (reset s i) txBuf rxBuf ⟨0, 0⟩) es).log
  := by
  apply lastSuccessfulTile_of_explains
  apply simulates_device.explains
  apply idle_start

end SparseCnnAxi
