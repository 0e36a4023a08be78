import ZynqRtlFlow.Relu.Device
import ZynqRtlFlow.Relu.Registers

/-!
# `/dev/relu` returns the golden tile or nothing

Between two calls the channels are empty, the accelerator is at rest with the slope due,
and the driver's buffer holds the result of the last tile.  Every call keeps this, so the
calls that take the lock, whatever their order and whatever fails, return what the device
returns.
-/

namespace ReluAxi

open AxiLite Driver Board
open Driver.Relu

/-- The results received, as signed values. -/
def results (m : Mem Unit) : List ℤ :=
  ((List.range m.data.received).map m.rxBuf).map BitVec.toInt

theorem length_results (m : Mem Unit) :
  (results m).length = m.data.received
  := by
  simp [results]

/-- The board between two calls. -/
def Idle (d : Kept) (σ : Board.State accelerator Unit) : Prop :=
  ∃ m slope, Fresh m ∧ At .empty .empty m (Rest slope) σ ∧ slope.toNat = d.slope
    ∧ results m = d.result

theorem stable_idle (d : Kept) :
  (platform accelerator Unit).Stable (Idle d)
  := by
  rintro e σ ⟨m, slope, hfresh, hσ, h⟩
  use m, slope, hfresh, stable_at (undisturbed_rest slope) quiet_empty e σ hσ

/-- A call has been answered as the device does. -/
abbrev Answered (d : Kept) (c : Call) : c.Val → Board.State accelerator Unit → Prop :=
  Api.Answered (P := platform accelerator Unit) device Idle d c

/-- A call that returns at once. -/
theorem wp_return {d : Kept} {c : Call} {v : c.Val} (hv : d.Allows c v)
    {σ : Board.State accelerator Unit} (hσ : Idle (d.step c v) σ) :
  (platform accelerator Unit).wp (pure v : Kernel Unit c.Val) (Answered d c) σ
  := Api.wp_return (P := platform accelerator Unit) (D := device) stable_idle hv hσ

/-! ### `slope_store` -/

theorem wp_slopeStore {d : Kept} {word : BitVec 32} (hword : word ≤ slopeMax)
    {σ : Board.State accelerator Unit} (hσ : Idle d σ) :
  (platform accelerator Unit).wp (slopeStore (.ok word))
    (Answered d (.slopeStore (.ok word))) σ
  := by
  obtain ⟨m, slope, hfresh, hσ, -, hresult⟩ := hσ
  have hwrite : (platform accelerator Unit).wp (writel word Driver.Relu.regSlope)
      (fun _ => At .empty .empty m (Rest (word.setWidth 8))) σ := by
    apply wp_writel (undisturbed_rest slope) quiet_empty hσ
    · apply undisturbed_rest
    · intro s b h
      apply h.post_slope
  apply Platform.wp_seq hwrite
  intro _ τ hτ
  apply wp_return (c := .slopeStore (.ok word))
  · use word, rfl
  · use m, word.setWidth 8, hfresh, hτ
    constructor
    · have hlt : word.toNat < 256 := by
        have hle : word.toNat ≤ slopeMax.toNat := hword
        have hmax : slopeMax.toNat = 255 := rfl
        omega
      simp [Nat.mod_eq_of_lt hlt, Kept.step]
    · apply hresult

/-! ### `read` -/

theorem wp_reluResult {d : Kept} (dst : UserPtr) (count : ℕ)
    {σ : Board.State accelerator Unit} (hσ : Idle d σ) :
  (platform accelerator Unit).wp (reluResult dst count)
    (Answered d (.file (.read dst count))) σ
  := by
  have hreturn : ∀ v τ, d.Gives dst count v → Idle d τ →
      (platform accelerator Unit).wp (pure v : Kernel Unit _)
        (Answered d (.file (.read dst count))) τ := by
    intro v τ hv hτ
    apply wp_return (c := .file (.read dst count))
    · right
      apply hv
    · apply hτ
  obtain ⟨m, slope, hfresh, hσ, hslope, hresult⟩ := hσ
  have hlen := length_results m
  rw [hresult] at hlen
  have hidle : ∀ τ, At .empty .empty m (Rest slope) τ → Idle d τ := by
    intro τ hτ
    use m, slope
  apply Platform.wp_seq (wp_load (undisturbed_rest slope) quiet_empty hσ)
  rintro data τ ⟨rfl, hτ⟩
  split
  · rename_i hnone
    apply hreturn _ _ _ (hidle τ hτ)
    rw [Kept.Gives, if_pos (List.length_eq_zero_iff.mp (hlen.trans hnone))]
  · rename_i hsome
    have hne : d.result ≠ [] := by
      intro hnil
      apply hsome
      rw [← hlen, hnil]
      rfl
    split
    · rename_i hshort
      apply hreturn _ _ _ (hidle τ hτ)
      rw [Kept.Gives, if_neg hne, hlen, if_pos hshort]
    · rename_i hlong
      have hcopy := wp_copyRxToUser (undisturbed_rest slope) quiet_empty hτ dst m.data.received
      apply Platform.wp_seq hcopy
      rintro x υ ⟨rfl, hυ⟩
      by_cases hdst : m.data.received ≤ dst
      · rw [if_pos hdst]
        apply hreturn _ _ _ (hidle υ hυ)
        rw [Kept.Gives, if_neg hne, hlen, if_neg hlong, if_neg (Nat.not_lt.mpr hdst)]
        use (List.range m.data.received).map m.rxBuf, rfl
        apply hresult
      · rw [if_neg hdst]
        apply hreturn _ _ _ (hidle υ hυ)
        rw [Kept.Gives, if_neg hne, hlen, if_neg hlong, if_pos (Nat.lt_of_not_le hdst)]

/-! ### `write` -/

/-- The beats received of a whole tile are the golden tile. -/
theorem results_eq_golden {m : Mem Unit} {bytes : List (BitVec 8)} {slope : BitVec 8}
    {buf : ℕ → BitVec 8} {k : ℕ} (hreceived : m.data.received = bytes.length)
    (hk : bytes.length ≤ k) (hrx : ∀ i < k, m.rxBuf i = activatedAt slope (fill buf bytes) i) :
  results m = ReluModel.golden (bytes.map BitVec.toInt) slope.toNat
  := by
  apply List.ext_getElem
  · simp [results, ReluModel.golden, hreceived]
  · intro i hi hi'
    have hlt : i < bytes.length := by simpa [ReluModel.golden] using hi'
    have hfill : fill buf bytes i = bytes[i] := by simp [fill, hlt]
    simp only [results, ReluModel.golden, List.getElem_map, List.getElem_range]
    rw [hrx i (by omega), activatedAt, hfill, ReluUnit.toInt_y]

theorem wp_reluWrite {d : Kept} {bytes : List (BitVec 8)}
    (hcheck : accelWriteCheck reluOps bytes.length = none)
    {σ : Board.State accelerator Unit} (hσ : Idle d σ) :
  (platform accelerator Unit).wp (accelWrite reluOps bytes)
    (Answered d (.file (.write bytes))) σ
  := by
  obtain ⟨m, slope, hfresh, hσ, hslope, hresult⟩ := hσ
  obtain ⟨hpos, -, hle⟩ := of_accelWriteCheck _ hcheck
  have hwrite := (tileContract slope (fill m.txBuf bytes) bytes.length hpos).wp_accelWrite
    hfresh hσ
  apply Platform.wp_mono hwrite
  intro v τ hτ
  obtain e | e | count := v
  · obtain ⟨buf, hτ⟩ := hτ
    use trivial, { m with txBuf := buf }, slope, hfresh, hτ, hslope
    apply hresult
  · obtain ⟨m', hfresh', hτ, hdata⟩ := hτ
    use trivial, m', slope, hfresh', hτ, hslope
    apply List.length_eq_zero_iff.mp
    rw [length_results, hdata]
  · obtain ⟨rfl, m', data, hfresh', hτ, rfl, hdata, hrx⟩ := hτ
    obtain ⟨k, hk, hrx⟩ := hrx rfl
    constructor
    · use rfl, hpos
      apply hle
    · use m', slope, hfresh', hτ, hslope
      change results m' = ReluModel.golden (bytes.map BitVec.toInt) d.slope
      rw [← hslope]
      apply results_eq_golden (k := k)
      · rw [hdata]
        rfl
      · apply Nat.le_trans hk
        apply Nat.le_of_eq (Nat.mul_one k)
      · apply hrx

/-! ### Any schedule -/

theorem le_slopeMax {word : BitVec 32} (h : slopeStoreCheck (.ok word) = none) :
  word ≤ slopeMax
  := by
  rw [slopeStoreCheck] at h
  split at h
  · cases h
  · apply BitVec.not_lt.mp ‹_›

/-- A call that fails before it takes the lock is allowed, and changes nothing. -/
theorem early_allowed (d : Kept) (c : Call) (v : c.Val) (hv : Driver.Relu.api.early c = some v) :
  d.Allows c v ∧ d.step c v = d
  := by
  obtain (bytes | ⟨dst, count⟩) | e | word := c
  · obtain ⟨e, -, rfl⟩ := Option.map_eq_some_iff.mp hv
    use trivial
    rfl
  · cases hv
  · obtain rfl := Option.some.inj hv
    use trivial
    rfl
  · obtain ⟨e, -, rfl⟩ := Option.map_eq_some_iff.mp hv
    use trivial
    rfl

/-- So is a call whose wait for the lock is interrupted. -/
theorem interrupted_allowed (d : Kept) (c : Call) (v : c.Val)
    (hv : Driver.Relu.api.interrupted c = some v) :
  d.Allows c v ∧ d.step c v = d
  := by
  obtain (bytes | ⟨dst, count⟩) | slope := c
  · obtain rfl := Option.some.inj hv
    use trivial
    rfl
  · obtain rfl := Option.some.inj hv
    constructor
    · left
      rfl
    · rfl
  · cases hv

/-- The board, with the driver's calls, does what the device does. -/
theorem simulates_device :
  Api.Simulates (P := platform accelerator Unit) Driver.Relu.api device Idle
  := by
  constructor
  · apply stable_idle
  · apply early_allowed
  · apply interrupted_allowed
  · intro d c σ hearly hσ
    obtain (bytes | ⟨dst, count⟩) | e | word := c
    · apply wp_reluWrite (Option.map_eq_none_iff.mp hearly) hσ
    · apply wp_reluResult dst count hσ
    · cases hearly
    · apply wp_slopeStore (le_slopeMax (Option.map_eq_none_iff.mp hearly)) hσ

theorem idle_start (s : State) (i : Inputs) (txBuf rxBuf : ℕ → BitVec 8) :
  Idle .init (start (A := accelerator) (reset s i) txBuf rxBuf ())
  := by
  refine ⟨_, slopeReset, ?_, ⟨rfl, rfl, rfl, ?_⟩, rfl, rfl⟩
  · intro c hc
    cases hc
  · constructor
    · apply Bus.coherent_reset _ i.axil
    · rfl
    · intro _
      use rfl
      rfl

/-- Whatever the order of the calls on `/dev/relu`, and whatever the bus, the DMA and the
kernel do, the device explains what they returned. -/
theorem device_explains (s : State) (i : Inputs) (txBuf rxBuf : ℕ → BitVec 8)
    (es : List (Api.Event (platform accelerator Unit) Call)) :
  device.Explains (Driver.Relu.api.schedule (start (A := accelerator) (reset s i) txBuf rxBuf ()) es).log
  := by
  apply simulates_device.explains
  apply idle_start

/-- Reads of `/dev/relu` give the golden tile or nothing, whatever the order of the calls
and whatever fails. -/
theorem relu_golden_or_nothing (s : State) (i : Inputs) (txBuf rxBuf : ℕ → BitVec 8)
    (es : List (Api.Event (platform accelerator Unit) Call)) :
  GoldenOrNothing
    (Driver.Relu.api.schedule (start (A := accelerator) (reset s i) txBuf rxBuf ()) es).log
  := by
  apply goldenOrNothing_of_explains
  apply device_explains

/-- A tile of two beats, a slope and another tile, each read back. -/
example :
  (Driver.Relu.api.schedule (start (A := accelerator) (reset zero (tileCycle false)) (fun _ => 0)
      (fun _ => 0) ())
    (promptly (.file (.write [0x80, 5])) 20 ++ promptly (.file (.read 2 2)) 2
      ++ promptly (.slopeStore (.ok 128)) 1
      ++ promptly (.file (.write [0x80])) 20 ++ promptly (.file (.read 2 2)) 2)).log.filterMap
    (fun | ⟨.file (.read _ _), .ok bytes⟩ => some (bytes.map BitVec.toInt) | _ => none)
    = [[-13, 5], [-64]]
  := by
  decide +kernel

end ReluAxi
