import ZynqRtlFlow.Rtl.ReluUnit
import Mathlib.Data.Rat.Floor
import Mathlib.Tactic.Ring
import Mathlib.Tactic.Positivity
import Mathlib.Tactic.Linarith

/-!
# The golden model of the Leaky ReLU

`ReluModel.golden` is the reference of `tb/model/relu_model.py`, over unbounded integers.
At every width the output of `relu_unit` is the model's, since neither the product nor
the final cast loses information (`ReluUnit.toInt_y`).  It is monotone in the activation
and antitone in the slope.
-/

namespace ReluModel

/-- One activation: `x` for `x ≥ 0`, `x * slope` shifted right arithmetically by
`SLOPE_W` otherwise. -/
def activation (slopeW : ℕ) (x : ℤ) (slope : ℕ) : ℤ :=
  if 0 ≤ x then x else (x * slope) >>> slopeW

/-- Leaky ReLU over one tile, at `SLOPE_W` of 8. -/
def golden (activations : List ℤ) (slope : ℕ) : List ℤ :=
  activations.map (activation 8 · slope)

/-- The arithmetic shift truncates towards minus infinity. -/
theorem activation_eq_floor (slopeW : ℕ) (x : ℤ) (slope : ℕ) :
  activation slopeW x slope = if 0 ≤ x then x else x * slope / 2 ^ slopeW
  := by
  rw [activation, Int.shiftRight_eq_div_pow]
  norm_cast

/-- A larger activation never gives a smaller output. -/
theorem activation_mono {slopeW : ℕ} {x x' : ℤ} {slope : ℕ} (h : x ≤ x') :
  activation slopeW x slope ≤ activation slopeW x' slope
  := by
  have hpow : (0 : ℤ) < 2 ^ slopeW := by positivity
  rw [activation_eq_floor, activation_eq_floor]
  split
  next hx => rw [if_pos (hx.trans h)]; apply h
  next hx =>
    have hle : x * slope ≤ 0 := by
      apply mul_nonpos_of_nonpos_of_nonneg (by omega) (by positivity)
    split
    next hx' =>
      apply le_trans _ hx'
      apply Int.ediv_nonpos_of_nonpos_of_neg hle
      omega
    next hx' =>
      apply Int.ediv_le_ediv hpow
      apply mul_le_mul_of_nonneg_right h (by positivity)

/-- A larger slope never gives a larger output. -/
theorem activation_antitone {slopeW : ℕ} {x : ℤ} {slope slope' : ℕ} (h : slope ≤ slope') :
  activation slopeW x slope' ≤ activation slopeW x slope
  := by
  have hpow : (0 : ℤ) < 2 ^ slopeW := by positivity
  rw [activation_eq_floor, activation_eq_floor]
  split
  next => apply le_refl
  next hx =>
    apply Int.ediv_le_ediv hpow
    apply mul_le_mul_of_nonpos_left _ (by omega)
    exact_mod_cast h

/-- The division over the rationals, rounded down. -/
theorem floor_eq (slopeW : ℕ) (a : ℤ) :
  ⌊(a : ℚ) / 2 ^ slopeW⌋ = a / 2 ^ slopeW
  := by
  have hfloor := Rat.floor_intCast_div_natCast a (2 ^ slopeW)
  push_cast at hfloor
  apply hfloor

end ReluModel

namespace ReluUnit

variable {dataW slopeW : ℕ}

theorem dataW_le_prodW :
  dataW ≤ prodW dataW slopeW
  := by
  simp only [prodW]
  omega

theorem slopeW_lt_prodW :
  slopeW + 1 ≤ prodW dataW slopeW
  := by
  simp only [prodW]
  omega

/-- An integer whose double lies in the range of `w` bits is its own residue. -/
theorem bmod_two_pow_eq {a : ℤ} {w : ℕ} (hle : -2 ^ w ≤ a * 2) (hlt : a * 2 < 2 ^ w) :
  a.bmod (2 ^ w) = a
  := by
  apply Int.bmod_eq_of_le_mul_two
  · push_cast
    apply hle
  · push_cast
    apply hlt

theorem toNat_widened (slope : BitVec slopeW) :
  (widened slope).toNat = slope.toNat
  := by
  simp [widened, BitVec.toNat_append]

/-- The slope, widened for the product and cut back to `ProdW` bits, keeps its value. -/
theorem toInt_widened {w : ℕ} (slope : BitVec slopeW) (hw : slopeW ≤ w) :
  (((widened slope).signExtend w).setWidth (prodW dataW slopeW)).toInt = slope.toNat
  := by
  have hmsb : (widened slope).msb = false := by simp [widened, BitVec.msb_append]
  have hlt : slope.toNat < 2 ^ w :=
    Nat.lt_of_lt_of_le slope.isLt (Nat.pow_le_pow_right (by omega) hw)
  rw [BitVec.signExtend_eq_setWidth_of_msb_false hmsb, BitVec.toInt_setWidth,
    BitVec.toNat_setWidth, toNat_widened, Nat.mod_eq_of_lt hlt]
  apply bmod_two_pow_eq
  · have hpos : (0 : ℤ) ≤ 2 ^ prodW dataW slopeW := by positivity
    omega
  · have hpow : 2 ^ slopeW * 2 ≤ 2 ^ prodW dataW slopeW := by
      rw [← pow_succ]
      apply Nat.pow_le_pow_right (by omega) slopeW_lt_prodW
    have hslope := slope.isLt
    norm_cast
    omega

/-- The activation, sign-extended beyond `n` bits and cut back to `n` bits, is the
activation sign-extended to `n` bits. -/
theorem setWidth_signExtend {n w : ℕ} (z : BitVec n) (hw : n ≤ w) :
  (z.signExtend w).setWidth n = z
  := by
  ext k hk
  have hkw : k < w := by omega
  simp [BitVec.getElem_signExtend, hk, hkw]

/-- The product of an activation and a slope, with its bounds. -/
theorem scaled_bounds (x : BitVec dataW) (slope : BitVec slopeW) :
  -2 ^ prodW dataW slopeW ≤ x.toInt * slope.toNat * 2
    ∧ x.toInt * slope.toNat * 2 < 2 ^ prodW dataW slopeW
  := by
  have hle := x.le_two_mul_toInt
  have hlt := x.two_mul_toInt_lt
  have hslope : (slope.toNat : ℤ) < 2 ^ slopeW := by exact_mod_cast slope.isLt
  have hpos : (0 : ℤ) ≤ slope.toNat := by positivity
  have hpow : (2 : ℤ) ^ prodW dataW slopeW = 2 ^ dataW * 2 ^ slopeW * 2 := by
    rw [← pow_add, ← pow_succ]
  have hdata : (0 : ℤ) < 2 ^ dataW := by positivity
  rw [hpow]
  constructor
  · nlinarith
  · nlinarith

/-- The product is exact. -/
theorem toInt_scaled (x : BitVec dataW) (slope : BitVec slopeW) :
  (scaled x slope).toInt = x.toInt * slope.toNat
  := by
  have hw : prodW dataW slopeW ≤ max (slopeW + 1 + slopeW) (prodW dataW slopeW) :=
    le_max_right _ _
  obtain ⟨hle, hlt⟩ := scaled_bounds x slope
  simp only [scaled]
  rw [BitVec.setWidth_mul _ _ hw, setWidth_signExtend _ hw, BitVec.toInt_mul,
    toInt_widened slope (by omega), BitVec.toInt_signExtend_of_le dataW_le_prodW, mul_comm]
  apply bmod_two_pow_eq hle hlt

/-- A negative activation scaled by a fraction lies between itself and zero. -/
theorem scaled_div_bounds {a : ℤ} {b : ℕ} {w : ℕ} (ha : a < 0) (hb : b < 2 ^ w) :
  a ≤ a * b / 2 ^ w ∧ a * b / 2 ^ w ≤ 0
  := by
  have hpow : (0 : ℤ) < 2 ^ w := by positivity
  have hb' : (b : ℤ) < 2 ^ w := by exact_mod_cast hb
  constructor
  · apply (Int.le_ediv_iff_mul_le hpow).mpr
    nlinarith
  · apply Int.ediv_nonpos_of_nonpos_of_neg
    · nlinarith
    · omega

/-- The shifted product is the quotient. -/
theorem toInt_shifted (x : BitVec dataW) (slope : BitVec slopeW) :
  ((scaled x slope).sshiftRight slopeW).toInt = x.toInt * slope.toNat / 2 ^ slopeW
  := by
  rw [BitVec.toInt_sshiftRight, toInt_scaled, Int.shiftRight_eq_div_pow]
  norm_cast

/-- For a negative activation the final cast keeps the value. -/
theorem toInt_cast {x : BitVec dataW} (slope : BitVec slopeW) (hx : x.toInt < 0) :
  (((scaled x slope).sshiftRight slopeW).setWidth dataW).toInt
    = ((scaled x slope).sshiftRight slopeW).toInt
  := by
  obtain ⟨hle, hnonpos⟩ := scaled_div_bounds hx slope.isLt
  have hx' := x.le_two_mul_toInt
  have hpos : (0 : ℤ) < 2 ^ dataW := by positivity
  rw [← BitVec.signExtend_eq_setWidth_of_le _ dataW_le_prodW,
    BitVec.toInt_signExtend_eq_toInt_bmod_of_le _ dataW_le_prodW, toInt_shifted]
  apply bmod_two_pow_eq
  · omega
  · omega

/-- The output of the unit is the model's activation. -/
theorem toInt_y (x : BitVec dataW) (slope : BitVec slopeW) :
  (y x slope).toInt = ReluModel.activation slopeW x.toInt slope.toNat
  := by
  by_cases hx : 0 ≤ x.toInt
  · simp only [y, ReluModel.activation, if_pos hx]
  · rw [y, if_neg hx, toInt_cast slope (lt_of_not_ge hx), toInt_shifted,
      ReluModel.activation_eq_floor, if_neg hx]

/-! ### The unit at all widths -/

theorem toInt_widened_self (slope : BitVec slopeW) :
  (widened slope).toInt = slope.toNat
  := by
  have hmsb : (widened slope).msb = false := by simp [widened, BitVec.msb_append]
  rw [BitVec.toInt_eq_toNat_of_msb hmsb, toNat_widened]

/-- No width of the unit loses information: the widened slope, the product and, for a
negative activation, the final cast keep their values. -/
structure Lossless (x : BitVec dataW) (slope : BitVec slopeW) : Prop where
  widened : (widened slope).toInt = slope.toNat
  scaled : (scaled x slope).toInt = x.toInt * slope.toNat
  cast : x.toInt < 0 → (((ReluUnit.scaled x slope).sshiftRight slopeW).setWidth dataW).toInt
    = ((ReluUnit.scaled x slope).sshiftRight slopeW).toInt

theorem lossless (x : BitVec dataW) (slope : BitVec slopeW) :
  Lossless x slope
  := by
  constructor
  · apply toInt_widened_self
  · apply toInt_scaled
  · apply toInt_cast

/-- At all widths the unit is the golden model: the activation itself, or its product with
the slope as a fraction, rounded down.  So a negative activation moves towards zero and does
not pass it, and the output is monotone in the activation and antitone in the slope. -/
theorem relu_unit_is_golden (x : BitVec dataW) (slope : BitVec slopeW) :
  (y x slope).toInt = ReluModel.activation slopeW x.toInt slope.toNat
    ∧ (y x slope).toInt = (if 0 ≤ x.toInt then x.toInt
      else ⌊((x.toInt * slope.toNat : ℤ) : ℚ) / 2 ^ slopeW⌋)
    ∧ Lossless x slope
    ∧ (x.toInt < 0 → x.toInt ≤ (y x slope).toInt ∧ (y x slope).toInt ≤ 0)
    ∧ (∀ x' : BitVec dataW, x.toInt ≤ x'.toInt → (y x slope).toInt ≤ (y x' slope).toInt)
    ∧ ∀ slope' : BitVec slopeW, slope.toNat ≤ slope'.toNat → (y x slope').toInt ≤ (y x slope).toInt
  := by
  have hfloor := (toInt_y x slope).trans (ReluModel.activation_eq_floor _ _ _)
  use toInt_y x slope
  constructor
  · rw [ReluModel.floor_eq, hfloor]
  · use lossless x slope
    constructor
    · intro hx
      rw [hfloor, if_neg (not_le_of_gt hx)]
      apply scaled_div_bounds hx slope.isLt
    · constructor
      · intro x' hx'
        rw [toInt_y, toInt_y]
        apply ReluModel.activation_mono hx'
      · intro slope' hslope'
        rw [toInt_y, toInt_y]
        apply ReluModel.activation_antitone hslope'

end ReluUnit
