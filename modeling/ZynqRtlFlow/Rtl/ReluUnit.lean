import Mathlib.Data.Nat.Notation

/-!
# `relu_unit`

The Leaky ReLU activation at any widths `DATA_W` and `SLOPE_W`: `y = x` for `x ≥ 0` and
`y = x * slope` for `x < 0`, the slope being an unsigned fraction of `SLOPE_W` bits.
-/

namespace ReluUnit

variable {dataW slopeW : ℕ}

/-- The operand's width plus the slope's, and one bit more for the sign. -/
abbrev prodW (dataW slopeW : ℕ) : ℕ := dataW + slopeW + 1

/-- The slope widened by `SLOPE_W + 1` zero bits. -/
def widened (slope : BitVec slopeW) : BitVec (slopeW + 1 + slopeW) :=
  0#(slopeW + 1) ++ slope

/-- The product, taken at the larger of the operands' widths and assigned to `ProdW`
bits. -/
def scaled (x : BitVec dataW) (slope : BitVec slopeW) : BitVec (prodW dataW slopeW) :=
  let w := max (slopeW + 1 + slopeW) (prodW dataW slopeW)
  ((widened slope).signExtend w * (x.signExtend (prodW dataW slopeW)).signExtend w).setWidth _

/-- The output `y`. -/
def y (x : BitVec dataW) (slope : BitVec slopeW) : BitVec dataW :=
  if 0 ≤ x.toInt then x else ((scaled x slope).sshiftRight slopeW).setWidth dataW

end ReluUnit
