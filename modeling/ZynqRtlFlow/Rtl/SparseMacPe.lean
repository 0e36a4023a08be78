import Mathlib.Data.Nat.Notation

/-!
# `sparse_mac_pe`

The sparse multiply-accumulate processing element, at any widths `DATA_W`, `ACC_W` and
`SKIP_W`.  When either operand is zero the multiply-add is suppressed and the skip
counter advances instead.

The size cast `ACC_W'(weight * act)` is read as the signed product taken at `ACC_W` bits.
-/

namespace SparseMacPe

/-- The inputs of the processing element in one cycle. -/
structure Inputs (dataW : ℕ) where
  en : Bool
  clearAcc : Bool
  validIn : Bool
  weight : BitVec dataW
  act : BitVec dataW

/-- The registers of the processing element, which are its outputs. -/
structure State (accW skipW : ℕ) where
  acc : BitVec accW
  skipCount : BitVec skipW
  validOut : Bool
  deriving DecidableEq, Repr

variable {dataW accW skipW : ℕ}

/-- A pair is skipped when either operand is zero. -/
def isZero (weight act : BitVec dataW) : Bool :=
  weight == 0 || act == 0

/-- The signed product, in the accumulator width. -/
def product (accW : ℕ) (weight act : BitVec dataW) : BitVec accW :=
  weight.signExtend accW * act.signExtend accW

/-- A pair is multiplied and added. -/
def doMac (i : Inputs dataW) : Bool :=
  i.validIn && !isZero i.weight i.act

/-- The processing element after a clock edge. -/
def posedge (rstN : Bool) (i : Inputs dataW) (s : State accW skipW) : State accW skipW :=
  if !rstN then
    { acc := 0, skipCount := 0, validOut := false }
  else if i.en then
    if i.clearAcc then
      { acc := 0, skipCount := 0, validOut := i.validIn && !i.clearAcc }
    else
      { acc := if doMac i then s.acc + product accW i.weight i.act else s.acc
        skipCount := if i.validIn && isZero i.weight i.act then s.skipCount + BitVec.ofNat skipW 1
          else s.skipCount
        validOut := i.validIn && !i.clearAcc }
  else
    { s with validOut := false }

end SparseMacPe
