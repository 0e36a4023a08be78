import ZynqRtlFlow.Rtl.SparseMacPe
import Mathlib.Algebra.BigOperators.Group.List.Basic
import Mathlib.Algebra.Order.BigOperators.Group.List
import Mathlib.Algebra.Ring.Int.Defs
import Mathlib.Tactic.Linarith
import Mathlib.Tactic.Positivity

/-!
# The golden model of the sparse multiply-accumulate

`SparseMacModel.golden` is the reference of `tb/model/sparse_mac_model.py`, over unbounded
integers.  One clock edge of the processing element that consumes a pair adds the signed
product to the accumulator, zero-skip or not, and the pair's zero operand to the skip
count (`SparseMacPe.posedge_consume`).
-/

namespace SparseMacModel

/-- One pass of the loop: a pair with a zero operand is counted, any other accumulated. -/
def accumulate (result : ℤ × ℕ) (pair : ℤ × ℤ) : ℤ × ℕ :=
  if pair.1 = 0 ∨ pair.2 = 0 then (result.1, result.2 + 1)
  else (result.1 + pair.1 * pair.2, result.2)

/-- The accumulator and the zero-skip count of one tile of operand pairs. -/
def golden (weights acts : List ℤ) : ℤ × ℕ :=
  (weights.zip acts).foldl accumulate (0, 0)

/-- The accumulator is the sum of all products and the count that of the zero pairs. -/
theorem foldl_accumulate (pairs : List (ℤ × ℤ)) (result : ℤ × ℕ) :
  pairs.foldl accumulate result
    = (result.1 + (pairs.map fun p => p.1 * p.2).sum,
      result.2 + pairs.countP fun p => p.1 = 0 ∨ p.2 = 0)
  := by
  induction pairs generalizing result with
  | nil => simp
  | cons p pairs ih =>
      rw [List.foldl_cons, ih, accumulate]
      by_cases hp : p.1 = 0 ∨ p.2 = 0
      · have hzero : p.1 * p.2 = 0 := Int.mul_eq_zero.mpr hp
        simp [hp, hzero]
        omega
      · simp [hp, add_assoc]

theorem golden_eq (pairs : List (ℤ × ℤ)) :
  golden (pairs.map Prod.fst) (pairs.map Prod.snd)
    = ((pairs.map fun p => p.1 * p.2).sum, pairs.countP fun p => p.1 = 0 ∨ p.2 = 0)
  := by
  rw [golden, List.zip_map', List.map_id'' (fun _ => rfl), foldl_accumulate]
  simp

/-- The product of two signed bytes. -/
theorem product_bounds (x y : BitVec 8) :
  -2 ^ 14 ≤ x.toInt * y.toInt ∧ x.toInt * y.toInt ≤ 2 ^ 14
  := by
  have hx := x.le_two_mul_toInt
  have hx' := x.two_mul_toInt_lt
  have hy := y.le_two_mul_toInt
  have hy' := y.two_mul_toInt_lt
  constructor
  · nlinarith
  · nlinarith

/-- What the model makes of so many products of signed bytes. -/
theorem golden_bounds {l : List (ℤ × ℤ)}
    (hl : ∀ p ∈ l, -2 ^ 14 ≤ p.1 * p.2 ∧ p.1 * p.2 ≤ 2 ^ 14) :
  l.length * -2 ^ 14 ≤ (golden (l.map Prod.fst) (l.map Prod.snd)).1
    ∧ (golden (l.map Prod.fst) (l.map Prod.snd)).1 ≤ l.length * 2 ^ 14
    ∧ (golden (l.map Prod.fst) (l.map Prod.snd)).2 ≤ l.length
  := by
  rw [golden_eq]
  have hlow := List.card_nsmul_le_sum (l.map fun p => p.1 * p.2) (-2 ^ 14) (by
    intro x hx
    obtain ⟨p, hp, rfl⟩ := List.mem_map.mp hx
    apply (hl p hp).1)
  have hhigh := List.sum_le_card_nsmul (l.map fun p => p.1 * p.2) (2 ^ 14) (by
    intro x hx
    obtain ⟨p, hp, rfl⟩ := List.mem_map.mp hx
    apply (hl p hp).2)
  rw [nsmul_eq_mul, List.length_map] at hlow hhigh
  use hlow, hhigh
  apply List.countP_le_length

end SparseMacModel

namespace SparseMacPe

variable {dataW accW skipW : ℕ}

theorem isZero_iff (weight act : BitVec dataW) :
  isZero weight act = true ↔ weight.toInt = 0 ∨ act.toInt = 0
  := by
  simp [isZero, ← BitVec.toInt_inj]

/-- The product is the integer product modulo `2 ^ ACC_W`. -/
theorem product_eq (weight act : BitVec dataW) :
  product accW weight act = BitVec.ofInt accW (weight.toInt * act.toInt)
  := by
  rw [product, BitVec.ofInt_mul]
  rfl

theorem product_of_isZero {weight act : BitVec dataW} (h : isZero weight act = true) :
  product accW weight act = 0
  := by
  rw [product_eq, Int.mul_eq_zero.mpr ((isZero_iff weight act).mp h)]
  rfl

/-- A pair consumed: its product is accumulated, and counted if it is zero. -/
theorem posedge_consume {i : Inputs dataW} (s : State accW skipW) (hen : i.en = true)
    (hclear : i.clearAcc = false) (hvalid : i.validIn = true) :
  posedge true i s
    = { acc := s.acc + product accW i.weight i.act
        skipCount := s.skipCount + BitVec.ofNat skipW (isZero i.weight i.act).toNat
        validOut := true }
  := by
  cases hz : isZero i.weight i.act
  · simp [posedge, doMac, hen, hclear, hvalid, hz]
  · simp [posedge, doMac, hen, hclear, hvalid, hz, product_of_isZero hz]

theorem posedge_clear {i : Inputs dataW} (s : State accW skipW) (hen : i.en = true)
    (hclear : i.clearAcc = true) :
  posedge true i s = { acc := 0, skipCount := 0, validOut := false }
  := by
  simp [posedge, hen, hclear]

theorem posedge_freeze {i : Inputs dataW} (s : State accW skipW) (hen : i.en = false) :
  posedge true i s = { s with validOut := false }
  := by
  simp [posedge, hen]

end SparseMacPe
