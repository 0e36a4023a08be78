import ZynqRtlFlow.Driver.Relu
import ZynqRtlFlow.Text.Numbers

/-!
# The slope as a text

The attribute prints the register in decimal, and takes a number in any base that
`kstrtou32` knows.  What it prints it takes back.
-/

namespace Driver

open Text

/-- The base of a number without one of its own, and where its digits begin: hexadecimal
after `0x` and a digit, octal after any other `0`, decimal otherwise. -/
def fixupRadix : Str → ℕ × Str
  | '0' :: x :: c :: t =>
      if (x = 'x' ∨ x = 'X') ∧ isDigitOf 16 c then (16, c :: t) else (8, '0' :: x :: c :: t)
  | '0' :: t => (8, '0' :: t)
  | t => (10, t)

/-- A text without the character, if it begins with it. -/
def dropOne (c : Char) : Str → Str
  | [] => []
  | d :: t => if d = c then t else d :: t

/-- `kstrtou32` in base 0: a sign, the digits, and at most a newline after them; a number
that does not fit 64 bits is out of range whatever follows it. -/
def kstrtou32 (s : Str) : Except Errno (BitVec 32) :=
  let (base, t) := fixupRadix (dropOne '+' s)
  let digits := t.takeWhile (isDigitOf base)
  let value := ofDigits base digits
  if 0x10000000000000000 ≤ value then .error .ERANGE
  else if digits = [] then .error .EINVAL
  else if dropOne '\n' (t.dropWhile (isDigitOf base)) ≠ [] then .error .EINVAL
  else if 0x100000000 ≤ value then .error .ERANGE
  else .ok (BitVec.ofNat 32 value)

/-- `%d\n` and `%u\n`. -/
def line (n : ℕ) : Str :=
  decimal n ++ ['\n']

/-- A number printed on a line is read as itself, if it fits. -/
theorem kstrtou32_line (n : ℕ) :
  kstrtou32 (line n) = if n < 0x100000000 then .ok (BitVec.ofNat 32 n) else .error .ERANGE
  := by
  obtain rfl | hn := Nat.eq_zero_or_pos n
  · decide
  · obtain ⟨c, t, ht, hc⟩ := head_decimal hn
    have hdigit : ∀ d ∈ decimal n, isDigitOf 10 d = true := fun d hd =>
      isDigitOf_ten_of_isDigit (isDigit_of_mem_decimal hd)
    have hsign : dropOne '+' (line n) = line n := by
      have hplus : c ≠ '+' := by
        rintro rfl
        cases isDigit_of_mem_decimal (ht ▸ List.mem_cons_self)
      rw [line, ht, List.cons_append, dropOne, if_neg hplus]
    have hbase : fixupRadix (line n) = (10, line n) := by
      rw [line, ht, List.cons_append, fixupRadix]
      · intro x d u h
        apply hc (List.cons.inj h).1
      · intro u h
        apply hc (List.cons.inj h).1
    have htake : (line n).takeWhile (isDigitOf 10) = decimal n := by
      rw [line, List.takeWhile_append_of_pos hdigit]
      simp [isDigitOf, digitValue]
    have hdrop : (line n).dropWhile (isDigitOf 10) = ['\n'] := by
      rw [line, List.dropWhile_append_of_pos hdigit]
      rfl
    have hend : ¬ dropOne '\n' ['\n'] ≠ [] := by decide
    simp only [kstrtou32, hsign, hbase, htake, hdrop, ofDigits_decimal, if_neg (decimal_ne_nil n),
      if_neg hend]
    by_cases hfits : n < 0x100000000
    · rw [if_pos hfits, if_neg (by omega), if_neg (by omega)]
    · rw [if_neg hfits, if_pos (Nat.not_lt.mp hfits), ite_self]

namespace Relu

/-- `slope_store` of a text. -/
def slopeStoreText (buf : Str) : Call :=
  .slopeStore (kstrtou32 buf)

/-- What `slope_show` prints of the register. -/
def slopeShowText (slope : BitVec 32) : Str :=
  line slope.toNat

/-- `slope_show`. -/
def slopeShow : Kernel Unit Str := do
  return slopeShowText (← readl regSlope)

/-- What is printed is taken back. -/
theorem kstrtou32_slopeShowText (slope : BitVec 32) :
  kstrtou32 (slopeShowText slope) = .ok slope
  := by
  rw [slopeShowText, kstrtou32_line, if_pos slope.isLt, BitVec.ofNat_toNat, BitVec.setWidth_eq]

end Relu

end Driver
