import Mathlib.Data.List.TakeDrop
import ZynqRtlFlow.Text.Strings

/-!
# Numbers in texts

A number is written in decimal without leading zeros; the digits of a text up to its first
other character are read in a base.
-/

namespace Text

/-- `%d` and `%u` of a number that is not negative. -/
def decimal (n : ℕ) : Str :=
  Nat.toDigits 10 n

/-- The value of a digit in any base up to 16. -/
def digitValue (c : Char) : Option ℕ :=
  if c.isDigit then some (c.toNat - 48)
  else if 'a' ≤ c ∧ c ≤ 'f' then some (c.toNat - 87)
  else if 'A' ≤ c ∧ c ≤ 'F' then some (c.toNat - 55)
  else none

/-- A digit in the base. -/
def isDigitOf (base : ℕ) (c : Char) : Bool :=
  (digitValue c).any (· < base)

/-- The value of some digits in a base. -/
def ofDigits (base : ℕ) (ds : Str) : ℕ :=
  ds.foldl (fun n c => n * base + (digitValue c).getD 0) 0

/-- `str.isdigit` of a word of ASCII characters. -/
def isDigits (w : Str) : Bool :=
  w ≠ [] && w.all Char.isDigit

theorem isDigit_of_mem_decimal {c : Char} {n : ℕ} (h : c ∈ decimal n) :
  c.isDigit = true
  := Nat.isDigit_of_mem_toDigits (by decide) (by decide) h

theorem decimal_ne_nil (n : ℕ) :
  decimal n ≠ []
  := Nat.toDigits_ne_nil

theorem isDigits_decimal (n : ℕ) :
  isDigits (decimal n) = true
  := by
  rw [isDigits, decide_eq_true (decimal_ne_nil n), Bool.true_and, List.all_eq_true]
  intro c hc
  apply isDigit_of_mem_decimal hc

theorem digitValue_of_isDigit {c : Char} (h : c.isDigit = true) :
  digitValue c = some (c.toNat - 48)
  := if_pos h

theorem isDigitOf_ten_of_isDigit {c : Char} (h : c.isDigit = true) :
  isDigitOf 10 c = true
  := by
  have hle : c.toNat ≤ 57 := (Char.isDigit_iff_toNat.mp h).2
  rw [isDigitOf, digitValue_of_isDigit h, Option.any_some, decide_eq_true_eq]
  omega

/-- A number is read back from its decimal digits. -/
theorem ofDigits_decimal (n : ℕ) :
  ofDigits 10 (decimal n) = n
  := by
  have hfold : ∀ (ds : Str) (m : ℕ), (∀ c ∈ ds, c.isDigit = true) →
      ds.foldl (fun n c => n * 10 + (digitValue c).getD 0) m = Nat.ofDigitChars 10 ds m := by
    intro ds
    induction ds with
    | nil =>
        intro m _
        rfl
    | cons c ds ih =>
        intro m hds
        rw [List.foldl_cons, Nat.ofDigitChars_cons, digitValue_of_isDigit (hds c List.mem_cons_self),
          Option.getD_some, Nat.mul_comm m 10]
        apply ih
        intro d hd
        apply hds d (List.mem_cons_of_mem _ hd)
  rw [ofDigits, hfold _ _ fun c => isDigit_of_mem_decimal]
  apply Nat.ofDigitChars_ten_toDigits

/-- Only zero begins with a zero. -/
theorem head_decimal {n : ℕ} (hn : 0 < n) :
  ∃ c t, decimal n = c :: t ∧ c ≠ '0'
  := by
  induction n using Nat.strongRecOn with
  | ind n ih =>
      rw [decimal, Nat.toDigits_eq_if (by decide)]
      split
      · rename_i hlt
        use n.digitChar, [], rfl
        rw [Ne, Nat.digitChar_eq_zero]
        omega
      · obtain ⟨c, t, ht, hc⟩ := ih (n / 10) (by omega) (by omega)
        use c, t ++ [(n % 10).digitChar]
        rw [decimal] at ht
        rw [ht]
        use rfl

end Text
