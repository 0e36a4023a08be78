import Mathlib.Data.List.DropRight
import ZynqRtlFlow.Model.SparseMacModel
import ZynqRtlFlow.Synchronous.Machine

/-!
# Zero-skip and the plain MAC

Whatever the inputs of a run, the processing element holds the sum of the products of all
pairs consumed since it was last cleared, and the number of those with a zero operand, each
modulo its width: leaving out the multiply-add of a zero pair changes nothing.  At the
widths of the package both are the golden model's as long as the skip counter has not
wrapped around.
-/

namespace SparseMacPe

variable {dataW accW skipW : ℕ}

/-- The processing element as a machine; in every cycle it is presented with `rst_n` and its
other inputs. -/
def machine (dataW accW skipW : ℕ) : Machine (State accW skipW) (Bool × Inputs dataW) where
  next s c := posedge c.1 c.2 s

/-- The edge consumes a pair. -/
def consumes (c : Bool × Inputs dataW) : Bool :=
  c.1 && c.2.en && !c.2.clearAcc && c.2.validIn

/-- The edge is a reset, or a clear that takes effect. -/
def clears (c : Bool × Inputs dataW) : Bool :=
  !c.1 || c.2.en && c.2.clearAcc

/-- The pairs consumed since the last reset or clear. -/
def consumed (cs : List (Bool × Inputs dataW)) : List (BitVec dataW × BitVec dataW) :=
  ((cs.rtakeWhile fun c => !clears c).filter consumes).map fun c => (c.2.weight, c.2.act)

/-- The sum of the products, no pair left out. -/
def plainSum (pairs : List (BitVec dataW × BitVec dataW)) : ℤ :=
  (pairs.map fun p => p.1.toInt * p.2.toInt).sum

/-- How many of the pairs have a zero operand. -/
def zeroCount (pairs : List (BitVec dataW × BitVec dataW)) : ℕ :=
  pairs.countP fun p => p.1 = 0 ∨ p.2 = 0

/-- What a plain MAC and a count of the zero pairs would hold after the cycles `cs`. -/
structure PlainMac (cs : List (Bool × Inputs dataW)) (s : State accW skipW) : Prop where
  acc : s.acc = BitVec.ofInt accW (plainSum (consumed cs))
  skipCount : s.skipCount = BitVec.ofNat skipW (zeroCount (consumed cs))
  validOut : s.validOut = true ↔ ∃ c ∈ cs.getLast?, consumes c = true

/-! ### One edge -/

theorem consumed_clear {cs : List (Bool × Inputs dataW)} {c : Bool × Inputs dataW}
    (h : clears c = true) :
  consumed (cs ++ [c]) = []
  := by
  rw [consumed, List.rtakeWhile_concat_neg]
  · rfl
  · simp [h]

theorem consumed_keep {cs : List (Bool × Inputs dataW)} {c : Bool × Inputs dataW}
    (h : clears c = false) (hc : consumes c = false) :
  consumed (cs ++ [c]) = consumed cs
  := by
  rw [consumed, List.rtakeWhile_concat_pos]
  · simp [consumed, hc]
  · simp [h]

theorem consumed_pair {cs : List (Bool × Inputs dataW)} {c : Bool × Inputs dataW}
    (h : clears c = false) (hc : consumes c = true) :
  consumed (cs ++ [c]) = consumed cs ++ [(c.2.weight, c.2.act)]
  := by
  rw [consumed, List.rtakeWhile_concat_pos]
  · simp [consumed, hc]
  · simp [h]

theorem plainSum_concat (pairs : List (BitVec dataW × BitVec dataW)) (p : BitVec dataW × BitVec dataW) :
  plainSum (pairs ++ [p]) = plainSum pairs + p.1.toInt * p.2.toInt
  := by
  simp [plainSum]

theorem zeroCount_concat (pairs : List (BitVec dataW × BitVec dataW))
    (p : BitVec dataW × BitVec dataW) :
  zeroCount (pairs ++ [p]) = zeroCount pairs + (isZero p.1 p.2).toNat
  := by
  have hzero : isZero p.1 p.2 = decide (p.1 = 0 ∨ p.2 = 0) := by simp [isZero, beq_eq_decide]
  rw [zeroCount, List.countP_append, List.countP_singleton, ← zeroCount, hzero]
  cases decide (p.1 = 0 ∨ p.2 = 0) with
  | false => rfl
  | true => rfl

/-- A reset leaves nothing accumulated, whatever came before. -/
theorem plainMac_reset (cs : List (Bool × Inputs dataW)) (i : Inputs dataW) (s : State accW skipW) :
  PlainMac (cs ++ [(false, i)]) (posedge false i s)
  := by
  have hconsumed : consumed (cs ++ [(false, i)]) = [] := consumed_clear rfl
  constructor
  · rw [hconsumed]
    rfl
  · rw [hconsumed]
    rfl
  · simp [posedge, consumes]

/-- An edge that consumes a pair adds its product, though it be zero. -/
theorem PlainMac.consume {cs : List (Bool × Inputs dataW)} {s : State accW skipW}
    (h : PlainMac cs s) {i : Inputs dataW} (hen : i.en = true) (hclear : i.clearAcc = false)
    (hvalid : i.validIn = true) :
  PlainMac (cs ++ [(true, i)]) (posedge true i s)
  := by
  have hconsumes : consumes (true, i) = true := by simp [consumes, hen, hclear, hvalid]
  have hpairs : consumed (cs ++ [(true, i)]) = consumed cs ++ [(i.weight, i.act)] := by
    apply consumed_pair _ hconsumes
    simp [clears, hclear]
  rw [posedge_consume s hen hclear hvalid]
  constructor
  · rw [hpairs, plainSum_concat, BitVec.ofInt_add, ← h.acc, product_eq]
  · rw [hpairs, zeroCount_concat, BitVec.ofNat_add, ← h.skipCount]
  · simp [hconsumes]

/-- An edge that neither clears nor consumes keeps what has been accumulated. -/
theorem PlainMac.hold {cs : List (Bool × Inputs dataW)} {s : State accW skipW} (h : PlainMac cs s)
    {i : Inputs dataW} (hclears : clears (true, i) = false) (hconsumes : consumes (true, i) = false) :
  PlainMac (cs ++ [(true, i)]) { s with validOut := false }
  := by
  have hpairs : consumed (cs ++ [(true, i)]) = consumed cs := consumed_keep hclears hconsumes
  constructor
  · rw [hpairs]
    apply h.acc
  · rw [hpairs]
    apply h.skipCount
  · simp [hconsumes]

/-- A clear leaves nothing accumulated. -/
theorem plainMac_clear (cs : List (Bool × Inputs dataW)) {i : Inputs dataW} (s : State accW skipW)
    (hen : i.en = true) (hclear : i.clearAcc = true) :
  PlainMac (cs ++ [(true, i)]) (posedge true i s)
  := by
  have hconsumed : consumed (cs ++ [(true, i)]) = [] := by
    apply consumed_clear
    simp [clears, hen, hclear]
  rw [posedge_clear s hen hclear]
  constructor
  · rw [hconsumed]
    rfl
  · rw [hconsumed]
    rfl
  · simp [consumes, hclear]

/-- Every edge keeps the processing element a plain MAC. -/
theorem PlainMac.edge {cs : List (Bool × Inputs dataW)} {s : State accW skipW} (h : PlainMac cs s)
    (c : Bool × Inputs dataW) :
  PlainMac (cs ++ [c]) (posedge c.1 c.2 s)
  := by
  obtain ⟨rstN, i⟩ := c
  cases rstN with
  | false => apply plainMac_reset
  | true =>
      cases hen : i.en with
      | false =>
          rw [posedge_freeze s hen]
          apply h.hold
          · simp [clears, hen]
          · simp [consumes, hen]
      | true =>
          cases hclear : i.clearAcc with
          | true => apply plainMac_clear cs s hen hclear
          | false =>
              cases hvalid : i.validIn with
              | true => apply h.consume hen hclear hvalid
              | false =>
                  have hidle : posedge true i s = { s with validOut := false } := by
                    simp [posedge, doMac, hen, hclear, hvalid]
                  rw [hidle]
                  apply h.hold
                  · simp [clears, hclear]
                  · simp [consumes, hvalid]

/-! ### A run -/

/-- In every run that starts with a reset the processing element is a plain MAC. -/
theorem plainMac_run (s : State accW skipW) (i : Inputs dataW) (cs : List (Bool × Inputs dataW)) :
  PlainMac ((false, i) :: cs) ((machine dataW accW skipW).run s ((false, i) :: cs))
  := by
  induction cs using List.reverseRecOn with
  | nil => apply plainMac_reset [] i s
  | append_singleton cs c ih =>
      rw [← List.cons_append, Machine.run_concat]
      apply ih.edge

/-- With `en` low the registers hold, `clear_acc` or not. -/
theorem run_freeze (s : State accW skipW) (cs : List (Bool × Inputs dataW)) {j : Inputs dataW}
    (hen : j.en = false) :
  ((machine dataW accW skipW).run s (cs ++ [(true, j)])).acc = ((machine dataW accW skipW).run s cs).acc
    ∧ ((machine dataW accW skipW).run s (cs ++ [(true, j)])).skipCount
      = ((machine dataW accW skipW).run s cs).skipCount
  := by
  have hfreeze : (machine dataW accW skipW).run s (cs ++ [(true, j)])
      = { (machine dataW accW skipW).run s cs with validOut := false } := by
    rw [Machine.run_concat]
    apply posedge_freeze _ hen
  rw [hfreeze]
  constructor
  · rfl
  · rfl

/-! ### At the widths of the package -/

/-- The golden model on pairs of operands. -/
def goldenOf (pairs : List (BitVec dataW × BitVec dataW)) : ℤ × ℕ :=
  SparseMacModel.golden (pairs.map fun p => p.1.toInt) (pairs.map fun p => p.2.toInt)

theorem goldenOf_eq (pairs : List (BitVec dataW × BitVec dataW)) :
  goldenOf pairs = (plainSum pairs, zeroCount pairs)
  := by
  have hgolden := SparseMacModel.golden_eq (pairs.map fun p => (p.1.toInt, p.2.toInt))
  simp only [List.map_map, List.countP_map] at hgolden
  rw [goldenOf, plainSum, zeroCount]
  apply hgolden.trans
  congr 1
  apply List.countP_congr
  intro p _
  simp [← BitVec.toInt_inj]

/-- The golden pair of so many pairs of signed bytes. -/
theorem goldenOf_bounds (pairs : List (BitVec 8 × BitVec 8)) :
  pairs.length * -2 ^ 14 ≤ (goldenOf pairs).1 ∧ (goldenOf pairs).1 ≤ pairs.length * 2 ^ 14
    ∧ (goldenOf pairs).2 ≤ pairs.length
  := by
  have hbounds := SparseMacModel.golden_bounds
    (l := pairs.map fun p => (p.1.toInt, p.2.toInt)) (by
      intro p hp
      obtain ⟨p, -, rfl⟩ := List.mem_map.mp hp
      apply SparseMacModel.product_bounds)
  simp only [List.map_map, List.length_map] at hbounds
  apply hbounds

/-- Up to 65535 pairs neither register has wrapped around. -/
theorem PlainMac.golden {cs : List (Bool × Inputs 8)} {s : State 32 16} (h : PlainMac cs s)
    (hlength : (consumed cs).length ≤ 65535) :
  s.acc.toInt = (goldenOf (consumed cs)).1 ∧ s.skipCount.toNat = (goldenOf (consumed cs)).2
  := by
  obtain ⟨hlow, hhigh, hskip⟩ := goldenOf_bounds (consumed cs)
  rw [goldenOf_eq] at hlow hhigh hskip ⊢
  simp only at hlow hhigh hskip ⊢
  constructor
  · rw [h.acc, BitVec.toInt_ofInt]
    apply Int.bmod_eq_of_le_mul_two
    · omega
    · omega
  · rw [h.skipCount, BitVec.toNat_ofNat]
    apply Nat.mod_eq_of_lt
    omega

/-- The zero-skipping processing element computes what a plain MAC does: at all widths
modulo the registers', and exactly at those of the package. -/
theorem zero_skip_is_exact :
  (∀ (dataW accW skipW : ℕ) (s : State accW skipW) (i : Inputs dataW) (cs : List (Bool × Inputs dataW)),
      PlainMac ((false, i) :: cs) ((machine dataW accW skipW).run s ((false, i) :: cs))
        ∧ ∀ j : Inputs dataW, j.en = false →
          ((machine dataW accW skipW).run s ((false, i) :: cs ++ [(true, j)])).acc
              = ((machine dataW accW skipW).run s ((false, i) :: cs)).acc
            ∧ ((machine dataW accW skipW).run s ((false, i) :: cs ++ [(true, j)])).skipCount
              = ((machine dataW accW skipW).run s ((false, i) :: cs)).skipCount)
    ∧ ∀ (s : State 32 16) (i : Inputs 8) (cs : List (Bool × Inputs 8)),
      (consumed ((false, i) :: cs)).length ≤ 65535 →
      ((machine 8 32 16).run s ((false, i) :: cs)).acc.toInt
          = (goldenOf (consumed ((false, i) :: cs))).1
        ∧ ((machine 8 32 16).run s ((false, i) :: cs)).skipCount.toNat
          = (goldenOf (consumed ((false, i) :: cs))).2
  := by
  constructor
  · intro dataW accW skipW s i cs
    use plainMac_run s i cs
    intro j hen
    apply run_freeze s _ hen
  · intro s i cs hlength
    apply (plainMac_run s i cs).golden hlength

/-- After a reset: the largest product, a pair with a zero weight, a held cycle, a cycle
without a pair, a negative product and a pair with a zero activation. -/
def mixedPairs : List (Bool × Inputs 8) :=
  [(true, ⟨true, false, true, -128, -128⟩), (true, ⟨true, false, true, 0, 77⟩),
    (true, ⟨false, false, true, 3, 3⟩), (true, ⟨true, false, false, 9, 9⟩),
    (true, ⟨true, false, true, -128, 127⟩), (true, ⟨true, false, true, 5, 0⟩)]

theorem mixed_pairs_are_exact :
  ((machine 8 32 16).run ⟨5, 3, true⟩ ((false, ⟨true, false, true, 1, 1⟩) :: mixedPairs)).acc.toInt
      = 128
    ∧ ((machine 8 32 16).run ⟨5, 3, true⟩
      ((false, ⟨true, false, true, 1, 1⟩) :: mixedPairs)).skipCount.toNat = 2
  := by
  obtain ⟨hacc, hskip⟩ := zero_skip_is_exact.2 ⟨5, 3, true⟩ ⟨true, false, true, 1, 1⟩ mixedPairs
    (by decide)
  constructor
  · apply hacc.trans
    decide
  · apply hskip.trans
    decide

end SparseMacPe
