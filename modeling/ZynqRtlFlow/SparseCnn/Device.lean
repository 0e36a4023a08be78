import ZynqRtlFlow.Driver.SparseCnn
import ZynqRtlFlow.Model.SparseMacModel

/-!
# What `/dev/sparse_cnn` is for

A device that keeps the accumulator and the skip count of the last tile: a write that
succeeds puts the golden pair of its tile in their place, and any other call leaves them
as they are.  The tiles the driver admits are small enough for the pair to fit the
registers exactly.
-/

namespace Driver.SparseCnn

/-! ### The golden pair of a tile -/

/-- The little-endian 16-bit words of a buffer. -/
def words (bytes : List (BitVec 8)) : List (BitVec 16) :=
  (List.range (bytes.length / 2)).map fun k => bytes.getD (k * 2 + 1) 0 ++ bytes.getD (k * 2) 0

/-- The operand pairs of a tile: the weight in bits 7:0 of a word, the activation in bits
15:8. -/
def pairs (bytes : List (BitVec 8)) : List (ℤ × ℤ) :=
  (words bytes).map fun w => ((w.extractLsb' 0 8).toInt, (w.extractLsb' 8 8).toInt)

/-- The accumulator and the skip count of the pairs, over unbounded integers. -/
def goldenPair (l : List (ℤ × ℤ)) : ℤ × ℕ :=
  SparseMacModel.golden (l.map Prod.fst) (l.map Prod.snd)

theorem length_pairs (bytes : List (BitVec 8)) :
  (pairs bytes).length = bytes.length / 2
  := by
  simp [pairs, words]

theorem goldenPair_eq (l : List (ℤ × ℤ)) :
  goldenPair l = ((l.map fun p => p.1 * p.2).sum, l.countP fun p => p.1 = 0 ∨ p.2 = 0)
  := SparseMacModel.golden_eq l

theorem product_bounds_of_mem {bytes : List (BitVec 8)} {p : ℤ × ℤ} (hp : p ∈ pairs bytes) :
  -2 ^ 14 ≤ p.1 * p.2 ∧ p.1 * p.2 ≤ 2 ^ 14
  := by
  obtain ⟨w, -, rfl⟩ := List.mem_map.mp hp
  apply SparseMacModel.product_bounds

/-- The golden pair of so many products of signed bytes. -/
theorem goldenPair_bounds {l : List (ℤ × ℤ)}
    (hl : ∀ p ∈ l, -2 ^ 14 ≤ p.1 * p.2 ∧ p.1 * p.2 ≤ 2 ^ 14) :
  l.length * -2 ^ 14 ≤ (goldenPair l).1 ∧ (goldenPair l).1 ≤ l.length * 2 ^ 14
    ∧ (goldenPair l).2 ≤ l.length
  := SparseMacModel.golden_bounds hl

/-! ### The device -/

/-- The bytes of a write that reaches `accel_run_tile`: whole beats, at least one and no
more than the transport carries. -/
def Admitted (bytes : List (BitVec 8)) : Prop :=
  0 < bytes.length ∧ bytes.length % 2 = 0 ∧ bytes.length ≤ accelMaxBeats * 2

/-- What a call that returned a value leaves. -/
def keptNext (d : ℤ × ℕ) : (c : FileCall) → c.Val → ℤ × ℕ
  | .write bytes, .ran (.ok _) => goldenPair (pairs bytes)
  | _, _ => d

/-- What a read with the lock held gives: the pair, if the buffer is of its size and can
be written. -/
def Gives (d : ℤ × ℕ) (dst : UserPtr) (count : ℕ) (v : Except Errno (List (BitVec 8))) : Prop :=
  if count < Result.size then v = .error .EINVAL
  else if dst < Result.size then v = .error .EFAULT
  else ∃ r : Result, v = .ok r.bytes ∧ r.acc.toInt = d.1 ∧ r.skip.toNat = d.2

/-- What a call may return.  Only a read interrupted before it took the lock gives
`ERESTARTSYS`. -/
def Allows (d : ℤ × ℕ) : (c : FileCall) → c.Val → Prop
  | .write bytes, .ran (.ok n) => n = bytes.length ∧ Admitted bytes
  | .write bytes, .ran (.error _) => Admitted bytes
  | .write _, .refused _ => True
  | .read dst count, v => v = .error .ERESTARTSYS ∨ Gives d dst count v

/-- The device. -/
def device : Device FileCall FileCall.Val where
  State := ℤ × ℕ
  init := (0, 0)
  step := keptNext
  Allows := Allows

/-! ### Exactly the last successful tile -/

/-- The golden pair of the last write of a log that succeeded, or zeros. -/
def lastPair (log : List (Σ c : FileCall, c.Val)) : ℤ × ℕ :=
  log.foldl (fun d e => match e with
    | ⟨.write bytes, .ran (.ok _)⟩ => goldenPair (pairs bytes)
    | _ => d) (0, 0)

theorem after_eq_lastPair (log : List (Σ c : FileCall, c.Val)) :
  device.after log = lastPair log
  := by
  change log.foldl (fun d e => keptNext d e.1 e.2) (0, 0) = lastPair log
  rw [lastPair]
  congr 1
  funext d ⟨c, v⟩
  obtain bytes | ⟨dst, count⟩ := c
  · obtain e | e | n := v
    · rfl
    · rfl
    · rfl
  · rfl

/-- What the reads of a log give, the calls being listed in the order in which they took
the lock; a read that returns `ERESTARTSYS` did not take it. -/
structure LastSuccessfulTile (log : List (Σ c : FileCall, c.Val)) : Prop where
  /-- A read with a buffer of at least 8 bytes gives the golden pair of the last write
  that succeeded, or zeros if there is none. -/
  pair : ∀ past dst count v rest, log = past ++ ⟨.read dst count, v⟩ :: rest →
    v ≠ .error .ERESTARTSYS → 8 ≤ count → 8 ≤ dst →
    ∃ r : Result, v = .ok r.bytes ∧ r.acc.toInt = (lastPair past).1
      ∧ r.skip.toNat = (lastPair past).2
  /-- No part of a tile that reaches the accelerator can wrap its registers. -/
  exact : ∀ past tile ret rest, log = past ++ ⟨.write tile, .ran ret⟩ :: rest → ∀ k,
    -2 ^ 31 ≤ (goldenPair ((pairs tile).take k)).1
      ∧ (goldenPair ((pairs tile).take k)).1 < 2 ^ 31
      ∧ (goldenPair ((pairs tile).take k)).2 < 2 ^ 16

theorem gives_pair {d : ℤ × ℕ} {dst : UserPtr} {count : ℕ} {v : Except Errno (List (BitVec 8))}
    (h : Gives d dst count v) (hcount : Result.size ≤ count) (hdst : Result.size ≤ dst) :
  ∃ r : Result, v = .ok r.bytes ∧ r.acc.toInt = d.1 ∧ r.skip.toNat = d.2
  := by
  rw [Gives, if_neg (Nat.not_lt.mpr hcount), if_neg (Nat.not_lt.mpr hdst)] at h
  apply h

theorem Admitted.bounds {bytes : List (BitVec 8)} (h : Admitted bytes) (k : ℕ) :
  -2 ^ 31 ≤ (goldenPair ((pairs bytes).take k)).1
    ∧ (goldenPair ((pairs bytes).take k)).1 < 2 ^ 31
    ∧ (goldenPair ((pairs bytes).take k)).2 < 2 ^ 16
  := by
  have hlen : ((pairs bytes).take k).length ≤ 4096 := by
    have hle := h.2.2
    rw [List.length_take, length_pairs]
    rw [accelMaxBeats] at hle
    omega
  obtain ⟨hlow, hhigh, hskip⟩ := goldenPair_bounds (l := (pairs bytes).take k) (by
    intro p hp
    apply product_bounds_of_mem (List.mem_of_mem_take hp))
  constructor
  · omega
  · constructor
    · omega
    · omega

/-- In a log that the device explains, reads give exactly the last successful tile. -/
theorem lastSuccessfulTile_of_explains {log : List (Σ c : FileCall, c.Val)}
    (h : device.Explains log) :
  LastSuccessfulTile log
  := by
  constructor
  · intro past dst count v rest hlog hv hcount hdst
    obtain hsys | hgives := h past _ rest hlog
    · exact absurd hsys hv
    · rw [← after_eq_lastPair]
      apply gives_pair hgives hcount hdst
  · intro past tile ret rest hlog k
    have hallows := h past _ rest hlog
    have hadmitted : Admitted tile := by
      obtain e | n := ret
      · apply hallows
      · apply hallows.2
    apply hadmitted.bounds k

end Driver.SparseCnn
