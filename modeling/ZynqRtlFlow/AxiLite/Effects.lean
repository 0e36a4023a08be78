import ZynqRtlFlow.Rtl.AxiLite

/-!
# What a write brings

Of a write that commits the registers take the fields that software can write, all of
them in byte lane 0, and only if that lane is strobed.  What else a write says is not
noticed: writes to other offsets, the other lanes, the other bits, and what is captured
of a write before it commits.
-/

namespace AxiLite

/-- A write: its address, its data and its strobes. -/
abbrev WriteBeat : Type := BitVec 8 × BitVec 32 × BitVec 4

/-- The fields that software can write, as a mask by the offset of their register; the mask
is 0 where there are none. -/
abbrev Fields : Type := BitVec 8 → BitVec 32

/-- A word with nothing but in byte lane 0. -/
def InLane (word : BitVec 32) : Prop :=
  word.toNat < 256

instance (word : BitVec 32) : Decidable (InLane word) :=
  inferInstanceAs (Decidable (_ < _))

theorem InLane.getLsbD {word : BitVec 32} (h : InLane word) {k : ℕ} (hk : 8 ≤ k) :
  word.getLsbD k = false
  := by
  apply Nat.testBit_lt_two_pow
  apply Nat.lt_of_lt_of_le h
  apply Nat.pow_le_pow_right Nat.two_pos hk

theorem InLane.and {mask : BitVec 32} (h : InLane mask) (word : BitVec 32) :
  InLane (word &&& mask)
  := by
  rw [InLane, BitVec.toNat_and]
  apply Nat.lt_of_le_of_lt Nat.and_le_right h

/-- The register a write lands on, and what it brings to its fields. -/
def Fields.effect (fields : Fields) (x : WriteBeat) : Option (BitVec 8 × BitVec 32) :=
  if fields x.1 ≠ 0 ∧ x.2.2.getLsbD 0 = true then some (x.1, x.2.1 &&& fields x.1) else none

namespace WriteChannel

variable (fields : Fields) (w : WriteChannel) (i : Inputs)

/-- The write that commits in a cycle. -/
def committed : Option WriteBeat :=
  if w.wrCommit i then some (w.wrAddr i, w.wrData i, w.wrStrb i) else none

/-- What lands in a cycle. -/
def landing : Option (BitVec 8 × BitVec 32) :=
  (w.committed i).bind fields.effect

/-- What lands on a register in a cycle. -/
def landsOn (addr : BitVec 8) : Option (BitVec 32) :=
  (w.landing fields i).bind fun x => if x.1 = addr then some x.2 else none

variable {fields} {addr : BitVec 8}

theorem landsOn_eq (h : fields addr ≠ 0) :
  w.landsOn fields i addr
    = if (w.wrCommit i && w.wrAddr i == addr && (w.wrStrb i).getLsbD 0) = true
      then some (w.wrData i &&& fields addr) else none
  := by
  rw [landsOn, landing, committed]
  cases w.wrCommit i with
  | false => rfl
  | true =>
      rw [if_pos rfl, Option.bind_some, Fields.effect, Bool.true_and]
      by_cases haddr : w.wrAddr i = addr
      · rw [haddr, beq_self_eq_true, Bool.true_and]
        cases (w.wrStrb i).getLsbD 0 with
        | true => rw [if_pos ⟨h, rfl⟩, Option.bind_some, if_pos rfl, if_pos rfl]
        | false => rw [if_neg (by simp), Option.bind_none, if_neg Bool.false_ne_true]
      · rw [beq_eq_false_iff_ne.mpr haddr, Bool.false_and, if_neg Bool.false_ne_true]
        split
        · rw [Option.bind_some, if_neg haddr]
        · rfl

/-- A strobed write to a register whose fields are in byte lane 0. -/
theorem writeBytes_lane {mask reg : BitVec 32} (hmask : InLane mask) (hreg : InLane reg)
    (strb : BitVec 4) (data : BitVec 32) :
  writeBytes mask strb data reg = if strb.getLsbD 0 then data &&& mask else reg
  := by
  apply BitVec.eq_of_getLsbD_eq
  intro k hk
  rw [getLsbD_writeBytes _ _ _ _ hk]
  by_cases hlane : k < 8
  · have hbyte : k / 8 = 0 := by omega
    rw [hbyte]
    split
    · rw [BitVec.getLsbD_and]
    · rfl
  · have hm := hmask.getLsbD (Nat.le_of_not_lt hlane)
    have hr := hreg.getLsbD (Nat.le_of_not_lt hlane)
    cases strb.getLsbD (k / 8) <;> cases strb.getLsbD 0 <;> simp [hm, hr]

/-- A register after a cycle is what lands on it, or what it was. -/
theorem writeBytes_eq {reg : BitVec 32} (h : fields addr ≠ 0) (hmask : InLane (fields addr))
    (hreg : InLane reg) :
  (if (w.wrCommit i && w.wrAddr i == addr) = true
      then writeBytes (fields addr) (w.wrStrb i) (w.wrData i) reg else reg)
    = (w.landsOn fields i addr).getD reg
  := by
  rw [landsOn_eq w i h, writeBytes_lane hmask hreg]
  cases w.wrCommit i && w.wrAddr i == addr with
  | false => rfl
  | true => cases (w.wrStrb i).getLsbD 0 <;> rfl

/-- What lands is in byte lane 0. -/
theorem inLane_landsOn {reg : BitVec 32} (h : fields addr ≠ 0) (hmask : InLane (fields addr))
    (hreg : InLane reg) :
  InLane ((w.landsOn fields i addr).getD reg)
  := by
  rw [landsOn_eq w i h]
  split
  · apply hmask.and
  · apply hreg

end WriteChannel

end AxiLite
