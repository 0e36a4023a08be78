import ZynqRtlFlow.Rtl.AxiLite

/-!
# Posted register writes

A register write leaves the processor at once and reaches the accelerator later: the bus
holds the writes posted, presents the address and the data of the oldest one whenever it
likes, in either order, and drops it when both have been accepted.

`Coherent` says that the bus and the write channel agree on what of the oldest write has
been accepted; while it holds, the writes that commit are exactly the writes posted, in
order (`Coherent.cycle_of_commit`).
-/

open AxiLite

/-- The register writes not yet taken by the accelerator, the oldest first, and whether
its address and its data have been accepted. -/
structure Bus where
  posted : List (BitVec 8 × BitVec 32)
  awSent : Bool
  wSent : Bool
  deriving DecidableEq, Repr

namespace Bus

/-- Nothing is posted. -/
def empty : Bus := ⟨[], false, false⟩

/-- A write is posted. -/
def post (b : Bus) (addr : BitVec 8) (data : BitVec 32) : Bus :=
  { b with posted := b.posted ++ [(addr, data)] }

/-- The port in a cycle: `e` says what the bus would do; only the oldest write is
presented, with every byte strobed, and each half of it until it has been accepted. -/
def drive (b : Bus) (e : AxiLite.Inputs) : AxiLite.Inputs :=
  match b.posted with
  | [] => { e with awvalid := false, wvalid := false }
  | (addr, data) :: _ =>
      { e with
        awvalid := e.awvalid && !b.awSent
        awaddr := addr
        wvalid := e.wvalid && !b.wSent
        wdata := data
        wstrb := 0xF }

theorem drive_nil {b : Bus} (hb : b.posted = []) (e : AxiLite.Inputs) :
  (b.drive e).awvalid = false ∧ (b.drive e).wvalid = false
  := by
  rw [drive, hb]
  use rfl

theorem drive_cons {b : Bus} {x : BitVec 8 × BitVec 32} {rest : List (BitVec 8 × BitVec 32)}
    (hb : b.posted = x :: rest) (e : AxiLite.Inputs) :
  (b.drive e).awaddr = x.1 ∧ (b.drive e).wdata = x.2 ∧ (b.drive e).wstrb = 0xF
  := by
  rw [drive, hb]
  use rfl, rfl

/-- Reads are not the bus's own: any master may present one. -/
theorem drive_read (b : Bus) (e : AxiLite.Inputs) :
  (b.drive e).arvalid = e.arvalid ∧ (b.drive e).araddr = e.araddr
  := by
  rw [drive]
  split
  · use rfl
  · use rfl

/-- The bus after a cycle with the port driven as `i`. -/
def cycle (b : Bus) (w : WriteChannel) (i : AxiLite.Inputs) : Bus :=
  if (b.awSent || w.awFire i) && (b.wSent || w.wFire i) then
    ⟨b.posted.tail, false, false⟩
  else
    { b with awSent := b.awSent || w.awFire i, wSent := b.wSent || w.wFire i }

/-- The bus and the write channel agree on the halves of the oldest write that have been
accepted. -/
structure Coherent (b : Bus) (w : WriteChannel) : Prop where
  awSent : b.awSent = w.awPend
  wSent : b.wSent = w.wPend
  free : b.posted = [] → w.awPend = false ∧ w.wPend = false
  address : ∀ x rest, b.posted = x :: rest → w.awPend = true → w.awAddrQ = x.1
  data : ∀ x rest, b.posted = x :: rest → w.wPend = true → w.wDataQ = x.2 ∧ w.wStrbQ = 0xF

/-- With nothing posted, the bus agrees with a write channel that has accepted nothing. -/
theorem coherent_empty {w : WriteChannel} (haw : w.awPend = false) (hw : w.wPend = false) :
  Coherent empty w
  := by
  use haw.symm, hw.symm
  · intro _
    use haw, hw
  · intro x rest h
    cases h
  · intro x rest h
    cases h

theorem coherent_reset (w : WriteChannel) (i : AxiLite.Inputs) :
  Coherent empty (w.posedge i false)
  := by
  apply coherent_empty
  · rfl
  · rfl

namespace Coherent

variable {b : Bus} {w : WriteChannel} (h : Coherent b w)

include h

theorem post (addr : BitVec 8) (data : BitVec 32) :
  Coherent (b.post addr data) w
  := by
  constructor
  · apply h.awSent
  · apply h.wSent
  · simp [Bus.post]
  · intro x rest hx
    cases hb : b.posted with
    | nil => simp [h.free hb]
    | cons y ys =>
        simp only [Bus.post, hb, List.cons_append, List.cons.injEq] at hx
        rw [← hx.1]
        apply h.address y ys hb
  · intro x rest hx
    cases hb : b.posted with
    | nil => simp [h.free hb]
    | cons y ys =>
        simp only [Bus.post, hb, List.cons_append, List.cons.injEq] at hx
        rw [← hx.1]
        apply h.data y ys hb

theorem wrCommit_eq (e : AxiLite.Inputs) :
  w.wrCommit (b.drive e)
    = ((b.awSent || w.awFire (b.drive e)) && (b.wSent || w.wFire (b.drive e)))
  := by
  rw [WriteChannel.wrCommit, h.awSent, h.wSent]

/-- A write that commits is the oldest one posted. -/
theorem oldest_of_commit {e : AxiLite.Inputs} (hc : w.wrCommit (b.drive e) = true) :
  ∃ rest, b.posted = (w.wrAddr (b.drive e), w.wrData (b.drive e)) :: rest
    ∧ w.wrStrb (b.drive e) = 0xF
  := by
  cases hb : b.posted with
  | nil =>
      obtain ⟨haw, -⟩ := h.free hb
      simp [WriteChannel.wrCommit, WriteChannel.awFire, (drive_nil hb e).1, haw] at hc
  | cons x rest =>
      use rest
      have haddr : w.wrAddr (b.drive e) = x.1 := by
        rw [WriteChannel.wrAddr]
        split
        · apply h.address x rest hb ‹_›
        · apply (drive_cons hb e).1
      have hdata : w.wrData (b.drive e) = x.2 := by
        rw [WriteChannel.wrData]
        split
        · apply (h.data x rest hb ‹_›).1
        · apply (drive_cons hb e).2.1
      have hstrb : w.wrStrb (b.drive e) = 0xF := by
        rw [WriteChannel.wrStrb]
        split
        · apply (h.data x rest hb ‹_›).2
        · apply (drive_cons hb e).2.2
      rw [haddr, hdata]
      use rfl, hstrb

/-- A cycle in which no write commits. -/
theorem cycle_of_wait {e : AxiLite.Inputs} (hc : w.wrCommit (b.drive e) = false) :
  Coherent (b.cycle w (b.drive e)) (w.posedge (b.drive e) true)
    ∧ (b.cycle w (b.drive e)).posted = b.posted
  := by
  have hcommit := h.wrCommit_eq e
  rw [hc] at hcommit
  rw [Bus.cycle, ← hcommit, if_neg Bool.false_ne_true]
  constructor
  · constructor
    · rw [WriteChannel.awPend_posedge, hc, h.awSent]
      cases w.awPend <;> cases w.awFire (b.drive e) <;> rfl
    · rw [WriteChannel.wPend_posedge, hc, h.wSent]
      cases w.wPend <;> cases w.wFire (b.drive e) <;> rfl
    · intro hb
      obtain ⟨haw, hw⟩ := h.free hb
      obtain ⟨haw', hw'⟩ := drive_nil (b := b) hb e
      simp [WriteChannel.awPend_posedge, WriteChannel.wPend_posedge, WriteChannel.awFire,
        WriteChannel.wFire, haw, hw, haw', hw']
    · intro x rest hb hp
      rw [WriteChannel.awAddrQ_posedge]
      cases hf : w.awFire (b.drive e)
      · apply h.address x rest hb (WriteChannel.awPend_of_posedge hp hf)
      · rw [if_pos rfl]
        apply (drive_cons (b := b) hb e).1
    · intro x rest hb hp
      rw [WriteChannel.wDataQ_posedge, WriteChannel.wStrbQ_posedge]
      cases hf : w.wFire (b.drive e)
      · apply h.data x rest hb (WriteChannel.wPend_of_posedge hp hf)
      · rw [if_pos rfl, if_pos rfl]
        apply (drive_cons (b := b) hb e).2
  · rfl

/-- A cycle in which a write commits. -/
theorem cycle_of_commit {e : AxiLite.Inputs} (hc : w.wrCommit (b.drive e) = true) :
  Coherent (b.cycle w (b.drive e)) (w.posedge (b.drive e) true)
    ∧ w.wrStrb (b.drive e) = 0xF
    ∧ b.posted = (w.wrAddr (b.drive e), w.wrData (b.drive e))
      :: (b.cycle w (b.drive e)).posted
  := by
  obtain ⟨rest, hb, hstrb⟩ := h.oldest_of_commit hc
  have hcommit := h.wrCommit_eq e
  rw [hc] at hcommit
  have haw : (w.posedge (b.drive e) true).awPend = false := by
    simp [WriteChannel.awPend_posedge, hc]
  have hw : (w.posedge (b.drive e) true).wPend = false := by
    simp [WriteChannel.wPend_posedge, hc]
  rw [Bus.cycle, ← hcommit, if_pos rfl]
  constructor
  · constructor
    · rw [haw]
    · rw [hw]
    · intro _
      use haw, hw
    · simp [haw]
    · simp [hw]
  · use hstrb
    rw [hb]
    rfl

/-- A cycle keeps the bus and the write channel in agreement. -/
theorem cycle (e : AxiLite.Inputs) :
  Coherent (b.cycle w (b.drive e)) (w.posedge (b.drive e) true)
  := by
  cases hc : w.wrCommit (b.drive e)
  · apply (h.cycle_of_wait hc).1
  · apply (h.cycle_of_commit hc).1

/-- A cycle in which the port is driven as the bus drives it. -/
theorem cycle_of_drive {e i : AxiLite.Inputs} (hi : i = b.drive e) :
  Coherent (b.cycle w i) (w.posedge i true)
  := by
  rw [hi]
  apply h.cycle

end Coherent

end Bus
