import Mathlib.Data.Nat.Notation
import ZynqRtlFlow.Driver.Kernel

/-!
# DMA channels

A channel of the AXI DMA works through its issued descriptors one after another; a
submitted descriptor waits until it is issued.  The descriptor at the head moves its
beats in order, and is done when its last beat has moved or, on the return path, when a
beat with `tlast` has.
-/

open Driver

/-- A DMA channel: the descriptors submitted and issued, the number of beats the one at
the head has moved, and whether a `tlast` beat has ended it. -/
structure Channel where
  submitted : List Desc
  issued : List Desc
  moved : ℕ
  ended : Bool
  deriving DecidableEq, Repr

namespace Channel

/-- No descriptor. -/
def empty : Channel := ⟨[], [], 0, false⟩

/-- A descriptor is submitted, and waits to be issued. -/
def submit (ch : Channel) (desc : Desc) : Channel :=
  { ch with submitted := ch.submitted ++ [desc] }

/-- All descriptors submitted are issued. -/
def issuePending (ch : Channel) : Channel :=
  { ch with submitted := [], issued := ch.issued ++ ch.submitted }

/-- The descriptor at the head has a beat of `beatBytes` bytes left to move. -/
def pending (beatBytes : ℕ) (ch : Channel) : Bool :=
  match ch.issued with
  | [] => false
  | desc :: _ => !ch.ended && ch.moved * beatBytes < desc.bytes

/-- The next beat is the last one of the descriptor at the head. -/
def atLast (beatBytes : ℕ) (ch : Channel) : Bool :=
  match ch.issued with
  | [] => false
  | desc :: _ => desc.bytes ≤ (ch.moved + 1) * beatBytes

/-- A beat has moved. -/
def advance (last : Bool) (ch : Channel) : Channel :=
  { ch with moved := ch.moved + 1, ended := ch.ended || last }

/-- The descriptor at the head, done, is retired. -/
def retire (ch : Channel) : Channel :=
  { ch with issued := ch.issued.tail, moved := 0, ended := false }

@[simp]
theorem pending_nil {ch : Channel} (h : ch.issued = []) (beatBytes : ℕ) :
  ch.pending beatBytes = false
  := by
  rw [pending, h]

@[simp]
theorem pending_empty (beatBytes : ℕ) :
  Channel.empty.pending beatBytes = false
  := rfl

end Channel
