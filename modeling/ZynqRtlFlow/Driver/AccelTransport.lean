import ZynqRtlFlow.Driver.Kernel
import ZynqRtlFlow.Program.Monitor

/-!
# `accel_transport`

The half of a driver that does not change with the accelerator.  A write is one tile: it
is copied in, sent, and its results are received or read back; a read gives the results
of the last tile.  What tells one accelerator from another is its `AccelOps`.
-/

namespace Driver

open Errno

/-- The longest tile the transport carries. -/
def accelMaxBeats : ℕ := 4096

/-- `struct accel_ops`: the size of a stream beat, whether the accelerator answers on
`m_axis`, and the answers of the register layer.  An answer a layer leaves out is the
program that does nothing. -/
structure AccelOps (π : Type) where
  beatBytes : ℕ
  duplex : Bool
  /-- Whether a tile may start now. -/
  accept : Kernel π (Except Errno Unit)
  /-- The register writes that come before the first beat. -/
  start : Kernel π Unit
  /-- Every beat has moved: wait for the accelerator, and latch. -/
  finish : ℕ → Kernel π (Except Errno Unit)
  /-- What a read with a buffer of some length gives. -/
  result : UserPtr → ℕ → Kernel π (Except Errno (List (BitVec 8)))

variable {π : Type} (ops : AccelOps π)

/-- `ac->received = bytes`. -/
def setReceived (bytes : ℕ) : Kernel π Unit := do
  store { ← load with received := bytes }

/-- `accel_wait`. -/
def accelWait (chan : Chan) (done : ℕ) : Kernel π (Except Errno Unit) := do
  if ← waitForCompletion done then return .ok ()
  terminateSync chan
  return .error .ETIMEDOUT

/-- `dmaengine_terminate_sync` of the return path, if there is one. -/
def terminateRx : Kernel π Unit :=
  if ops.duplex then terminateSync .rx else pure ()

/-- The label `discard` of `accel_run_tile`. -/
def discard (ret : Errno) : Kernel π (Except Errno Unit) := do
  terminateRx ops
  return .error ret

/-- The descriptor of the return path, if there is one. -/
def prepRx (bytes returned : ℕ) : Kernel π (Option Desc) :=
  if ops.duplex then prepSlaveSingle .rx bytes returned else pure none

/-- `dmaengine_submit` on the return path, if there is one. -/
def submitRx : Option Desc → Kernel π (Option Errno)
  | some desc => submit .rx desc
  | none => pure none

/-- The part of `accel_run_tile` that prepares and submits the transfers of a tile: a
submitted descriptor moves nothing until it is issued. -/
def submitTile (bytes sent returned : ℕ) : Kernel π (Except Errno Unit) := do
  let rxDesc ← prepRx ops bytes returned
  if ops.duplex && rxDesc.isNone then return .error EIO
  match ← prepSlaveSingle .tx bytes sent with
  | none => discard ops EIO
  | some txDesc =>
      match ← submitRx rxDesc with
      | some e => discard ops e
      | none =>
          match ← submit .tx txDesc with
          | some e => discard ops e
          | none => return .ok ()

/-- `dma_async_issue_pending` of the return path, if there is one. -/
def issueRx : Kernel π Unit :=
  if ops.duplex then issuePending .rx else pure ()

/-- The wait for the return path, if there is one. -/
def waitRx (returned : ℕ) : Kernel π (Except Errno Unit) :=
  if ops.duplex then accelWait .rx returned else pure (.ok ())

/-- The part of `accel_run_tile` that starts the accelerator, issues the transfers, the
return path first, and waits for them. -/
def transferTile (sent returned : ℕ) : Kernel π (Except Errno Unit) := do
  ops.start
  issueRx ops
  issuePending .tx
  match ← accelWait .tx sent with
  | .error e => discard ops e
  | .ok () => waitRx ops returned

/-- The results of a tile on the return path are what the tile's length says. -/
def publish (bytes : ℕ) : Kernel π Unit :=
  if ops.duplex then setReceived bytes else pure ()

/-- The results of a tile are published only once the register layer has agreed that it
finished. -/
def accelRunTile (bytes : ℕ) : Kernel π (Except Errno Unit) := do
  let sent ← declareCompletion
  let returned ← declareCompletion
  setReceived 0
  match ← ops.accept with
  | .error e => return .error e
  | .ok () =>
      match ← submitTile ops bytes sent returned with
      | .error e => return .error e
      | .ok () =>
          match ← transferTile ops sent returned with
          | .error e => return .error e
          | .ok () =>
              match ← ops.finish (bytes / ops.beatBytes) with
              | .error e => return .error e
              | .ok () =>
                  publish ops bytes
                  return .ok ()

/-! ### File operations -/

/-- The calls a process makes on the character device. -/
inductive FileCall where
  | write (bytes : List (BitVec 8))
  | read (dst : UserPtr) (count : ℕ)
  deriving DecidableEq, Repr

/-- What a write returns: an error from before `accel_run_tile`, or what that returned. -/
inductive WriteReturn where
  | refused (e : Errno)
  | ran (ret : Except Errno ℕ)

/-- What a call returns; a read also delivers its bytes. -/
def FileCall.Val : FileCall → Type
  | .write _ => WriteReturn
  | .read _ _ => Except Errno (List (BitVec 8))

/-- The checks of `accel_write` before it takes the lock. -/
def accelWriteCheck (count : ℕ) : Option Errno :=
  if count = 0 ∨ count % ops.beatBytes ≠ 0 then some .EINVAL
  else if accelMaxBeats * ops.beatBytes < count then some .EMSGSIZE
  else none

/-- A write that takes the lock is of 1 to `ACCEL_MAX_BEATS` whole beats. -/
theorem of_accelWriteCheck {count : ℕ} (h : accelWriteCheck ops count = none) :
  0 < count ∧ count % ops.beatBytes = 0 ∧ count ≤ accelMaxBeats * ops.beatBytes
  := by
  rw [accelWriteCheck] at h
  split at h
  · cases h
  · split at h
    · cases h
    · omega

/-- `accel_write` with the lock held. -/
def accelWrite (bytes : List (BitVec 8)) : Kernel π WriteReturn := do
  if !(← copyFromUser bytes) then return .refused .EFAULT
  match ← accelRunTile ops bytes.length with
  | .error e => return .ran (.error e)
  | .ok () => return .ran (.ok bytes.length)

/-- `accel_read` with the lock held. -/
def accelRead (dst : UserPtr) (count : ℕ) : Kernel π (Except Errno (List (BitVec 8))) :=
  ops.result dst count

/-- A call that fails before it takes the lock. -/
def FileCall.early : (c : FileCall) → Option c.Val
  | .write bytes => (accelWriteCheck ops bytes.length).map .refused
  | .read _ _ => none

/-- What a call returns when its wait for the lock is interrupted. -/
def FileCall.interrupted : (c : FileCall) → Option c.Val
  | .write _ => some (.refused .ERESTARTSYS)
  | .read _ _ => some (.error .ERESTARTSYS)

/-- What a call does with the lock held. -/
def FileCall.body : (c : FileCall) → Kernel π c.Val
  | .write bytes => accelWrite ops bytes
  | .read dst count => accelRead ops dst count

end Driver
