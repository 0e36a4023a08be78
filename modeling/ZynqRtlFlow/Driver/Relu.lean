import ZynqRtlFlow.Driver.AccelTransport

/-!
# `relu`

The register layer of the Leaky ReLU: a tile begins with its first beat, comes back on
the return path, and is whole if `COUNT` says so.  The slope is an attribute, written
with the lock of the tile path held.
-/

namespace Driver.Relu

open Errno

/-- Offset of `CTRL`. -/
abbrev regCtrl : BitVec 8 := 0x04#8

/-- Offset of `STATUS`. -/
abbrev regStatus : BitVec 8 := 0x08#8

/-- Offset of `SLOPE`. -/
abbrev regSlope : BitVec 8 := 0x0C#8

/-- Offset of `COUNT`. -/
abbrev regCount : BitVec 8 := 0x10#8

/-- `CTRL_EN`. -/
def ctrlEn : BitVec 32 := 1#32 <<< 0

/-- `STATUS_BUSY`. -/
def statusBusy : BitVec 32 := 1#32 <<< 0

/-- `STATUS_DONE`. -/
def statusDone : BitVec 32 := 1#32 <<< 1

/-- `SLOPE_MAX`. -/
def slopeMax : BitVec 32 := 0xFF#32

/-- `BEAT_BYTES`. -/
def beatBytes : ℕ := 1

/-- `relu_accept`: no tile begins behind one that has not come back. -/
def reluAccept : Kernel Unit (Except Errno Unit) := do
  let status ← readl regStatus
  if status &&& statusBusy ≠ 0 then return .error .EBUSY
  return .ok ()

/-- `relu_start`. -/
def reluStart : Kernel Unit Unit :=
  writel ctrlEn regCtrl

/-- `relu_finish`: the tile is done, and `COUNT` says that all of it went through. -/
def reluFinish (beats : ℕ) : Kernel Unit (Except Errno Unit) := do
  match ← readlPollTimeout regStatus (fun status => status &&& statusDone ≠ 0) with
  | .error e => return .error e
  | .ok _ =>
      let count ← readl regCount
      if count.toNat ≠ beats then return .error EIO
      return .ok ()

/-- `relu_result`: what came back last, or nothing. -/
def reluResult (dst : UserPtr) (count : ℕ) : Kernel Unit (Except Errno (List (BitVec 8))) := do
  let data ← load
  if data.received = 0 then return .ok []
  if count < data.received then return .error .EINVAL
  match ← copyRxToUser dst data.received with
  | none => return .error .EFAULT
  | some bytes => return .ok bytes

/-- `relu_ops`. -/
def reluOps : AccelOps Unit where
  beatBytes := beatBytes
  duplex := true
  accept := reluAccept
  start := reluStart
  finish := reluFinish
  result := reluResult

/-! ### The calls -/

/-- The calls of the Leaky ReLU's device: its file operations, and a store to the slope
attribute of what `kstrtou32` makes of the text written. -/
inductive Call where
  | file (c : FileCall)
  | slopeStore (slope : Except Errno (BitVec 32))

/-- What a call returns. -/
def Call.Val : Call → Type
  | .file c => c.Val
  | .slopeStore _ => Except Errno Unit

/-- The checks of `slope_store` before it takes the lock. -/
def slopeStoreCheck : Except Errno (BitVec 32) → Option Errno
  | .error e => some e
  | .ok slope => if slopeMax < slope then some .ERANGE else none

/-- `slope_store` with the lock held. -/
def slopeStore : Except Errno (BitVec 32) → Kernel Unit (Except Errno Unit)
  | .error e => return .error e
  | .ok slope => do
      writel slope regSlope
      return .ok ()

/-- The calls on the Leaky ReLU.  `slope_store` does not give up its wait for the lock. -/
def api : Api (KernelOp Unit) KernelOp.Res Call Call.Val where
  early
    | .file c => c.early reluOps
    | .slopeStore slope => (slopeStoreCheck slope).map .error
  interrupted
    | .file c => c.interrupted
    | .slopeStore _ => none
  body
    | .file c => c.body reluOps
    | .slopeStore slope => slopeStore slope

end Driver.Relu
