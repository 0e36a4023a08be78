import ZynqRtlFlow.Driver.AccelTransport

/-!
# `sparse_cnn`

The register layer of the sparse CNN: a tile begins with a START and is reduced to two
registers, which a successful write copies into the driver's own data for reads to give.
-/

namespace Driver.SparseCnn

/-- Offset of `CTRL`. -/
abbrev regCtrl : BitVec 8 := 0x04#8

/-- Offset of `STATUS`. -/
abbrev regStatus : BitVec 8 := 0x08#8

/-- Offset of `ACC`. -/
abbrev regAcc : BitVec 8 := 0x0C#8

/-- Offset of `SKIP`. -/
abbrev regSkip : BitVec 8 := 0x10#8

/-- `CTRL_START`. -/
def ctrlStart : BitVec 32 := 1#32 <<< 0

/-- `CTRL_EN`. -/
def ctrlEn : BitVec 32 := 1#32 <<< 2

/-- `STATUS_BUSY`. -/
def statusBusy : BitVec 32 := 1#32 <<< 0

/-- `STATUS_DONE`. -/
def statusDone : BitVec 32 := 1#32 <<< 1

/-- `BEAT_BYTES`. -/
def beatBytes : ℕ := 2

/-- `struct sparse_cnn`. -/
structure Result where
  acc : BitVec 32
  skip : BitVec 32
  deriving DecidableEq, Repr

/-- The bytes of a word in memory, the least significant first. -/
def leBytes (word : BitVec 32) : List (BitVec 8) :=
  (List.range 4).map fun k => word.extractLsb' (8 * k) 8

/-- The size of the result in memory. -/
def Result.size : ℕ := 8

/-- The eight bytes a read gives. -/
def Result.bytes (r : Result) : List (BitVec 8) :=
  leBytes r.acc ++ leBytes r.skip

/-- `sparse_cnn_accept`: no tile begins behind one in flight. -/
def sparseCnnAccept : Kernel Result (Except Errno Unit) := do
  let status ← readl regStatus
  if status &&& statusBusy ≠ 0 then return .error .EBUSY
  return .ok ()

/-- `sparse_cnn_start`. -/
def sparseCnnStart : Kernel Result Unit :=
  writel (ctrlEn ||| ctrlStart) regCtrl

/-- `sc->acc = acc`, then `sc->skip = skip`, each read from its register. -/
def latchResult : Kernel Result Unit := do
  let acc ← readl regAcc
  let data ← load
  store { data with priv := { data.priv with acc := acc } }
  let skip ← readl regSkip
  let data ← load
  store { data with priv := { data.priv with skip := skip } }

/-- `sparse_cnn_finish`: the tile is done, and its result is kept. -/
def sparseCnnFinish (_beats : ℕ) : Kernel Result (Except Errno Unit) := do
  match ← readlPollTimeout regStatus (fun status => status &&& statusDone ≠ 0) with
  | .error e => return .error e
  | .ok _ =>
      latchResult
      return .ok ()

/-- `sparse_cnn_result`: the result kept, whole. -/
def sparseCnnResult (dst : UserPtr) (count : ℕ) : Kernel Result (Except Errno (List (BitVec 8))) := do
  let data ← load
  if count < Result.size then return .error .EINVAL
  if !(← copyToUser dst data.priv.bytes) then return .error .EFAULT
  return .ok data.priv.bytes

/-- `sparse_cnn_ops`. -/
def sparseCnnOps : AccelOps Result where
  beatBytes := beatBytes
  duplex := false
  accept := sparseCnnAccept
  start := sparseCnnStart
  finish := sparseCnnFinish
  result := sparseCnnResult

/-- The calls on the sparse CNN. -/
def api : Api (KernelOp Result) KernelOp.Res FileCall FileCall.Val where
  early c := c.early sparseCnnOps
  interrupted c := c.interrupted
  body c := c.body sparseCnnOps

end Driver.SparseCnn
