import Mathlib.Data.Nat.Notation
import ZynqRtlFlow.Program.Prog

/-!
# What the driver asks of the kernel

The driver is a program over the operations it performs on the kernel and, through it, on
the registers, the DMA channels and user memory.  An operation that can fail returns what
its failure looks like to the driver; what decides between success and failure, and what
the hardware does meanwhile, is the platform's.
-/

namespace Driver

/-- The error codes of the driver and of the calls it makes. -/
inductive Errno where
  | EIO
  | EBUSY
  | EFAULT
  | EINVAL
  | EMSGSIZE
  | ETIMEDOUT
  | ERESTARTSYS
  | ERANGE
  deriving DecidableEq, Repr

/-- The two DMA channels of an accelerator: `tx` carries the tile to it, `rx` the results
back. -/
inductive Chan where
  | tx
  | rx
  deriving DecidableEq, Repr

/-- A DMA descriptor: its length, and the completion its callback signals. -/
structure Desc where
  bytes : ℕ
  done : ℕ
  deriving DecidableEq, Repr

/-- What a tile changes in `struct accel_device`: the length of the results received, and
the private data of the register layer. -/
structure AccelData (π : Type) where
  received : ℕ
  priv : π
  deriving DecidableEq, Repr

/-- `char __user *to`: how many bytes can be written from that address on. -/
abbrev UserPtr : Type := ℕ

/-- The operations of the driver, `π` being the private data of the register layer. -/
inductive KernelOp (π : Type) where
  /-- `readl` of a register. -/
  | readl (reg : BitVec 8)
  /-- `writel` of a word to a register. -/
  | writel (word : BitVec 32) (reg : BitVec 8)
  /-- `DECLARE_COMPLETION_ONSTACK`. -/
  | declareCompletion
  /-- `dmaengine_prep_slave_single`, with the callback's completion. -/
  | prepSlaveSingle (chan : Chan) (bytes done : ℕ)
  /-- `dmaengine_submit`, and the error in the cookie it returns. -/
  | submit (chan : Chan) (desc : Desc)
  /-- `dma_async_issue_pending`. -/
  | issuePending (chan : Chan)
  /-- `wait_for_completion_timeout`. -/
  | waitForCompletion (done : ℕ)
  /-- `dmaengine_terminate_sync`. -/
  | terminateSync (chan : Chan)
  /-- `copy_from_user` into the buffer of the `tx` channel. -/
  | copyFromUser (bytes : List (BitVec 8))
  /-- `copy_to_user` of a value of the driver. -/
  | copyToUser (dst : UserPtr) (bytes : List (BitVec 8))
  /-- `copy_to_user` from the buffer of the `rx` channel. -/
  | copyRxToUser (dst : UserPtr) (bytes : ℕ)
  /-- How many times a poll loop finds its time not yet up. -/
  | pollsLeft
  /-- The driver's own data are read. -/
  | load
  /-- The driver's own data are written. -/
  | store (data : AccelData π)

/-- The result of an operation: the word read, a new completion, the descriptor if one
could be prepared, the error of a submission, whether the completion was signalled in
time, whether a copy succeeded, the bytes copied out. -/
def KernelOp.Res {π : Type} : KernelOp π → Type
  | .readl _ => BitVec 32
  | .writel _ _ => Unit
  | .declareCompletion => ℕ
  | .prepSlaveSingle _ _ _ => Option Desc
  | .submit _ _ => Option Errno
  | .issuePending _ => Unit
  | .waitForCompletion _ => Bool
  | .terminateSync _ => Unit
  | .copyFromUser _ => Bool
  | .copyToUser _ _ => Bool
  | .copyRxToUser _ _ => Option (List (BitVec 8))
  | .pollsLeft => ℕ
  | .load => AccelData π
  | .store _ => Unit

/-- Driver code. -/
abbrev Kernel (π : Type) : Type → Type := Prog (KernelOp π) KernelOp.Res

variable {π : Type}

/-- `readl`. -/
def readl (reg : BitVec 8) : Kernel π (BitVec 32) := .perform (KernelOp.readl reg)

/-- `writel`. -/
def writel (word : BitVec 32) (reg : BitVec 8) : Kernel π Unit := .perform (KernelOp.writel word reg)

/-- `DECLARE_COMPLETION_ONSTACK`. -/
def declareCompletion : Kernel π ℕ := .perform KernelOp.declareCompletion

/-- `dmaengine_prep_slave_single`. -/
def prepSlaveSingle (chan : Chan) (bytes done : ℕ) : Kernel π (Option Desc) :=
  .perform (KernelOp.prepSlaveSingle chan bytes done)

/-- `dmaengine_submit`, `none` if there is no error in the cookie. -/
def submit (chan : Chan) (desc : Desc) : Kernel π (Option Errno) := .perform (KernelOp.submit chan desc)

/-- `dma_async_issue_pending`. -/
def issuePending (chan : Chan) : Kernel π Unit := .perform (KernelOp.issuePending chan)

/-- `wait_for_completion_timeout`, `false` if the time is up. -/
def waitForCompletion (done : ℕ) : Kernel π Bool := .perform (KernelOp.waitForCompletion done)

/-- `dmaengine_terminate_sync`. -/
def terminateSync (chan : Chan) : Kernel π Unit := .perform (KernelOp.terminateSync chan)

/-- `copy_from_user`, `false` if it fails. -/
def copyFromUser (bytes : List (BitVec 8)) : Kernel π Bool := .perform (KernelOp.copyFromUser bytes)

/-- `copy_to_user`, `false` if it fails. -/
def copyToUser (dst : UserPtr) (bytes : List (BitVec 8)) : Kernel π Bool :=
  .perform (KernelOp.copyToUser dst bytes)

/-- `copy_to_user` of the return path, `none` if it fails. -/
def copyRxToUser (dst : UserPtr) (bytes : ℕ) : Kernel π (Option (List (BitVec 8))) :=
  .perform (KernelOp.copyRxToUser dst bytes)

/-- How often a poll loop goes round. -/
def pollsLeft : Kernel π ℕ := .perform KernelOp.pollsLeft

/-- The driver's own data. -/
def load : Kernel π (AccelData π) := .perform KernelOp.load

/-- The driver's own data are set. -/
def store (data : AccelData π) : Kernel π Unit := .perform (KernelOp.store data)

/-- The loop of `readl_poll_timeout`: the register is read until the condition holds, and
once more when the time is up. -/
def pollLoop (reg : BitVec 8) (cond : BitVec 32 → Bool) : ℕ → Kernel π (Except Errno (BitVec 32))
  | 0 => do
      let val ← readl reg
      if cond val then return .ok val
      let val ← readl reg
      if cond val then return .ok val
      return .error .ETIMEDOUT
  | polls + 1 => do
      let val ← readl reg
      if cond val then return .ok val
      pollLoop reg cond polls

/-- `readl_poll_timeout`. -/
def readlPollTimeout (reg : BitVec 8) (cond : BitVec 32 → Bool) :
    Kernel π (Except Errno (BitVec 32)) := do
  pollLoop reg cond (← pollsLeft)

end Driver
