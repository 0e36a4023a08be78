import ZynqRtlFlow.Driver.RegisterLayer
import ZynqRtlFlow.Program.Erase

/-!
# Where `accel_run_tile` leaves

An error number does not say where `accel_run_tile` left: a submission can fail with any.
Here the same programs return the place as well; erased to what the source returns they
are the programs of the source (`accelRunTile_eq`), and so are the calls of both devices
(`SparseCnn.erases_exitApi`, `Relu.erases_exitApi`).
-/

namespace Driver

variable {π : Type}

/-- Where `accel_run_tile` leaves: the register layer refused the tile; the transfers could
not be prepared or submitted; one of them did not complete; the register layer did not
agree that the tile finished; or the tile is done. -/
inductive TileExit where
  | refused (e : Errno)
  | notSubmitted (e : Errno)
  | notTransferred (e : Errno)
  | notFinished (e : Errno)
  | done
  deriving DecidableEq, Repr

/-- What `accel_run_tile` returns there. -/
def TileExit.ret : TileExit → Except Errno Unit
  | .refused e | .notSubmitted e | .notTransferred e | .notFinished e => .error e
  | .done => .ok ()

/-- The transfers have not been issued. -/
def TileExit.BeforeIssue : TileExit → Prop
  | .refused _ | .notSubmitted _ => True
  | _ => False

/-- A transfer that was issued did not complete, or the tile did not finish. -/
def TileExit.Stuck : TileExit → Prop
  | .notTransferred _ | .notFinished _ => True
  | _ => False

/-- The register layer refused the tile. -/
def TileExit.Refused : TileExit → Prop
  | .refused _ => True
  | _ => False

variable (ops : AccelOps π)

/-- `accel_run_tile`, returning where it leaves. -/
def runTile (bytes : ℕ) : Kernel π TileExit := do
  let sent ← declareCompletion
  let returned ← declareCompletion
  setReceived 0
  match ← ops.accept with
  | .error e => return .refused e
  | .ok () =>
      match ← submitTile ops bytes sent returned with
      | .error e => return .notSubmitted e
      | .ok () =>
          match ← transferTile ops sent returned with
          | .error e => return .notTransferred e
          | .ok () =>
              match ← ops.finish (bytes / ops.beatBytes) with
              | .error e => return .notFinished e
              | .ok () =>
                  publish ops bytes
                  return .done

theorem accelRunTile_eq (bytes : ℕ) :
  accelRunTile ops bytes = TileExit.ret <$> runTile ops bytes
  := by
  simp only [runTile, accelRunTile, map_bind]
  apply bind_congr
  intro sent
  apply bind_congr
  intro returned
  apply bind_congr
  intro _
  apply bind_congr
  intro ret
  cases ret with
  | error e => rfl
  | ok =>
      simp only [map_bind]
      apply bind_congr
      intro ret
      cases ret with
      | error e => rfl
      | ok =>
          simp only [map_bind]
          apply bind_congr
          intro ret
          cases ret with
          | error e => rfl
          | ok =>
              simp only [map_bind]
              apply bind_congr
              intro ret
              cases ret with
              | error e => rfl
              | ok =>
                  simp only [map_bind]
                  rfl

/-! ### File operations -/

/-- How a write ends: with an error from before `accel_run_tile`, or where that left. -/
inductive WriteExit where
  | early (e : Errno)
  | ran (exit : TileExit)
  deriving DecidableEq, Repr

/-- The transfers have not been issued. -/
def WriteExit.BeforeIssue : WriteExit → Prop
  | .early _ => True
  | .ran exit => exit.BeforeIssue

/-- What the write of `count` bytes returns then. -/
def WriteExit.ret (count : ℕ) : WriteExit → WriteReturn
  | .early e => .refused e
  | .ran exit => .ran (exit.ret.map fun _ => count)

/-- `accel_write` with the lock held, returning how it ends. -/
def writeTile (bytes : List (BitVec 8)) : Kernel π WriteExit := do
  if !(← copyFromUser bytes) then return .early .EFAULT
  return .ran (← runTile ops bytes.length)

theorem accelWrite_eq (bytes : List (BitVec 8)) :
  accelWrite ops bytes = WriteExit.ret bytes.length <$> writeTile ops bytes
  := by
  simp only [writeTile, accelWrite, map_bind]
  apply bind_congr
  intro ok
  split
  · rfl
  · rw [map_bind, accelRunTile_eq]
    rw [bind_map_left]
    apply bind_congr
    intro exit
    cases exit with
    | refused e => rfl
    | notSubmitted e => rfl
    | notTransferred e => rfl
    | notFinished e => rfl
    | done => rfl

/-- How a call ends. -/
def FileCall.Exit : FileCall → Type
  | .write _ => WriteExit
  | .read _ _ => Except Errno (List (BitVec 8))

/-- Where a call left `accel_run_tile`, if it ran. -/
def FileCall.tileExit : (c : FileCall) → c.Exit → Option TileExit
  | .write _, .ran exit => some exit
  | .write _, .early _ => none
  | .read _ _, _ => none

/-- What a call returns then. -/
def FileCall.ret : (c : FileCall) → c.Exit → c.Val
  | .write bytes => WriteExit.ret bytes.length
  | .read _ _ => id

/-- Where a call leaves before it takes the lock. -/
def FileCall.earlyExit : (c : FileCall) → Option c.Exit
  | .write bytes => (accelWriteCheck ops bytes.length).map .early
  | .read _ _ => none

/-- Where a call leaves whose wait for the lock is given up. -/
def FileCall.interruptedExit : (c : FileCall) → Option c.Exit
  | .write _ => some (.early .ERESTARTSYS)
  | .read _ _ => some (.error .ERESTARTSYS)

/-- A call with the lock held, and where it leaves. -/
def FileCall.bodyExit : (c : FileCall) → Kernel π c.Exit
  | .write bytes => writeTile ops bytes
  | .read dst count => accelRead ops dst count

theorem FileCall.early_eq (c : FileCall) :
  c.early ops = (c.earlyExit ops).map c.ret
  := by
  cases c with
  | read dst count => rfl
  | write bytes =>
      rw [FileCall.early, FileCall.earlyExit]
      cases accelWriteCheck ops bytes.length with
      | none => rfl
      | some e => rfl

theorem FileCall.interrupted_eq (c : FileCall) :
  c.interrupted = c.interruptedExit.map c.ret
  := by
  cases c with
  | read dst count => rfl
  | write bytes => rfl

theorem FileCall.body_eq (c : FileCall) :
  c.body ops = c.ret <$> c.bodyExit ops
  := by
  cases c with
  | read dst count => exact (id_map _).symm
  | write bytes => apply accelWrite_eq

/-! ### The two layers -/

namespace SparseCnn

/-- The calls on the sparse CNN, returning how they end. -/
def exitApi : Api (KernelOp Result) KernelOp.Res FileCall FileCall.Exit where
  early c := c.earlyExit sparseCnnOps
  interrupted c := c.interruptedExit
  body c := c.bodyExit sparseCnnOps

theorem erases_exitApi :
  exitApi.Erases api FileCall.ret
  := by
  constructor
  · apply FileCall.early_eq
  · apply FileCall.interrupted_eq
  · apply FileCall.body_eq

end SparseCnn

namespace Relu

/-- How a call on the Leaky ReLU ends. -/
def Call.Exit : Call → Type
  | .file c => c.Exit
  | .slopeStore _ => Except Errno Unit

/-- Where a call left `accel_run_tile`, if it ran. -/
def Call.tileExit : (c : Call) → c.Exit → Option TileExit
  | .file c => c.tileExit
  | .slopeStore _ => fun _ => none

/-- What the call returns then. -/
def Call.ret : (c : Call) → c.Exit → c.Val
  | .file c => c.ret
  | .slopeStore _ => id

/-- The calls on the Leaky ReLU, returning how they end. -/
def exitApi : Api (KernelOp Unit) KernelOp.Res Call Call.Exit where
  early
    | .file c => c.earlyExit reluOps
    | .slopeStore slope => (slopeStoreCheck slope).map .error
  interrupted
    | .file c => c.interruptedExit
    | .slopeStore _ => none
  body
    | .file c => c.bodyExit reluOps
    | .slopeStore slope => slopeStore slope

theorem erases_exitApi :
  exitApi.Erases api Call.ret
  := by
  constructor
  · intro c
    cases c with
    | file c => apply FileCall.early_eq
    | slopeStore slope =>
        change _ = Option.map id _
        rw [Option.map_id]
        rfl
  · intro c
    cases c with
    | file c => apply FileCall.interrupted_eq
    | slopeStore slope => rfl
  · intro c
    cases c with
    | file c => apply FileCall.body_eq
    | slopeStore slope => exact (id_map _).symm

end Relu

end Driver
