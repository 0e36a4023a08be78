import Mathlib.Logic.Function.Basic
import ZynqRtlFlow.Board.Accelerator
import ZynqRtlFlow.Board.Dma
import ZynqRtlFlow.Program.Monitor

/-!
# The board

An accelerator with the bus to its registers, the two DMA channels at its streams and the
memory of its driver.  In a clock cycle the bus, the DMA and the other masters of the
AXI4-Lite port do as they like within their protocols; between cycles the DMA may report
a descriptor done.  On this platform the driver's operations run.  A register read is the
cycle in which its address is accepted; with the lock held it is in order with the writes
posted before it, which is assumed of the kernel and the bus (`InOrder`).
-/

open AxiLite Driver

namespace Board

/-- The memory of the driver: the coherent buffers of its channels, its own data, the
completions signalled and the number of completions declared. -/
structure Mem (π : Type) where
  txBuf : ℕ → BitVec 8
  rxBuf : ℕ → BitVec 8
  data : AccelData π
  completed : List ℕ
  declared : ℕ

/-- The state of the board. -/
structure State (A : Accelerator) (π : Type) where
  hw : A.State
  bus : Bus
  tx : Channel
  rx : Channel
  mem : Mem π

/-- What is left open in a cycle: what the masters of the AXI4-Lite port would do, and
whether the DMA presents its next beat and is ready to take one. -/
structure Env where
  axil : AxiLite.Inputs
  valid : Bool
  ready : Bool

/-- The bus presents what it has, nothing is read, and every response is taken. -/
def idleReads : AxiLite.Inputs := ⟨0, true, 0, 0, true, true, 0, false, true⟩

/-- A cycle in which the bus presents what it has and every beat that can moves. -/
def eager : Env := ⟨idleReads, true, true⟩

/-- A cycle in which the bus presents what it has and no beat moves. -/
def drain : Env := ⟨idleReads, false, false⟩

/-- The moves of the hardware: a clock cycle, or the report of a descriptor done. -/
inductive Move where
  | cycle (e : Env)
  | complete (chan : Chan)

variable {A : Accelerator} {π : Type}

/-- Beat `k` of a buffer. -/
def beatAt (A : Accelerator) (buf : ℕ → BitVec 8) (k : ℕ) : List (BitVec 8) :=
  (List.range A.beatBytes).map fun b => buf (k * A.beatBytes + b)

/-- The outcome of a cycle: the `tx` channel presents the next beat of its buffer only
while it has one, and the `rx` channel takes beats only while it has room. -/
def outcome (e : Env) (σ : State A π) : Outcome A.State :=
  A.cycle (σ.bus.drive e.axil) (e.valid && σ.tx.pending A.beatBytes)
    (beatAt A σ.mem.txBuf σ.tx.moved) (σ.tx.atLast A.beatBytes)
    (e.ready && σ.rx.pending A.beatBytes) σ.hw

/-- The `rx` channel after a cycle that hands over a beat or none. -/
def rxNext (rx : Channel) : Option (BitVec 8 × Bool) → Channel
  | none => rx
  | some (_, last) => rx.advance last

/-- The memory after a cycle that hands over a beat or none. -/
def memNext (rx : Channel) (mem : Mem π) : Option (BitVec 8 × Bool) → Mem π
  | none => mem
  | some (byte, _) => { mem with rxBuf := Function.update mem.rxBuf rx.moved byte }

/-- The board after a clock cycle. -/
def cycle (e : Env) (σ : State A π) : State A π where
  hw := (outcome e σ).next
  bus := σ.bus.cycle (A.write σ.hw) (σ.bus.drive e.axil)
  tx := if (outcome e σ).accepted then σ.tx.advance false else σ.tx
  rx := rxNext σ.rx (outcome e σ).handed
  mem := memNext σ.rx σ.mem (outcome e σ).handed

/-- A completion is signalled. -/
def Mem.complete (mem : Mem π) (done : ℕ) : Mem π :=
  { mem with completed := done :: mem.completed }

/-- A channel of the DMA. -/
def chan (σ : State A π) : Chan → Channel
  | .tx => σ.tx
  | .rx => σ.rx

/-- The board with a channel of the DMA replaced. -/
def setChan (σ : State A π) (ch : Channel) : Chan → State A π
  | .tx => { σ with tx := ch }
  | .rx => { σ with rx := ch }

/-- The board after the DMA has reported the descriptor at the head of a channel done, if
it has no beat left to move. -/
def complete (c : Chan) (σ : State A π) : State A π :=
  match (chan σ c).issued with
  | [] => σ
  | desc :: _ =>
      if (chan σ c).pending A.beatBytes then σ
      else { setChan σ (chan σ c).retire c with mem := σ.mem.complete desc.done }

/-- The board after a move of the hardware. -/
def move : Move → State A π → State A π
  | .cycle e => cycle e
  | .complete c => complete c

/-! ### The driver's operations -/

/-- What is left open in an operation: the cycle a register read takes, whether something
that can fail fails and how, what a failed copy leaves in the buffer, and a number of
polls. -/
structure Choice where
  env : Env
  ok : Bool
  err : Errno
  buf : ℕ → BitVec 8
  polls : ℕ

/-- The cycle in which the address of a register read is presented. -/
def readEnv (e : Env) (reg : BitVec 8) : Env :=
  { e with axil := { e.axil with arvalid := true, araddr := reg } }

/-- A buffer with its first bytes overwritten. -/
def fill (buf : ℕ → BitVec 8) (bytes : List (BitVec 8)) : ℕ → BitVec 8 :=
  fun k => bytes.getD k (buf k)

/-- A register read, if the accelerator accepts its address: the word found, and the board
after that cycle. -/
def readRegister (reg : BitVec 8) (e : Env) (σ : State A π) : Option (BitVec 32 × State A π) :=
  if (A.read σ.hw).arready then
    some ((A.read (cycle (readEnv e reg) σ).hw).rdataQ, cycle (readEnv e reg) σ)
  else none

/-- The order of register accesses assumed of the kernel and the bus where the lock is held:
by the cycle in which the address of a read is accepted, all writes posted have reached the
accelerator. -/
def InOrder (σ : State A π) : Prop :=
  σ.bus.posted = []

instance (σ : State A π) : Decidable (InOrder σ) :=
  inferInstanceAs (Decidable (σ.bus.posted = []))

/-- An operation performed with the lock held. -/
def exec : (o : KernelOp π) → Choice → State A π → Option (o.Res × State A π)
  | .readl reg, c, σ => (readRegister reg c.env σ).filter fun found => InOrder found.2
  | .writel word reg, _, σ => some ((), { σ with bus := σ.bus.post reg word })
  | .declareCompletion, _, σ =>
      some (σ.mem.declared, { σ with mem := { σ.mem with declared := σ.mem.declared + 1 } })
  | .prepSlaveSingle _ bytes done, c, σ => some (if c.ok then some ⟨bytes, done⟩ else none, σ)
  | .submit ch desc, c, σ =>
      if c.ok then some (none, setChan σ ((chan σ ch).submit desc) ch) else some (some c.err, σ)
  | .issuePending ch, _, σ => some ((), setChan σ (chan σ ch).issuePending ch)
  | .waitForCompletion done, _, σ => some (decide (done ∈ σ.mem.completed), σ)
  | .terminateSync ch, _, σ => some ((), setChan σ .empty ch)
  | .copyFromUser bytes, c, σ =>
      some (c.ok, { σ with mem := { σ.mem with
        txBuf := if c.ok then fill σ.mem.txBuf bytes else c.buf } })
  | .copyToUser dst bytes, _, σ => some (decide (bytes.length ≤ dst), σ)
  | .copyRxToUser dst bytes, _, σ =>
      some (if bytes ≤ dst then some ((List.range bytes).map σ.mem.rxBuf) else none, σ)
  | .pollsLeft, c, σ => some (c.polls, σ)
  | .load, _, σ => some (σ.mem.data, σ)
  | .store data, _, σ => some ((), { σ with mem := { σ.mem with data := data } })

/-- An operation performed without the lock: nothing orders a read after the writes of
others. -/
def execUnlocked : (o : KernelOp π) → Choice → State A π → Option (o.Res × State A π)
  | .readl reg, c, σ => readRegister reg c.env σ
  | o, c, σ => exec o c σ

/-- The board as a platform for the driver of an accelerator. -/
def platform (A : Accelerator) (π : Type) : Platform (KernelOp π) KernelOp.Res where
  State := State A π
  Move := Move
  move := move
  Choice := Choice
  exec := exec

/-- An assertion is stable if a clock cycle and the report of a descriptor done keep it. -/
theorem stable_of {I : State A π → Prop} (hcycle : ∀ e σ, I σ → I (cycle e σ))
    (hcomplete : ∀ c σ, I σ → I (complete c σ)) :
  (platform A π).Stable I
  := by
  rintro (e | c) σ h
  · apply hcycle e σ h
  · apply hcomplete c σ h

/-- The board before the first call: the accelerator in a state `hw`, nothing posted, no
descriptor, and whatever the buffers hold. -/
def start (hw : A.State) (txBuf rxBuf : ℕ → BitVec 8) (priv : π) : State A π where
  hw := hw
  bus := .empty
  tx := .empty
  rx := .empty
  mem := ⟨txBuf, rxBuf, ⟨0, priv⟩, [], 0⟩

/-- Nothing fails, and no poll is made before the time is up. -/
def willing : Choice := ⟨eager, true, .EBUSY, fun _ => 0, 0⟩

/-- A call made while the lock is free, on a board that never stalls and where nothing
fails: `n` operations, with the time for each to take effect. -/
def promptly {Call : Type} (c : Call) (n : ℕ) : List (Api.Event (platform A π) Call) :=
  let operation : List (Api.Event (platform A π) Call) :=
    [.exec willing, .move (.cycle eager), .move (.cycle eager), .move (.complete .tx),
      .move (.complete .rx)]
  [.invoke c, .acquire 0] ++ (List.replicate n operation).flatten ++ [.release]

end Board
