import Mathlib.Logic.Function.Iterate
import ZynqRtlFlow.Board.Frame
import ZynqRtlFlow.Program.Progress

/-!
# No call to the driver is stuck

A register read waits for the writes posted before it and for a free read channel.  A few
cycles in which the bus presents what it has and takes every response bring both about,
whatever the accelerator is doing; no other operation of the driver waits for anything.
So from every point of every schedule all calls made can return, though no beat moves, the
DMA completes nothing and whatever can fail does.
-/

open AxiLite Driver

namespace Board

variable {A : Accelerator} {π : Type}

/-- The read channel of the accelerator is the AXI4-Lite slave's. -/
def ReadsOwn (A : Accelerator) : Prop :=
  ∀ axil valid beat last ready s, ∃ word,
    A.read (A.cycle axil valid beat last ready s).next = (A.read s).posedge axil true word

/-- The bus and the write channel agree. -/
def Agrees (σ : State A π) : Prop :=
  σ.bus.Coherent (A.write σ.hw)

theorem write_cycle (e : Env) (σ : State A π) :
  A.write (cycle e σ).hw = (A.write σ.hw).posedge (σ.bus.drive e.axil) true
  := A.write_cycle _ _ _ _ _ _

theorem Agrees.cycle {σ : State A π} (h : Agrees σ) (e : Env) :
  Agrees (cycle e σ)
  := by
  rw [Agrees, write_cycle]
  apply Bus.Coherent.cycle h

theorem stable_agrees :
  (platform A π).Stable Agrees
  := by
  apply stable_of
  · intro e σ h
    apply h.cycle e
  · intro c σ h
    obtain ⟨hhw, hbus⟩ := complete_hw_bus c σ
    rw [Agrees, hhw, hbus]
    apply h

theorem Agrees.exec {o : KernelOp π} {c : Choice} {σ σ' : State A π} {x : o.Res} (h : Agrees σ)
    (hx : exec o c σ = some (x, σ')) :
  Agrees σ'
  := by
  have hsame : o.NoRegister → Agrees σ' := by
    intro hregister
    obtain ⟨hhw, hbus⟩ := exec_hw_bus hregister hx
    rw [Agrees, hhw, hbus]
    apply h
  cases o with
  | readl reg =>
      obtain ⟨-, rfl, -⟩ := exec_readl hx
      apply h.cycle
  | writel word reg =>
      obtain rfl := exec_writel hx
      apply Bus.Coherent.post h
  | _ => apply hsame trivial

/-! ### A register read -/

/-- How many cycles the writes posted can still take. -/
def backlog (w : WriteChannel) (b : Bus) : ℕ :=
  2 * b.posted.length + if w.bvalidQ then 1 else 0

/-- A response is taken, or the oldest write posted lands. -/
theorem backlog_drain {w : WriteChannel} {b : Bus} (h : b.Coherent w) (hposted : b.posted ≠ []) :
  backlog (w.posedge (b.drive drain.axil) true) (b.cycle w (b.drive drain.axil)) < backlog w b
  := by
  obtain ⟨x, rest, hb⟩ := List.exists_cons_of_ne_nil hposted
  have hvalid : (b.drive drain.axil).awvalid = !b.awSent ∧ (b.drive drain.axil).wvalid = !b.wSent
      ∧ (b.drive drain.axil).bready = true := by
    rw [Bus.drive, hb]
    exact ⟨rfl, rfl, rfl⟩
  obtain ⟨haw, hw, hbready⟩ := hvalid
  have hlen : (b.cycle w (b.drive drain.axil)).posted.length
      = if w.wrCommit (b.drive drain.axil) then rest.length else rest.length + 1 := by
    split
    · rename_i hcommit
      have hnext := (h.cycle_of_commit hcommit).2.2
      rw [hb] at hnext
      rw [(List.cons.inj hnext).2]
    · rename_i hcommit
      have hnext := (h.cycle_of_wait (Bool.eq_false_iff.mpr hcommit)).2
      rw [hb] at hnext
      rw [hnext]
      rfl
  rw [backlog, backlog, hlen, hb, WriteChannel.bvalidQ_posedge, hbready, Bool.and_true,
    List.length_cons]
  cases hbvalid : w.bvalidQ with
  | true =>
      simp only [if_true, Bool.false_eq_true, if_false]
      split
      · omega
      · omega
  | false =>
      have hcommit : w.wrCommit (b.drive drain.axil) = true := by
        rw [h.wrCommit_eq, WriteChannel.awFire, WriteChannel.wFire, haw, hw,
          WriteChannel.awready, WriteChannel.wready, hbvalid, ← h.awSent, ← h.wSent]
        cases b.awSent <;> cases b.wSent <;> rfl
      simp only [hcommit, if_true, Bool.false_eq_true, if_false]
      omega

theorem posted_drain {σ : State A π} (hposted : σ.bus.posted = []) (e : Env) :
  (cycle e σ).bus.posted = []
  := by
  change (σ.bus.cycle (A.write σ.hw) (σ.bus.drive e.axil)).posted = []
  rw [Bus.cycle]
  split
  · rw [hposted]
    rfl
  · apply hposted

/-- A word that waits is taken. -/
theorem arready_drain (hA : ReadsOwn A) {σ : State A π} :
  (A.read (cycle drain σ).hw).arready = true
  := by
  obtain ⟨harvalid, -⟩ := σ.bus.drive_read drain.axil
  have hrready : (σ.bus.drive drain.axil).rready = true := by
    rw [Bus.drive]
    split
    · rfl
    · rfl
  obtain ⟨word, hword⟩ := hA (σ.bus.drive drain.axil) (drain.valid && σ.tx.pending A.beatBytes)
    (beatAt A σ.mem.txBuf σ.tx.moved) (σ.tx.atLast A.beatBytes)
    (drain.ready && σ.rx.pending A.beatBytes) σ.hw
  change (A.read (A.cycle _ _ _ _ _ σ.hw).next).arready = true
  rw [hword, ReadChannel.arready, ReadChannel.posedge, ReadChannel.arFire, harvalid, hrready]
  cases hr : (A.read σ.hw).rvalidQ with
  | false => simp [drain, idleReads, hr]
  | true => simp [drain, idleReads]

/-- Some cycles take every write posted to the accelerator. -/
theorem drained {σ : State A π} (h : Agrees σ) :
  ∃ n, ((cycle drain)^[n] σ).bus.posted = []
  := by
  induction hn : backlog (A.write σ.hw) σ.bus using Nat.strongRecOn generalizing σ with
  | ind b ih =>
      by_cases hposted : σ.bus.posted = []
      · use 0
        apply hposted
      · have hlt : backlog (A.write (cycle drain σ).hw) (cycle drain σ).bus < b := by
          rw [write_cycle, ← hn]
          apply backlog_drain h hposted
        obtain ⟨n, hdrained⟩ := ih _ hlt (h.cycle drain) rfl
        use n + 1
        apply hdrained

/-- One more cycle frees the read channel. -/
theorem read_performed (hA : ReadsOwn A) {σ : State A π} (h : Agrees σ) (reg : BitVec 8) :
  ∃ n, ∀ ch, ∃ r, exec (.readl reg) ch ((cycle drain)^[n] σ) = some r
  := by
  obtain ⟨n, hposted⟩ := drained h
  use n + 1
  intro ch
  refine ⟨_, exec_readl_of ?_ ?_⟩
  · rw [Function.iterate_succ_apply']
    apply arready_drain hA
  · rw [Function.iterate_succ_apply']
    apply posted_drain (posted_drain hposted drain)

theorem moves_replicate (e : Env) (n : ℕ) (σ : State A π) :
  (platform A π).moves (List.replicate n (Move.cycle e)) σ = (cycle e)^[n] σ
  := by
  induction n generalizing σ with
  | zero => rfl
  | succ n ih => apply ih

/-! ### Every operation -/

/-- Cycles of the bus alone bring about whatever operation the driver waits for. -/
theorem unblocked (hA : ReadsOwn A) :
  (platform A π).Unblocked Agrees (fun e => e = .cycle drain)
  := by
  constructor
  · apply stable_agrees
  · intro o c σ x σ' h hx
    apply Agrees.exec h hx
  · intro o σ h
    obtain ⟨n, hn⟩ : ∃ n, ∀ ch, ∃ r, exec o ch ((cycle drain)^[n] σ) = some r := by
      cases o with
      | readl reg => apply read_performed hA h
      | submit c desc =>
          use 0
          intro ch
          rw [exec]
          split
          · exact ⟨_, rfl⟩
          · exact ⟨_, rfl⟩
      | _ => exact ⟨0, fun ch => ⟨_, rfl⟩⟩
    use List.replicate n (.cycle drain)
    constructor
    · intro e he
      apply List.eq_of_mem_replicate he
    · intro ch
      obtain ⟨r, hr⟩ := hn ch
      use r
      apply (congrArg (exec o ch) (moves_replicate drain n σ)).trans hr

/-! ### Every call -/

/-- From every point of every schedule from the state `σ`, cycles of the bus are enough for
all calls made to return, each once and none interrupted, whatever the kernel answers to
each operation, and whatever it makes its answers depend on. -/
def AllReturn {Call : Type} {Val : Call → Type} (api : Api (KernelOp π) KernelOp.Res Call Val)
    (σ : State A π) : Prop :=
  ∀ (answers : Api.Answers (platform A π) Call) (es : List (Api.Event (platform A π) Call)),
    ∃ more : List (Api.Event (platform A π) Call),
      Api.Awaits (fun e : Move => e = .cycle drain) answers es more
        ∧ (api.schedule (P := platform A π) σ (es ++ more)).running = none
        ∧ (api.schedule (P := platform A π) σ (es ++ more)).waiting = []
        ∧ ((api.schedule (P := platform A π) σ (es ++ more)).log.map Sigma.fst).Perm
          (Api.called es)

/-- Of a driver on an accelerator whose reads are the slave's. -/
theorem allReturn_of {Call : Type} {Val : Call → Type} (hA : ReadsOwn A)
    (api : Api (KernelOp π) KernelOp.Res Call Val) {σ : State A π} (h : Agrees σ) :
  AllReturn api σ
  := by
  intro answers es
  apply Api.all_return (unblocked hA) h answers es

/-- No call to either driver is ever stuck. -/
theorem driver_calls_return (s : ReluAxi.State) (i : ReluAxi.Inputs) (s' : SparseCnnAxi.State)
    (i' : SparseCnnAxi.Inputs) (txBuf rxBuf : ℕ → BitVec 8) :
  AllReturn Driver.Relu.api
      (start (A := ReluAxi.accelerator) (ReluAxi.reset s i) txBuf rxBuf ())
    ∧ AllReturn Driver.SparseCnn.api
      (start (A := SparseCnnAxi.accelerator) (SparseCnnAxi.reset s' i') txBuf rxBuf ⟨0, 0⟩)
  := by
  constructor
  · apply allReturn_of
    · intro axil valid beat last ready s
      exact ⟨_, rfl⟩
    · apply Bus.coherent_reset _ i.axil
  · apply allReturn_of
    · intro axil valid beat last ready s
      exact ⟨_, rfl⟩
    · apply Bus.coherent_reset _ i'.axil

end Board
