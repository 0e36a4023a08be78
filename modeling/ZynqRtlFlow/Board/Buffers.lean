import ZynqRtlFlow.Board.Frame
import ZynqRtlFlow.Rtl.Ports

/-!
# Nothing leaves the buffers

The coherent buffers hold `ACCEL_MAX_BEATS` beats.  Every length the driver passes on is
that of the tile of the call at work, and every beat the DMA moves lies in a descriptor
prepared with such a length, so neither the driver, nor the DMA, nor an accelerator that
hands over more beats than it was given touches memory past them; nor does a read write
past what its caller asked for.
-/

open AxiLite

namespace Driver

open Prog

variable {π : Type}

/-- The length of a tile: some whole beats, and no more than the buffers hold. -/
structure TileLength (beatBytes bytes : ℕ) : Prop where
  pos : 0 < bytes
  whole : bytes % beatBytes = 0
  fits : bytes ≤ accelMaxBeats * beatBytes

/-- The results received are none or a tile's. -/
def ReceivedTile (beatBytes received : ℕ) : Prop :=
  received = 0 ∨ TileLength beatBytes received

/-- What a call is given the length of. -/
def FileCall.count : FileCall → ℕ
  | .write bytes => bytes.length
  | .read _ count => count

/-- What a call on the Leaky ReLU is given the length of. -/
def Relu.Call.count : Relu.Call → ℕ
  | .file c => c.count
  | .slopeStore _ => 0

/-- The lengths an operation of a call of length `count` may be given. -/
def KernelOp.InBounds (beatBytes count : ℕ) : KernelOp π → Prop
  | .prepSlaveSingle _ bytes _ => bytes = count ∧ TileLength beatBytes bytes
  | .submit _ desc => desc.bytes = count ∧ TileLength beatBytes desc.bytes
  | .copyFromUser tile => tile.length = count ∧ TileLength beatBytes tile.length
  | .copyToUser _ bytes => bytes.length ≤ count
  | .copyRxToUser _ bytes => bytes ≤ count ∧ TileLength beatBytes bytes
  | .store data => ReceivedTile beatBytes data.received
  | _ => True

/-- What the results of operations say of lengths. -/
def KernelOp.Returns (beatBytes : ℕ) : (o : KernelOp π) → o.Res → Prop
  | .prepSlaveSingle _ bytes _ => fun desc : Option Desc => ∀ d, desc = some d → d.bytes = bytes
  | .load => fun data : AccelData π => ReceivedTile beatBytes data.received
  | _ => fun _ => True

/-! ### The driver -/

/-- The operations that reach registers and the time. -/
def KernelOp.Registers : KernelOp π → Prop
  | .readl _ | .writel _ _ | .pollsLeft => True
  | _ => False

section Layers

variable {beatBytes count : ℕ}

theorem inBounds_of_registers {α : Type} {p : Kernel π α} (hp : p.Performs KernelOp.Registers) :
  p.Honors (KernelOp.Returns beatBytes) (KernelOp.InBounds beatBytes count) fun _ => True
  := by
  apply honors_of_performs
  apply hp.mono
  intro o ho
  cases o <;> trivial

theorem registers_readlPollTimeout (reg : BitVec 8) (cond : BitVec 32 → Bool) :
  (readlPollTimeout reg cond : Kernel π _).Performs KernelOp.Registers
  := by
  apply performs_bind (performs_perform trivial)
  intro polls
  apply performs_pollLoop trivial

theorem inBounds_load :
  (load : Kernel π _).Honors (KernelOp.Returns beatBytes) (KernelOp.InBounds beatBytes count)
    fun data => ReceivedTile beatBytes data.received
  := honors_perform trivial

theorem inBounds_store {data : AccelData π} (h : ReceivedTile beatBytes data.received) :
  (store data).Honors (KernelOp.Returns beatBytes) (KernelOp.InBounds beatBytes count)
    fun _ => True
  := (honors_perform (o := KernelOp.store data) h).trivial

theorem inBounds_reluOps :
  Relu.reluOps.Answers (KernelOp.Returns beatBytes) (KernelOp.InBounds beatBytes count)
  := by
  constructor
  · apply inBounds_of_registers
    apply performs_refuseBusy trivial
  · apply inBounds_of_registers
    apply performs_perform trivial
  · intro beats
    apply inBounds_of_registers
    apply performs_bind (registers_readlPollTimeout _ _)
    intro ret
    cases ret with
    | error e => trivial
    | ok status =>
        apply performs_bind (performs_perform trivial)
        intro counted
        split
        · trivial
        · trivial

/-- The Leaky ReLU's reads copy out the results received, if there is room for them. -/
theorem inBounds_reluResult (dst : UserPtr) :
  (Relu.reluResult dst count).Honors (KernelOp.Returns beatBytes)
    (KernelOp.InBounds beatBytes count) fun _ => True
  := by
  apply honors_bind inBounds_load
  rintro data (hnone | htile)
  · rw [if_pos hnone]
    trivial
  · split
    · trivial
    · split
      · trivial
      · rename_i hroom
        apply honors_bind (honors_perform ⟨Nat.le_of_not_lt hroom, htile⟩)
        intro copied _
        cases copied with
        | none => trivial
        | some bytes => trivial

theorem inBounds_sparseCnnOps :
  SparseCnn.sparseCnnOps.Answers (KernelOp.Returns beatBytes) (KernelOp.InBounds beatBytes count)
  := by
  constructor
  · apply inBounds_of_registers
    apply performs_refuseBusy trivial
  · apply inBounds_of_registers
    apply performs_perform trivial
  · intro beats
    apply honors_bind (inBounds_of_registers (registers_readlPollTimeout _ _))
    intro ret _
    cases ret with
    | error e => trivial
    | ok status =>
        have hlatch : SparseCnn.latchResult.Honors (KernelOp.Returns beatBytes)
            (KernelOp.InBounds beatBytes count) fun _ => True := by
          apply honors_bind (honors_perform trivial)
          intro acc _
          apply honors_bind inBounds_load
          intro data hdata
          apply honors_bind (inBounds_store hdata)
          intro _ _
          apply honors_bind (honors_perform trivial)
          intro skip _
          apply honors_bind inBounds_load
          intro data hdata
          apply inBounds_store hdata
        apply honors_bind hlatch
        intro _ _
        trivial

theorem length_resultBytes (r : SparseCnn.Result) :
  r.bytes.length = SparseCnn.Result.size
  := by
  simp [SparseCnn.Result.bytes, SparseCnn.leBytes, SparseCnn.Result.size]

/-- The sparse CNN's reads copy out eight bytes, if there is room for them. -/
theorem inBounds_sparseCnnResult (dst : UserPtr) :
  (SparseCnn.sparseCnnResult dst count).Honors (KernelOp.Returns beatBytes)
    (KernelOp.InBounds beatBytes count) fun _ => True
  := by
  apply honors_bind inBounds_load
  intro data _
  split
  · trivial
  · rename_i hroom
    have hfits : data.priv.bytes.length ≤ count := by
      rw [length_resultBytes]
      apply Nat.le_of_not_lt hroom
    apply honors_bind (honors_perform (o := KernelOp.copyToUser dst data.priv.bytes) hfits)
    intro ok _
    split
    · trivial
    · trivial

end Layers

/-! ### The calls -/

theorem carried_inBounds {beatBytes bytes : ℕ} (htile : TileLength beatBytes bytes) :
  Carried (KernelOp.Returns (π := π) beatBytes) (KernelOp.InBounds beatBytes bytes) bytes
  := by
  constructor
  · intro o ho
    cases o <;> trivial
  · intro chan done
    exact ⟨rfl, htile⟩
  · intro chan done desc hdesc
    have hbytes : desc.bytes = bytes := hdesc desc rfl
    have hlength : TileLength beatBytes desc.bytes := by
      rw [hbytes]
      apply htile
    exact ⟨hbytes, hlength⟩
  · rintro data n - (rfl | rfl)
    · apply Or.inl rfl
    · apply Or.inr htile

/-- A file operation that was not refused gives lengths in bounds only, if the register
layer does. -/
theorem inBounds_body {ops : AccelOps π}
    (hops : ∀ count, ops.Answers (KernelOp.Returns ops.beatBytes)
      (KernelOp.InBounds ops.beatBytes count))
    (hresult : ∀ dst count, (ops.result dst count).Honors (KernelOp.Returns ops.beatBytes)
      (KernelOp.InBounds ops.beatBytes count) fun _ => True)
    {c : FileCall} (hc : c.early ops = none) :
  (c.body ops).Honors (KernelOp.Returns ops.beatBytes) (KernelOp.InBounds ops.beatBytes c.count)
    fun _ => True
  := by
  cases c with
  | write tile =>
      have hcheck : accelWriteCheck ops tile.length = none := Option.map_eq_none_iff.mp hc
      obtain ⟨hpos, hwhole, hfits⟩ := of_accelWriteCheck ops hcheck
      have htile : TileLength ops.beatBytes tile.length := ⟨hpos, hwhole, hfits⟩
      apply honors_accelWrite (carried_inBounds htile) (hops _) rfl
      exact ⟨rfl, htile⟩
  | read dst count => apply hresult

end Driver

/-! ### The board -/

namespace Board

open Driver

variable {A : Accelerator} {π : Type}

/-- A channel whose descriptors are tiles, and which has moved no beat past the one at the
head. -/
structure WithinTiles (beatBytes : ℕ) (ch : Channel) : Prop where
  submitted : ∀ d ∈ ch.submitted, TileLength beatBytes d.bytes
  issued : ∀ d ∈ ch.issued, TileLength beatBytes d.bytes
  moved : ch.moved = 0 ∨ ∃ d rest, ch.issued = d :: rest ∧ ch.moved * beatBytes ≤ d.bytes

namespace WithinTiles

variable {beatBytes : ℕ} {ch : Channel}

theorem empty :
  WithinTiles beatBytes .empty
  := by
  constructor
  · intro d hd
    cases hd
  · intro d hd
    cases hd
  · left
    rfl

variable (h : WithinTiles beatBytes ch)

include h

/-- The beat a channel moves next lies in the descriptor at its head. -/
theorem next (hp : ch.pending beatBytes = true) :
  ∃ d rest, ch.issued = d :: rest ∧ TileLength beatBytes d.bytes
    ∧ (ch.moved + 1) * beatBytes ≤ d.bytes
  := by
  rw [Channel.pending] at hp
  split at hp
  · cases hp
  · rename_i d rest hissued
    have htile : TileLength beatBytes d.bytes := by
      apply h.issued d
      rw [hissued]
      apply List.mem_cons_self
    use d, rest, hissued, htile
    rw [Bool.and_eq_true, decide_eq_true_eq] at hp
    obtain ⟨k, hk⟩ := Nat.dvd_of_mod_eq_zero htile.whole
    rw [hk, Nat.mul_comm beatBytes k] at hp ⊢
    apply Nat.mul_le_mul_right
    apply Nat.lt_of_mul_lt_mul_right hp.2

/-- It lies in the buffer. -/
theorem next_fits (hp : ch.pending beatBytes = true) :
  0 < beatBytes ∧ (ch.moved + 1) * beatBytes ≤ accelMaxBeats * beatBytes
  := by
  obtain ⟨d, rest, -, htile, hnext⟩ := h.next hp
  have hfits := Nat.le_trans hnext htile.fits
  constructor
  · apply Nat.pos_of_mul_pos_left (a := accelMaxBeats)
    apply Nat.lt_of_lt_of_le htile.pos htile.fits
  · apply hfits

theorem advance (hp : ch.pending beatBytes = true) (last : Bool) :
  WithinTiles beatBytes (ch.advance last)
  := by
  use h.submitted, h.issued
  obtain ⟨d, rest, hissued, -, hnext⟩ := h.next hp
  right
  use d, rest, hissued, hnext

theorem retire :
  WithinTiles beatBytes ch.retire
  := by
  use h.submitted
  · intro d hd
    apply h.issued d (List.mem_of_mem_tail hd)
  · left
    rfl

theorem submit {desc : Desc} (hdesc : TileLength beatBytes desc.bytes) :
  WithinTiles beatBytes (ch.submit desc)
  := by
  use ?_, h.issued, h.moved
  intro d hd
  obtain hd | hd := List.mem_append.mp hd
  · apply h.submitted d hd
  · obtain rfl := List.mem_singleton.mp hd
    apply hdesc

theorem issuePending :
  WithinTiles beatBytes ch.issuePending
  := by
  constructor
  · intro d hd
    cases hd
  · intro d hd
    obtain hd | hd := List.mem_append.mp hd
    · apply h.issued d hd
    · apply h.submitted d hd
  · obtain hzero | ⟨d, rest, hissued, hmoved⟩ := h.moved
    · left
      apply hzero
    · right
      use d, rest ++ ch.submitted
      rw [Channel.issuePending, hissued]
      use rfl

end WithinTiles

/-- Both channels keep within tiles, the results received are none or a tile's, and the
receive buffer holds past its end what was there before. -/
structure WithinBuffers (rxBuf : ℕ → BitVec 8) (σ : State A π) : Prop where
  tx : WithinTiles A.beatBytes σ.tx
  rx : WithinTiles A.beatBytes σ.rx
  received : ReceivedTile A.beatBytes σ.mem.data.received
  beyond : ∀ k, accelMaxBeats * A.beatBytes ≤ k → σ.mem.rxBuf k = rxBuf k

namespace WithinBuffers

variable {rxBuf : ℕ → BitVec 8} {σ : State A π} (h : WithinBuffers rxBuf σ)

include h

theorem chan (c : Chan) :
  WithinTiles A.beatBytes (chan σ c)
  := by
  cases c with
  | tx => apply h.tx
  | rx => apply h.rx

theorem setChan {ch : Channel} (hch : WithinTiles A.beatBytes ch) (c : Chan) :
  WithinBuffers rxBuf (setChan σ ch c)
  := by
  cases c with
  | tx => use hch, h.rx, h.received, h.beyond
  | rx => use h.tx, hch, h.received, h.beyond

/-- A change of the memory that leaves the results received and the receive buffer as they
are. -/
theorem mem {m : Mem π} (hreceived : ReceivedTile A.beatBytes m.data.received)
    (hbuf : m.rxBuf = σ.mem.rxBuf) :
  WithinBuffers rxBuf { σ with mem := m }
  := by
  use h.tx, h.rx, hreceived
  intro k hk
  rw [hbuf]
  apply h.beyond k hk

/-- A beat is accepted only if the `tx` channel had one to present. -/
theorem tx_cycle (e : Env) :
  WithinTiles A.beatBytes (cycle e σ).tx
  := by
  change WithinTiles A.beatBytes (if (outcome e σ).accepted then _ else _)
  cases hp : σ.tx.pending A.beatBytes with
  | true =>
      split
      · apply h.tx.advance hp
      · apply h.tx
  | false =>
      have haccepted : (outcome e σ).accepted = false := by
        rw [outcome, hp, Bool.and_false]
        apply A.accepted_cycle
      rw [haccepted, if_neg Bool.false_ne_true]
      apply h.tx

/-- A beat is handed over only if the `rx` channel has room for it. -/
theorem rx_cycle (e : Env) :
  WithinTiles A.beatBytes (cycle e σ).rx
    ∧ ∀ k, accelMaxBeats * A.beatBytes ≤ k → (cycle e σ).mem.rxBuf k = rxBuf k
  := by
  change WithinTiles A.beatBytes (rxNext σ.rx (outcome e σ).handed)
    ∧ ∀ k, _ ≤ k → (memNext σ.rx σ.mem (outcome e σ).handed).rxBuf k = _
  cases hhanded : (outcome e σ).handed with
  | none => use h.rx, h.beyond
  | some beat =>
      have hp : σ.rx.pending A.beatBytes = true := by
        cases hp : σ.rx.pending A.beatBytes with
        | true => rfl
        | false =>
            rw [outcome, hp, Bool.and_false, A.handed_cycle] at hhanded
            cases hhanded
      use h.rx.advance hp beat.2
      intro k hk
      obtain ⟨hpos, hfits⟩ := h.rx.next_fits hp
      have hmoved : σ.rx.moved + 1 ≤ (σ.rx.moved + 1) * A.beatBytes := Nat.le_mul_of_pos_right _ hpos
      have hne : k ≠ σ.rx.moved := by omega
      apply (Function.update_of_ne hne _ _).trans (h.beyond k hk)

theorem cycle (e : Env) :
  WithinBuffers rxBuf (cycle e σ)
  := by
  use h.tx_cycle e, (h.rx_cycle e).1, ?_, (h.rx_cycle e).2
  change ReceivedTile A.beatBytes (memNext σ.rx σ.mem (outcome e σ).handed).data.received
  cases (outcome e σ).handed with
  | none => apply h.received
  | some beat => apply h.received

theorem complete (c : Chan) :
  WithinBuffers rxBuf (complete c σ)
  := by
  rw [Board.complete]
  split
  · apply h
  · split
    · apply h
    · have hretire := h.setChan (h.chan c).retire c
      cases c with
      | tx => exact ⟨hretire.tx, hretire.rx, h.received, h.beyond⟩
      | rx => exact ⟨hretire.tx, hretire.rx, h.received, h.beyond⟩

end WithinBuffers

theorem stable_withinBuffers (rxBuf : ℕ → BitVec 8) :
  (platform A π).Stable (WithinBuffers rxBuf)
  := by
  apply stable_of
  · intro e σ h
    apply h.cycle e
  · intro c σ h
    apply h.complete c

theorem bytes_of_prepared {ok : Bool} {bytes done : ℕ} {d : Desc}
    (hd : (if ok then some (⟨bytes, done⟩ : Desc) else none) = some d) :
  d.bytes = bytes
  := by
  split at hd
  · obtain rfl := Option.some.inj hd
    rfl
  · cases hd

/-- Operations given lengths in bounds keep all within the buffers. -/
theorem upholds_withinBuffers (rxBuf : ℕ → BitVec 8) (count : ℕ) :
  (platform A π).Upholds (WithinBuffers rxBuf) (KernelOp.Returns A.beatBytes)
    (KernelOp.InBounds A.beatBytes count)
  := by
  intro o (c : Choice) (σ : State A π) x (σ' : State A π) h ho (hx : exec o c σ = some (x, σ'))
  cases o with
  | readl reg =>
      obtain ⟨-, rfl, -⟩ := exec_readl hx
      use h.cycle _
      trivial
  | writel word reg =>
      obtain rfl := exec_writel hx
      use ⟨h.tx, h.rx, h.received, h.beyond⟩
      trivial
  | prepSlaveSingle chan bytes done =>
      obtain ⟨rfl, rfl⟩ := Prod.mk.inj (Option.some.inj hx)
      use h
      intro d hd
      apply bytes_of_prepared hd
  | submit chan desc =>
      rw [exec] at hx
      split at hx
      · obtain ⟨-, rfl⟩ := Prod.mk.inj (Option.some.inj hx)
        use h.setChan ((h.chan chan).submit ho.2) chan
        trivial
      · obtain ⟨-, rfl⟩ := Prod.mk.inj (Option.some.inj hx)
        use h
        trivial
  | issuePending chan =>
      obtain ⟨-, rfl⟩ := Prod.mk.inj (Option.some.inj hx)
      use h.setChan (h.chan chan).issuePending chan
      trivial
  | terminateSync chan =>
      obtain ⟨-, rfl⟩ := Prod.mk.inj (Option.some.inj hx)
      use h.setChan .empty chan
      trivial
  | load =>
      obtain ⟨rfl, rfl⟩ := Prod.mk.inj (Option.some.inj hx)
      use h, h.received
  | store data =>
      obtain ⟨-, rfl⟩ := Prod.mk.inj (Option.some.inj hx)
      use h.mem ho rfl
      trivial
  | _ =>
      obtain ⟨-, rfl⟩ := Prod.mk.inj (Option.some.inj hx)
      use h.mem h.received rfl
      trivial

theorem withinBuffers_start (hw : A.State) (txBuf rxBuf : ℕ → BitVec 8) (priv : π) :
  WithinBuffers rxBuf (start hw txBuf rxBuf priv)
  := by
  use .empty, .empty
  · left
    rfl
  · intro k _
    rfl

/-! ### Every schedule -/

/-- Throughout every schedule from the state `σ` nothing leaves the buffers: the board is
within them, so is the next beat of either channel, and the next operation of the call at
work is given lengths in bounds. -/
def KeepsToBuffers {Call : Type} {Val : Call → Type} (api : Api (KernelOp π) KernelOp.Res Call Val)
    (count : Call → ℕ) (σ : State A π) : Prop :=
  ∀ es : List (Api.Event (platform A π) Call),
    WithinBuffers σ.mem.rxBuf (api.schedule (P := platform A π) σ es).state
      ∧ (∀ c, (chan (api.schedule (P := platform A π) σ es).state c).pending A.beatBytes = true →
        ((chan (api.schedule (P := platform A π) σ es).state c).moved + 1) * A.beatBytes
          ≤ accelMaxBeats * A.beatBytes)
      ∧ ∀ c o k, (api.schedule (P := platform A π) σ es).running = some ⟨c, .op o k⟩ →
        o.InBounds A.beatBytes (count c)

theorem keepsToBuffers_of {Call : Type} {Val : Call → Type}
    (api : Api (KernelOp π) KernelOp.Res Call Val) (count : Call → ℕ)
    (hbody : ∀ c, api.early c = none → (api.body c).Honors (KernelOp.Returns A.beatBytes)
      (KernelOp.InBounds A.beatBytes (count c)) fun _ => True)
    (hw : A.State) (txBuf rxBuf : ℕ → BitVec 8) (priv : π) :
  KeepsToBuffers api count (start (A := A) hw txBuf rxBuf priv)
  := by
  intro es
  obtain ⟨hwithin, hops⟩ := Api.honored_schedule (P := platform A π)
    (stable_withinBuffers rxBuf) (fun c => upholds_withinBuffers rxBuf (count c)) hbody
    (withinBuffers_start hw txBuf rxBuf priv) es
  use hwithin, ?_, hops
  intro c hp
  apply ((hwithin.chan c).next_fits hp).2

/-- Neither driver leaves its buffers, whatever an accelerator with beats of its size
does. -/
theorem drivers_keep_to_buffers (A A' : Accelerator) (hA : A.beatBytes = Relu.reluOps.beatBytes)
    (hA' : A'.beatBytes = SparseCnn.sparseCnnOps.beatBytes) (hw : A.State) (hw' : A'.State)
    (txBuf rxBuf : ℕ → BitVec 8) :
  KeepsToBuffers Relu.api Relu.Call.count (start (A := A) hw txBuf rxBuf ())
    ∧ KeepsToBuffers SparseCnn.api FileCall.count (start (A := A') hw' txBuf rxBuf ⟨0, 0⟩)
  := by
  constructor
  · apply keepsToBuffers_of
    intro c hc
    rw [hA]
    cases c with
    | file c =>
        apply inBounds_body (fun _ => inBounds_reluOps) _ hc
        intro dst count
        apply inBounds_reluResult
    | slopeStore slope =>
        cases slope with
        | error e => trivial
        | ok slope =>
            apply Prog.honors_bind (Prog.honors_perform trivial)
            intro _ _
            trivial
  · apply keepsToBuffers_of
    intro c hc
    rw [hA']
    apply inBounds_body (fun _ => inBounds_sparseCnnOps) _ hc
    intro dst count
    apply inBounds_sparseCnnResult

/-- The two drivers on their own accelerators. -/
theorem drivers_keep_to_buffers_after_reset :
  KeepsToBuffers Relu.api Relu.Call.count
      (start (A := ReluAxi.accelerator) (ReluAxi.fresh 0 0 0) (fun _ => 0) (fun _ => 0) ())
    ∧ KeepsToBuffers SparseCnn.api FileCall.count
      (start (A := SparseCnnAxi.accelerator) (SparseCnnAxi.fresh 0 0 0) (fun _ => 0) (fun _ => 0)
        ⟨0, 0⟩)
  := drivers_keep_to_buffers ReluAxi.accelerator SparseCnnAxi.accelerator rfl rfl
    (ReluAxi.fresh 0 0 0) (SparseCnnAxi.fresh 0 0 0) (fun _ => 0) (fun _ => 0)

end Board
