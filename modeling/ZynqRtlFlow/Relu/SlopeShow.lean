import ZynqRtlFlow.Board.Frame
import ZynqRtlFlow.Driver.SlopeText
import ZynqRtlFlow.Relu.EndToEnd

/-!
# What the slope attribute shows

`slope_show` runs without the lock beside the calls, so nothing orders its read after the
stores of others.  The slopes stored so far are, in their order, those the register has had,
the one it has and those still on the bus; so what it shows is the slope that has landed
last at some moment of its run, and the later ones, if any, are on the bus at that moment.
-/

namespace ReluAxi

open AxiLite Driver Board
open Driver.Relu

/-! ### The slopes stored -/

/-- The slope out of reset, and those of the stores that have returned. -/
def storedSlopes (log : List (Σ c : Call, c.Val)) : List ℕ :=
  25 :: log.filterMap fun
    | ⟨.slopeStore (.ok word), .ok _⟩ => some word.toNat
    | _ => none

/-- The slope of a store that has written the register and has yet to return. -/
def storing : Option (Σ c : Call, Kernel Unit c.Val) → List ℕ
  | some ⟨.slopeStore (.ok word), .ret _⟩ => [word.toNat]
  | _ => []

/-- The slopes stored, the last one last. -/
def slopes (x : Api.Config (platform accelerator Unit) Call.Val) : List ℕ :=
  storedSlopes x.log ++ storing x.running

/-- The slopes among the writes posted. -/
def postedSlopes (posted : List (BitVec 8 × BitVec 32)) : List ℕ :=
  posted.filterMap fun x => if x.1 = ReluAxi.regSlope then some (x.2.setWidth 8).toNat else none

/-- The operations that do not write the slope. -/
def SparesSlope : KernelOp Unit → Prop
  | .writel _ reg => reg ≠ ReluAxi.regSlope
  | _ => True

/-- The slopes are those that have landed, the last of them in the register, and those
posted. -/
structure Landing (stored : List ℕ) (s : State) (b : Bus) : Prop where
  coherent : b.Coherent s.write
  slopes : ∃ landed, stored = landed ++ s.slopeReg.toNat :: postedSlopes b.posted

/-- What runs spares the slope, or is a store that has its write ahead or behind. -/
def Spares : Option (Σ c : Call, Kernel Unit c.Val) → Prop
  | none => True
  | some ⟨.file _, p⟩ => p.Performs SparesSlope
  | some ⟨.slopeStore (.ok word), p⟩ =>
      word ≤ slopeMax ∧ (p = slopeStore (.ok word) ∨ p = .ret (.ok ()))
  | some ⟨.slopeStore (.error _), _⟩ => False

/-- The invariant of a schedule. -/
structure SlopesFollowed (x : Api.Config (platform accelerator Unit) Call.Val) : Prop where
  waiting : ∀ c ∈ x.waiting, Driver.Relu.api.early c = none
  spares : Spares x.running
  landing : Landing (slopes x) x.state.hw x.state.bus

/-! ### A cycle -/

theorem setWidth_toNat_of_le {word : BitVec 32} (h : word ≤ slopeMax) :
  (word.setWidth 8).toNat = word.toNat
  := by
  have hle : word.toNat ≤ slopeMax.toNat := h
  have hmax : slopeMax.toNat = 255 := rfl
  rw [BitVec.toNat_setWidth]
  apply Nat.mod_eq_of_lt
  omega

/-- A slope that lands leaves the bus for the register. -/
theorem Landing.cycle {stored : List ℕ} {s : State} {b : Bus} (h : Landing stored s b)
    {e : AxiLite.Inputs} {i : Inputs} (hi : i.axil = b.drive e) :
  Landing stored (posedge s i true) (b.cycle s.write i.axil)
  := by
  use h.coherent.cycle_of_drive hi
  obtain ⟨landed, hlanded⟩ := h.slopes
  rw [slopeReg_posedge, slopeLands, slopeWr, hi]
  cases hc : s.write.wrCommit (b.drive e) with
  | false =>
      use landed
      rw [(h.coherent.cycle_of_wait hc).2]
      apply hlanded
  | true =>
      obtain ⟨-, hstrb, hposted⟩ := h.coherent.cycle_of_commit hc
      rw [hposted, postedSlopes, List.filterMap_cons] at hlanded
      rw [hstrb]
      by_cases haddr : s.write.wrAddr (b.drive e) = ReluAxi.regSlope
      · use landed ++ [s.slopeReg.toNat]
        rw [if_pos haddr] at hlanded
        rw [hlanded, List.append_assoc, postedSlopes]
        simp [haddr]
      · use landed
        rw [if_neg haddr] at hlanded
        rw [hlanded, postedSlopes]
        simp [haddr]

variable {stored : List ℕ} {σ σ' : Board.State accelerator Unit}

theorem Landing.cycle_board (h : Landing stored σ.hw σ.bus) (e : Env) :
  Landing stored (Board.cycle e σ).hw (Board.cycle e σ).bus
  := h.cycle (i := ReluAxi.inputs (σ.bus.drive e.axil) (e.valid && σ.tx.pending 1)
    (beatAt accelerator σ.mem.txBuf σ.tx.moved) (σ.tx.atLast 1) (e.ready && σ.rx.pending 1)) rfl

theorem Landing.move (h : Landing stored σ.hw σ.bus) (e : Move) :
  Landing stored (Board.move e σ).hw (Board.move e σ).bus
  := by
  cases e with
  | cycle e => apply h.cycle_board
  | complete c =>
      obtain ⟨hhw, hbus⟩ := complete_hw_bus c σ
      rw [Board.move, hhw, hbus]
      apply h

/-! ### An operation -/

theorem postedSlopes_append (posted : List (BitVec 8 × BitVec 32)) (x : BitVec 8 × BitVec 32) :
  postedSlopes (posted ++ [x])
    = postedSlopes posted
      ++ if x.1 = ReluAxi.regSlope then [(x.2.setWidth 8).toNat] else []
  := by
  rw [postedSlopes, List.filterMap_append, postedSlopes]
  split
  · simp [*]
  · simp [*]

/-- The operations that spare the slope leave the slopes as they are. -/
theorem Landing.exec_spares (h : Landing stored σ.hw σ.bus) {o : KernelOp Unit}
    (ho : SparesSlope o) {ch : Choice} {x : o.Res} (hx : exec o ch σ = some (x, σ')) :
  Landing stored σ'.hw σ'.bus
  := by
  have hsame : o.NoRegister → Landing stored σ'.hw σ'.bus := by
    intro hregister
    obtain ⟨hhw, hbus⟩ := exec_hw_bus hregister hx
    rw [hhw, hbus]
    apply h
  cases o with
  | readl reg =>
      obtain ⟨-, rfl, -⟩ := exec_readl hx
      apply h.cycle_board
  | writel word reg =>
      obtain rfl := exec_writel hx
      use h.coherent.post reg word
      obtain ⟨landed, hlanded⟩ := h.slopes
      use landed
      have hreg : ¬ reg = ReluAxi.regSlope := ho
      rw [Bus.post, postedSlopes_append, if_neg hreg, List.append_nil]
      apply hlanded
  | _ => apply hsame trivial

/-- The write of a store puts its slope on the bus. -/
theorem Landing.exec_store (h : Landing stored σ.hw σ.bus) {word : BitVec 32}
    (hword : word ≤ slopeMax) {ch : Choice} {x : Unit}
    (hx : exec (.writel word Driver.Relu.regSlope) ch σ = some (x, σ')) :
  Landing (stored ++ [word.toNat]) σ'.hw σ'.bus
  := by
  obtain rfl := exec_writel hx
  use h.coherent.post _ word
  obtain ⟨landed, hlanded⟩ := h.slopes
  use landed
  rw [Bus.post, postedSlopes_append, if_pos rfl, setWidth_toNat_of_le hword, hlanded]
  simp

/-! ### Any schedule -/

theorem sparesSlope_of_ne_writel {o : KernelOp Unit} (h : ∀ word reg, o ≠ .writel word reg) :
  SparesSlope o
  := by
  cases o with
  | writel word reg => cases h word reg rfl
  | _ => trivial

theorem spares_reluOps :
  reluOps.Performs SparesSlope
  := by
  apply performs_reluOps
  · intro o ho
    apply sparesSlope_of_ne_writel ho.ne_writel
  · have hreg : Driver.Relu.regCtrl ≠ ReluAxi.regSlope := by decide
    apply hreg

/-- A call that returns before it takes the lock stores nothing. -/
theorem storedSlopes_concat_of_early (log : List (Σ c : Call, c.Val)) {c : Call} {v : c.Val}
    (h : Driver.Relu.api.early c = some v ∨ Driver.Relu.api.interrupted c = some v) :
  storedSlopes (log ++ [⟨c, v⟩]) = storedSlopes log
  := by
  rw [storedSlopes, List.filterMap_append, storedSlopes]
  obtain c | e | word := c
  · simp
  · simp
  · obtain hv | hv := h
    · obtain ⟨e, -, rfl⟩ := Option.map_eq_some_iff.mp hv
      simp
    · cases hv

section Events

variable {waiting : List Call} {running : Option (Σ c : Call, Kernel Unit c.Val)}
  {log : List (Σ c : Call, c.Val)}
  (h : SlopesFollowed ⟨σ, waiting, running, log⟩)

include h

theorem SlopesFollowed.waiting_eraseIdx (k : ℕ) :
  ∀ c ∈ waiting.eraseIdx k, Driver.Relu.api.early c = none
  := by
  intro c hc
  apply h.waiting c (List.mem_of_mem_eraseIdx hc)

/-- A call that returns without the lock. -/
theorem SlopesFollowed.returned {c : Call} {v : c.Val}
    (hv : Driver.Relu.api.early c = some v ∨ Driver.Relu.api.interrupted c = some v)
    {waiting' : List Call} (hwaiting : ∀ c ∈ waiting', Driver.Relu.api.early c = none) :
  SlopesFollowed ⟨σ, waiting', running, log ++ [⟨c, v⟩]⟩
  := by
  use hwaiting, h.spares
  rw [slopes, storedSlopes_concat_of_early log hv]
  apply h.landing

theorem SlopesFollowed.invoke (c : Call) :
  SlopesFollowed (Driver.Relu.api.next ⟨σ, waiting, running, log⟩ (.invoke c))
  := by
  simp only [Api.next]
  split
  · rename_i v hv
    apply h.returned (.inl hv) h.waiting
  · rename_i hc
    refine ⟨?_, h.spares, h.landing⟩
    intro c' hc'
    obtain hc' | hc' := List.mem_append.mp hc'
    · apply h.waiting c' hc'
    · obtain rfl := List.mem_singleton.mp hc'
      apply hc

theorem SlopesFollowed.interrupt (k : ℕ) :
  SlopesFollowed (Driver.Relu.api.next ⟨σ, waiting, running, log⟩ (.interrupt k))
  := by
  simp only [Api.next]
  split
  · apply h
  · split
    · apply h
    · rename_i v hv
      apply h.returned (.inr hv) (h.waiting_eraseIdx k)

theorem SlopesFollowed.acquire (k : ℕ) :
  SlopesFollowed (Driver.Relu.api.next ⟨σ, waiting, running, log⟩ (.acquire k))
  := by
  simp only [Api.next]
  split
  · rename_i c hc
    have hearly := h.waiting c (List.mem_of_getElem? hc)
    obtain c | e | word := c
    · refine ⟨h.waiting_eraseIdx k, ?_, h.landing⟩
      apply performs_body (fun o ho => sparesSlope_of_ne_writel ho.ne_writel) spares_reluOps
    · cases hearly
    · refine ⟨h.waiting_eraseIdx k, ?_, h.landing⟩
      exact ⟨le_slopeMax (Option.map_eq_none_iff.mp hearly), .inl rfl⟩
  · apply h

theorem SlopesFollowed.exec (ch : Choice) :
  SlopesFollowed (Driver.Relu.api.next ⟨σ, waiting, running, log⟩ (.exec ch))
  := by
  obtain ⟨hwaiting, hspares, hlanding⟩ := h
  simp only [Api.next]
  split
  · rename_i c o k
    split
    · rename_i r σ' hexec
      obtain c | e | word := c
      · exact ⟨hwaiting, hspares.2 r, hlanding.exec_spares hspares.1 hexec⟩
      · cases hspares
      · obtain ⟨hword, hstore | hstored⟩ := hspares
        · obtain ⟨rfl, hk⟩ := Prog.op.inj hstore
          obtain rfl := eq_of_heq hk
          have hlanding' : Landing (storedSlopes log) σ.hw σ.bus := by
            rw [← List.append_nil (storedSlopes log)]
            apply hlanding
          have hstored : Board.exec (.writel word Driver.Relu.regSlope) ch σ = some (r, σ') := hexec
          exact ⟨hwaiting, ⟨hword, .inr rfl⟩, hlanding'.exec_store hword hstored⟩
        · cases hstored
    · exact ⟨hwaiting, hspares, hlanding⟩
  · exact ⟨hwaiting, hspares, hlanding⟩

theorem SlopesFollowed.release :
  SlopesFollowed (Driver.Relu.api.next ⟨σ, waiting, running, log⟩ .release)
  := by
  obtain ⟨hwaiting, hspares, hlanding⟩ := h
  simp only [Api.next]
  split
  · rename_i c v
    use hwaiting, trivial
    obtain c | e | word := c
    · have hsame : storedSlopes (log ++ [⟨.file c, v⟩]) = storedSlopes log := by
        simp [storedSlopes]
      rw [slopes, hsame]
      apply hlanding
    · cases hspares
    · obtain ⟨-, hstore | hstored⟩ := hspares
      · cases hstore
      · obtain rfl := Prog.ret.inj hstored
        have hstored : storedSlopes (log ++ [⟨.slopeStore (.ok word), .ok ()⟩])
            = storedSlopes log ++ [word.toNat] := by
          simp [storedSlopes]
        rw [slopes, hstored, List.append_assoc]
        apply hlanding
  · exact ⟨hwaiting, hspares, hlanding⟩

end Events

theorem SlopesFollowed.next {x : Api.Config (platform accelerator Unit) Call.Val}
    (h : SlopesFollowed x) (e : Api.Event (platform accelerator Unit) Call) :
  SlopesFollowed (Driver.Relu.api.next x e)
  := by
  cases e with
  | move e => exact ⟨h.waiting, h.spares, h.landing.move e⟩
  | invoke c => apply h.invoke
  | interrupt k => apply h.interrupt
  | acquire k => apply h.acquire
  | exec ch => apply h.exec
  | release => apply h.release

theorem slopesFollowed_start (s : State) (i : Inputs) (txBuf rxBuf : ℕ → BitVec 8) :
  SlopesFollowed ⟨start (A := accelerator) (reset s i) txBuf rxBuf (), [], none, []⟩
  := by
  refine ⟨?_, trivial, Bus.coherent_reset _ i.axil, [], rfl⟩
  intro c hc
  cases hc

/-- Whatever the schedule. -/
theorem slopesFollowed_schedule (s : State) (i : Inputs) (txBuf rxBuf : ℕ → BitVec 8)
    (es : List (Api.Event (platform accelerator Unit) Call)) :
  SlopesFollowed (Driver.Relu.api.schedule (start (A := accelerator) (reset s i) txBuf rxBuf ()) es)
  := by
  apply Api.schedule_induction
  · apply slopesFollowed_start
  · intro x e h
    apply h.next

/-! ### A show -/

/-- The text of the slope that has landed last: after it come, in their order, the slopes
whose writes are on the bus.  Stored, the text gives that slope again. -/
def ShowsLanded (x : Api.Config (platform accelerator Unit) Call.Val) (text : Str) : Prop :=
  ∃ (slope : BitVec 32) (older : List ℕ), text = slopeShowText slope ∧ kstrtou32 text = .ok slope
    ∧ slopes x = older ++ slope.toNat :: postedSlopes x.state.bus.posted

/-- The word a read of the board's finds. -/
theorem rdataQ_cycle {reg : BitVec 8} {e : Env} (hready : (accelerator.read σ.hw).arready = true) :
  (accelerator.read (Board.cycle (readEnv e reg) σ).hw).rdataQ = rdMux σ.hw reg
  := by
  obtain ⟨harvalid, haraddr⟩ := σ.bus.drive_read (readEnv e reg).axil
  have hfire : σ.hw.read.arFire (σ.bus.drive (readEnv e reg).axil) = true := by
    rw [ReadChannel.arFire, harvalid]
    apply hready
  have hread : (accelerator.read (Board.cycle (readEnv e reg) σ).hw).rdataQ
      = rdMux σ.hw (σ.bus.drive (readEnv e reg).axil).araddr := ReadChannel.rdataQ_posedge hfire _
  rw [hread, haraddr]
  rfl

/-- A read finds the slope that has landed last. -/
theorem Landing.read (h : Landing stored σ.hw σ.bus) {e : Env} {v : BitVec 32}
    (hx : readRegister Driver.Relu.regSlope e σ = some (v, σ')) :
  ∃ older, stored = older ++ v.toNat :: postedSlopes σ.bus.posted
  := by
  obtain ⟨hready, rfl, rfl⟩ := readRegister_some hx
  have hslope : rdMux σ.hw Driver.Relu.regSlope = σ.hw.slopeReg.setWidth 32 := rfl
  have hfits : (σ.hw.slopeReg.setWidth 32).toNat = σ.hw.slopeReg.toNat := by
    apply BitVec.toNat_setWidth_of_le
    decide
  rw [rdataQ_cycle hready, hslope, hfits]
  apply h.slopes

theorem SlopesFollowed.shows {x : Api.Config (platform accelerator Unit) Call.Val}
    (h : SlopesFollowed x) {e : Env} {slope : BitVec 32} {σ : Board.State accelerator Unit}
    (hread : readRegister Driver.Relu.regSlope e x.state = some (slope, σ)) :
  ShowsLanded x (slopeShowText slope)
  := by
  obtain ⟨older, holder⟩ := h.landing.read hread
  use slope, older, rfl, kstrtou32_slopeShowText slope

/-- Called at any point of any schedule and run without the lock beside whatever goes on,
`slope_show` shows the slope that has landed last at some moment between its call and its
return; to the calls that moment is a cycle of the board. -/
theorem slope_show_recent (s : State) (i : Inputs) (txBuf rxBuf : ℕ → BitVec 8)
    (es : List (Api.Event (platform accelerator Unit) Call)) (text : Str)
    (y : Api.Config (platform accelerator Unit) Call.Val)
    (hshow : Driver.Relu.api.Beside execUnlocked slopeShow
      (Driver.Relu.api.schedule (start (A := accelerator) (reset s i) txBuf rxBuf ()) es) text y) :
  ∃ (before : List (Api.Event (platform accelerator Unit) Call)) (e : Env)
      (after : List (Api.Event (platform accelerator Unit) Call)),
    ShowsLanded (Driver.Relu.api.schedule (start (A := accelerator) (reset s i) txBuf rxBuf ())
        (es ++ before)) text
      ∧ y = Driver.Relu.api.schedule (start (A := accelerator) (reset s i) txBuf rxBuf ())
        (es ++ before ++ .move (.cycle e) :: after)
  := by
  have hmove : ∀ (ch : Choice) (τ : Board.State accelerator Unit) slope σ,
      execUnlocked (.readl Driver.Relu.regSlope) ch τ = some (slope, σ) →
        σ = Board.move (.cycle (readEnv ch.env Driver.Relu.regSlope)) τ := by
    intro ch τ slope σ hread
    apply (readRegister_some hread).2.1
  obtain ⟨before, ch, slope, σ, after, hread, rfl, rfl⟩ := Api.moment_of_beside (P := platform accelerator Unit)
    (fun ch : Choice => Move.cycle (readEnv ch.env Driver.Relu.regSlope)) hmove hshow
  use before, readEnv ch.env Driver.Relu.regSlope, after
  constructor
  · apply (slopesFollowed_schedule s i txBuf rxBuf (es ++ before)).shows hread
  · rfl

/-- Two stores whose writes are both on the bus. -/
def twoStores : List (Api.Event (platform accelerator Unit) Call) :=
  [.invoke (.slopeStore (.ok 128)), .acquire 0, .exec willing, .release,
    .invoke (.slopeStore (.ok 200)), .acquire 0, .exec willing, .release]

/-- The slope out of reset is shown while the slopes 128 and 200 are on the bus. -/
theorem slope_show_of_reset :
  slopes (Driver.Relu.api.schedule
        (start (A := accelerator) (reset zero (tileCycle false)) (fun _ => 0) (fun _ => 0) ())
        twoStores) = [25, 128, 200]
    ∧ ∃ y before e after, ShowsLanded (Driver.Relu.api.schedule
        (start (A := accelerator) (reset zero (tileCycle false)) (fun _ => 0) (fun _ => 0) ())
        (twoStores ++ before)) ['2', '5', '\n']
      ∧ y = Driver.Relu.api.schedule
        (start (A := accelerator) (reset zero (tileCycle false)) (fun _ => 0) (fun _ => 0) ())
        (twoStores ++ before ++ .move (.cycle e) :: after)
  := by
  constructor
  · decide +kernel
  · refine ⟨_, slope_show_recent zero (tileCycle false) (fun _ => 0) (fun _ => 0) twoStores
      ['2', '5', '\n'] _ ⟨[], willing, 25#32, _, rfl, ?_, [], rfl⟩⟩
    decide

end ReluAxi
