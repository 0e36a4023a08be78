import ZynqRtlFlow.Board.Jam
import ZynqRtlFlow.Driver.Operations

/-!
# The Leaky ReLU serves tiles

The driver only ever enables it, so out of reset it stays enabled, and takes a beat in or
hands one over in every eager cycle until the tile is through.  Busy between two tiles, it
holds a tile that was cut short, whose beats do not come any more: it is jammed, and
refuses every tile from then on.
-/

namespace ReluAxi

open AxiLite Driver Board
open Driver.Relu (reluAccept reluFinish reluOps)

theorem readsOwn :
  ReadsOwn accelerator
  := fun _ _ _ _ _ _ => ⟨_, rfl⟩

/-! ### Enabled -/

/-- The accelerator is enabled, and no write on its way disables it. -/
structure Enabled (s : State) (b : Bus) : Prop where
  coherent : b.Coherent s.write
  en : enReg s = true
  posted : ∀ x ∈ b.posted, x.1 = regCtrl → x.2.getLsbD ctrlEn = true

theorem Enabled.cycle {s : State} {b : Bus} (h : Enabled s b) {e : AxiLite.Inputs} {i : Inputs}
    (hi : i.axil = b.drive e) :
  Enabled (posedge s i true) (b.cycle s.write i.axil)
  := by
  constructor
  · apply h.coherent.cycle_of_drive hi
  · rw [enReg, posedge_ctrlReg, ctrlNext]
    split
    · rename_i hwr
      rw [ctrlWr, Bool.and_eq_true, beq_iff_eq, hi] at hwr
      obtain ⟨hc, haddr⟩ := hwr
      obtain ⟨-, hstrb, hposted⟩ := h.coherent.cycle_of_commit hc
      have hdata : (s.write.wrData (b.drive e)).getLsbD ctrlEn = true := by
        apply h.posted (s.write.wrAddr (b.drive e), s.write.wrData (b.drive e)) _ haddr
        rw [hposted]
        apply List.mem_cons_self
      rw [getLsbD_writeBytes _ _ _ _ (by decide), hi, hstrb, hdata]
      rfl
    · apply h.en
  · intro x hx
    rw [hi] at hx
    apply h.posted x (posted_cycle h.coherent x hx)

theorem controls_enabled :
  Controls accelerator Enabled
  := by
  constructor
  · intro s b h
    apply h.coherent
  · intro s b e valid beat last ready h
    apply h.cycle (i := inputs (b.drive e) valid beat last ready) rfl

theorem Enabled.post {s : State} {b : Bus} (h : Enabled s b) {word : BitVec 32} {reg : BitVec 8}
    (hen : reg = regCtrl → word.getLsbD ctrlEn = true) :
  Enabled s (b.post reg word)
  := by
  use h.coherent.post reg word, h.en
  intro x hx
  obtain hx | hx := List.mem_append.mp hx
  · apply h.posted x hx
  · obtain rfl := List.mem_singleton.mp hx
    apply hen

theorem keeps_reluOps :
  reluOps.Performs (Keeps (A := accelerator) Enabled)
  := by
  apply Driver.Relu.performs_reluOps
  · intro o ho
    apply keeps_of_ne_writel _ ho.ne_writel
  · intro s b h
    apply h.post
    intro _
    rfl

/-! ### Eager cycles -/

/-- Not all beats of a tile being through, an eager cycle takes one in or hands one
over. -/
theorem fewer_eager {slope : BitVec 8} {buf : ℕ → BitVec 8} {n j k : ℕ} {s : State} {b : Bus}
    (h : Inside slope buf n j k s b) (hen : enReg s = true) (hk : k < n) {i : Inputs}
    (hvalid : i.sTvalid = decide (j < n)) (hready : i.mTready = true) :
  (n - if inFire s i then j + 1 else j) + (n - if outFire s i then k + 1 else k) < (n - j) + (n - k)
  := by
  have hle := h.out_le_in
  by_cases hjk : k < j
  · have hout : outFire s i = true := by
      rw [outFire, h.valid, hready, decide_eq_true hjk]
      rfl
    rw [hout, if_pos rfl]
    split
    · omega
    · omega
  · have hj : j < n := by omega
    have hin : inFire s i = true := by
      rw [inFire, sTready, hvalid, hen, h.valid, decide_eq_true hj, decide_eq_false hjk]
      rfl
    rw [hin, if_pos rfl]
    split
    · omega
    · omega

/-- All beats of a tile being out, `relu_finish` agrees. -/
theorem can_reluFinish {slope : BitVec 8} {buf : ℕ → BitVec 8} {n j k : ℕ} (hk : n ≤ k)
    (hn : n < 2 ^ 16) {m : Mem Unit} {σ : Board.State accelerator Unit}
    (h : At .empty .empty m (Inside slope buf n j k) σ) (hctrl : Under Enabled σ) :
  (platform accelerator Unit).Can (reluFinish n) (fun ret _ => ret = .ok ()) σ
  := by
  have hknown : ∀ s b, Inside slope buf n j k s b → s.doneQ = true ∧ s.countQ = BitVec.ofNat 16 n := by
    intro s b hs
    apply hs.finished (hs.out_eq hk)
  have hfinish := wp_reluFinish ((serves_inside slope buf n).undisturbed j k) hknown quiet_empty h n
  apply Platform.can_mono (can_end controls_enabled readsOwn (keeps_reluOps.finish n) hctrl hfinish)
  rintro ret τ ⟨-, hret, -⟩
  apply hret.mpr
  use rfl
  rw [BitVec.toNat_ofNat, Nat.mod_eq_of_lt hn]

/-- The Leaky ReLU finishes tiles of a length its counter can hold. -/
def eagerContract (slope : BitVec 8) (buf : ℕ → BitVec 8) {n : ℕ} (hpos : 0 < n) (hn : n < 2 ^ 16) :
    EagerContract (calmContract slope buf n hpos) where
  Control := Enabled
  control := controls_enabled
  accept := keeps_reluOps.accept
  start := keeps_reluOps.start
  rank j k _ _ := (n - j) + (n - k)
  advances j k s b h hctrl hmoved := by
    have hle := h.out_le_in
    have hle' := h.in_le
    have hk : k < n := by
      by_contra hk
      apply hmoved
      constructor
      · change n ≤ j * 1
        omega
      · intro _
        change n ≤ k * 1
        omega
    let i := inputs (b.drive drain.axil) (decide (j * 1 < n)) (beatAt accelerator buf j)
      (decide (n ≤ (j + 1) * 1)) (decide (k * 1 < n))
    have hvalid : i.sTvalid = decide (j < n) := decide_eq_decide.mpr (by omega)
    have hready : i.mTready = true := decide_eq_true (by omega)
    have hhanded : (accelerator.cycle (b.drive drain.axil) (decide (j * 1 < n))
        (beatAt accelerator buf j) (decide (n ≤ (j + 1) * 1)) (decide (k * 1 < n)) s).handed.isSome
        = outFire s i := by
      change (if outFire s i then _ else none).isSome = outFire s i
      cases outFire s i <;> rfl
    have hfewer := fewer_eager h hctrl.en hk hvalid hready
    rw [← hhanded] at hfewer
    apply hfewer
  finish j k m σ hmoved h hctrl := by
    have hk : n ≤ k := by simpa [accelerator, reluOps] using hmoved.2 rfl
    rw [show n / reluOps.beatBytes = n from Nat.div_one n]
    apply can_reluFinish hk hn h hctrl

/-! ### Busy between tiles -/

/-- Some beats of a tile are in, and the last is not out. -/
def Busy (s : State) (_ : Bus) : Prop :=
  s.busyQ = true

theorem undisturbed_busy :
  Undisturbed accelerator Busy
  := by
  apply undisturbed_of
  intro s b e i h hi hin hout
  apply (busyQ_still hin hout).trans h

theorem jams_busy :
  Jams accelerator reluOps Busy
  := by
  constructor
  · apply undisturbed_busy
  · intro m σ h
    apply wp_refuseBusy_of_busy undisturbed_busy _ h
    apply reads_known undisturbed_busy
    intro s b h
    rw [rdMux_status, statusBusy_iff]
    apply h

theorem simulates_refusing :
  Api.Simulates (P := platform accelerator Unit) Driver.Relu.exitApi
    (refusing Driver.Relu.Call.tileExit) fun _ => Jammed Busy
  := by
  constructor
  · intro d
    apply stable_jammed jams_busy
  · intro d c v hv
    obtain (bytes | ⟨dst, count⟩) | e | word := c
    · obtain ⟨e, -, rfl⟩ := Option.map_eq_some_iff.mp hv
      use fun _ hexit => nomatch hexit
    · cases hv
    · use fun _ hexit => nomatch hexit
    · use fun _ hexit => nomatch hexit
  · intro d c v hv
    obtain (bytes | ⟨dst, count⟩) | slope := c
    · obtain rfl := Option.some.inj hv
      use fun _ hexit => nomatch hexit
    · use fun _ hexit => nomatch hexit
    · cases hv
  · rintro d c σ hearly ⟨m, hσ⟩
    obtain (bytes | ⟨dst, count⟩) | e | word := c
    · apply wp_writeTile_jammed jams_busy hσ
    · apply Platform.wp_mono (wp_observes undisturbed_busy quiet_empty
        (Driver.Relu.performs_reluResult dst count) hσ)
      intro v τ hτ
      use fun _ hexit => nomatch hexit
      exact ⟨m, hτ⟩
    · cases hearly
    · apply Platform.wp_seq (wp_writel undisturbed_busy quiet_empty hσ undisturbed_busy
        fun s b h => h)
      intro _ τ hτ
      apply Platform.wp_ret
      · rintro e τ ⟨hallows, hτ⟩
        use hallows
        apply stable_jammed jams_busy e τ hτ
      · use fun _ hexit => nomatch hexit
        exact ⟨m, hτ⟩

/-! ### Every schedule -/

theorem performs_exitApi (c : Driver.Relu.Call) :
  (Driver.Relu.exitApi.body c).Performs (Keeps (A := accelerator) Enabled)
  := by
  have hbody : (Driver.Relu.api.body c).Performs (Keeps (A := accelerator) Enabled) := by
    cases c with
    | file c => apply Driver.performs_body (fun o ho => keeps_of_ne_writel _ ho.ne_writel) keeps_reluOps
    | slopeStore slope =>
        cases slope with
        | error e => trivial
        | ok word =>
            apply Prog.performs_bind
            · apply Prog.performs_perform
              intro s b h
              apply h.post
              intro hreg
              cases hreg
            · intro _
              trivial
  rw [Driver.Relu.erases_exitApi.body c] at hbody
  apply Prog.performs_of_map hbody

/-- Whatever is called, the accelerator stays enabled, and calm until a tile gets stuck. -/
theorem simulates_enabled :
  Api.Simulates (P := platform accelerator Unit) Driver.Relu.exitApi
    (patient Driver.Relu.Call.tileExit) fun d σ => Waiting d σ ∧ Under Enabled σ
  := simulates_patient.and (stable_under controls_enabled) (upholds_under controls_enabled)
    performs_exitApi

/-- An enabled Leaky ReLU between calls: not busy, every tile can be served; busy, one got
stuck. -/
theorem serves_or_jammed {d : Prop} {σ : Board.State accelerator Unit}
    (h : Waiting d σ ∧ Under Enabled σ) :
  (∀ bytes, accelWriteCheck reluOps bytes.length = none →
    (platform accelerator Unit).Can (writeTile reluOps bytes)
      (fun v _ => FileCall.tileExit (.write bytes) v = some .done) σ)
  ∨ ¬ d ∧ Jammed Busy σ
  := by
  obtain ⟨⟨slope, m, hfresh, hat⟩, hctrl⟩ := h
  cases hbusy : σ.hw.busyQ with
  | false =>
      left
      intro bytes hbytes
      obtain ⟨hpos, -, hfits⟩ := of_accelWriteCheck _ hbytes
      have hlt : bytes.length < 2 ^ 16 := by
        change bytes.length ≤ 4096 * 1 at hfits
        omega
      let E := eagerContract slope (fill m.txBuf bytes) hpos hlt
      apply Platform.can_mono (E.can_writeTile readsOwn hctrl hfresh _)
      · rintro v τ rfl
        rfl
      · use hat.tx, hat.rx, hat.mem, hat.holds.1
  | true =>
      right
      constructor
      · intro hd
        have hcalm := hat.holds.2 hd
        rw [hcalm.busy] at hbusy
        cases hbusy
      · exact ⟨m, hat.tx, hat.rx, hat.mem, hbusy⟩

/-- Of an enabled Leaky ReLU between calls: not busy, every tile can be served; busy, one
got stuck, and none is served any more. -/
theorem serves_or_refuses {σ : Board.State accelerator Unit} (hwaiting : Waiting True σ)
    (henabled : Under Enabled σ)
    (es : List (Api.Event (platform accelerator Unit) Driver.Relu.Call))
    (hfree : (Driver.Relu.exitApi.schedule σ es).running = none) :
  ServesOrRefuses Driver.Relu.exitApi reluOps (fun bytes => .file (.write bytes))
    Driver.Relu.Call.tileExit (Driver.Relu.exitApi.schedule σ es)
  := by
  have hx := simulates_enabled.invariant ⟨hwaiting, henabled⟩ es
  have hserves := hx.serves
  rw [hfree] at hserves
  obtain hserves | ⟨hstuck, hjammed⟩ := serves_or_jammed hserves
  · apply ServesOrRefuses.of_can hfree
    · intro bytes hbytes
      apply Option.map_eq_none_iff.mpr hbytes
    · apply hserves
  · apply ServesOrRefuses.of_jammed hfree hx.waiting simulates_refusing _ hjammed
    intro hunstuck
    apply hstuck ((patient_after _ _).mpr hunstuck)

/-- Enabled, with no register write on its way. -/
theorem under_start {s : State} (h : IdleAtProbe s) (hen : enReg s = true)
    (txBuf rxBuf : ℕ → BitVec 8) :
  Under Enabled (start (A := accelerator) s txBuf rxBuf ())
  := by
  use Bus.coherent_empty h.awPend h.wPend, hen
  apply List.forall_mem_nil

end ReluAxi
