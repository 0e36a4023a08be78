import ZynqRtlFlow.Board.Jam
import ZynqRtlFlow.Driver.Operations

/-!
# The sparse CNN serves tiles

Its control register holds the enable, as every write posted starts a tile with it.  So a
started tile comes to run, takes a beat in every eager cycle, and is latched in the cycle
after its last.  Between tiles it is ready, or about to be, or a started tile waits for
beats that do not come any more: then it is jammed, and refuses every tile from then on.
-/

namespace SparseCnnAxi

open AxiLite Driver Board
open Driver.SparseCnn (Result sparseCnnAccept sparseCnnFinish latchResult sparseCnnOps)

theorem readsOwn :
  ReadsOwn accelerator
  := fun _ _ _ _ _ _ => ⟨_, rfl⟩

/-! ### Enabled -/

/-- The accelerator is enabled, and so is it by every write on its way. -/
structure Enabled (s : State) (b : Bus) : Prop where
  clean : Clean s b
  en : enReg s = true

theorem Enabled.cycle {s : State} {b : Bus} (h : Enabled s b) {e : AxiLite.Inputs} {i : Inputs}
    (hi : i.axil = b.drive e) :
  Enabled (posedge s i true) (b.cycle s.write i.axil)
  := by
  use h.clean.cycle hi
  rw [enReg_posedge]
  split
  · rename_i hlands
    rw [ctrlLands, ctrlWr, Bool.and_eq_true, Bool.and_eq_true] at hlands
    rw [(h.clean.lands hi hlands.1.1).2]
    rfl
  · apply h.en

theorem controls_enabled :
  Controls accelerator Enabled
  := by
  constructor
  · intro s b h
    apply h.clean.coherent
  · intro s b e valid beat last ready h
    apply h.cycle (i := inputs (b.drive e) valid beat last) rfl

theorem Enabled.post {s : State} {b : Bus} (h : Enabled s b) :
  Enabled s (b.post startWrite.1 startWrite.2)
  := by
  constructor
  · use h.clean.coherent.post _ _
    · intro x hx
      obtain hx | hx := List.mem_append.mp hx
      · apply h.clean.posted x hx
      · apply List.mem_singleton.mp hx
    · apply h.clean.clear
  · apply h.en

theorem keeps_sparseCnnOps :
  sparseCnnOps.Performs (Keeps (A := accelerator) Enabled)
  := by
  apply Driver.SparseCnn.performs_sparseCnnOps
  · intro o ho
    apply keeps_of_ne_writel _ ho.ne_writel
  · intro data
    trivial
  · intro s b h
    apply h.post

/-! ### Eager cycles -/

/-- How many cycles a started tile can still take before it runs. -/
def untilRun (s : State) (b : Bus) : ℕ :=
  if b.posted = [] then
    match s.state with
    | .idle => 2
    | .clear => 1
    | _ => 0
  else 3 + backlog s.write b

/-- Not all beats of a tile being in, an eager cycle takes one in or brings the tile closer
to running. -/
theorem closer_eager {tile : List Beat} {j : ℕ} {s : State} {b : Bus} (h : Enabled s b)
    (hp : Phase tile s b j) (hj : j < tile.length) {i : Inputs} (hi : i.axil = b.drive drain.axil)
    (hvalid : i.tvalid = decide (j < tile.length)) :
  (tile.length - if beat s i then j + 1 else j) + untilRun (posedge s i true) (b.cycle s.write i.axil)
    < (tile.length - j) + untilRun s b
  := by
  have hnone : s.state ≠ .run → beat s i = false := by
    intro hrun
    rw [← Bool.not_eq_true, beat_iff]
    rintro ⟨-, hstate, -⟩
    apply hrun hstate
  cases hp with
  | posted hposted hstate hstart =>
      rw [hnone (by simp [hstate]), if_neg Bool.false_ne_true]
      apply Nat.add_lt_add_left
      have hne : b.posted ≠ [] := by simp [hposted]
      have hstate' : (posedge s i true).state = .idle := by
        rw [posedge_state, stateNext, hstate, hstart]
        rfl
      have hback := backlog_drain h.clean.coherent hne
      rw [← hi] at hback
      rw [untilRun, untilRun, if_neg hne]
      split
      · rw [hstate']
        simp only
        omega
      · apply Nat.add_lt_add_left
        apply hback
  | pulse hposted hstate hstart =>
      obtain ⟨hposted', -⟩ := h.clean.quiet hi hposted
      rw [hnone (by simp [hstate]), if_neg Bool.false_ne_true, untilRun, untilRun, if_pos hposted',
        if_pos hposted, posedge_state, stateNext, hstate, hstart]
      simp only [if_true]
      omega
  | clear hposted hstate hdone hstart =>
      obtain ⟨hposted', -⟩ := h.clean.quiet hi hposted
      rw [hnone (by simp [hstate]), if_neg Bool.false_ne_true, untilRun, untilRun, if_pos hposted',
        if_pos hposted, posedge_state, stateNext, hstate]
      simp only
      omega
  | run j hj hposted hstate hdone hstart hpe =>
      obtain ⟨hposted', -⟩ := h.clean.quiet hi hposted
      have hbeat : beat s i = true := by
        rw [beat_iff, hvalid]
        exact ⟨decide_eq_true hj, hstate, h.en, h.clean.clear⟩
      have hran : untilRun (posedge s i true) (b.cycle s.write i.axil) = 0 := by
        rw [untilRun, if_pos hposted', posedge_state, stateNext, hstate]
        cases beat s i && i.tlast <;> rfl
      rw [hbeat, if_pos rfl, hran]
      omega
  | latch => cases Nat.lt_irrefl _ hj
  | finished => cases Nat.lt_irrefl _ hj

/-! ### All beats in -/

variable {m : Mem Result} {σ : Board.State accelerator Result} {buf : ℕ → BitVec 8} {N : ℕ}

theorem Phase.of_all_in {tile : List Beat} {s : State} {b : Bus} {j : ℕ} (hp : Phase tile s b j)
    (hj : tile.length ≤ j) (hpos : 0 < tile.length) :
  s.state = .latch ∨ Finished tile s b
  := by
  cases hp with
  | posted => omega
  | pulse => omega
  | clear => omega
  | run j hlt => omega
  | latch _ hstate => exact Or.inl hstate
  | finished h => exact Or.inr h

/-- In the cycle after its last beat the tile is latched. -/
theorem Inside.latches {s : State} {b : Bus} {j : ℕ} (h : Inside (tileOf buf N) j s b) (hN : 0 < N)
    (hj : N ≤ j) {e : AxiLite.Inputs} {i : Inputs} (hi : i.axil = b.drive e)
    (hbeat : beatOf s i = none) :
  Finished (tileOf buf N) (posedge s i true) (b.cycle s.write i.axil)
  := by
  have hlen : (tileOf buf N).length = N := length_tileOf buf N
  rw [← hlen] at hN hj
  have hnext := h.phase.cycle_still h.clean hi (List.length_pos_iff.mp hN) hbeat
  have hidle : (posedge s i true).state = .idle := by
    rw [posedge_state, stateNext]
    obtain hlatch | hfinished := h.phase.of_all_in hj hN
    · rw [hlatch]
    · rw [hfinished.ready.state, hfinished.ready.start]
      rfl
  obtain hlatch | hfinished := hnext.of_all_in hj hN
  · cases hlatch.symm.trans hidle
  · apply hfinished

theorem finished_cycle (hN : 0 < N) {j : ℕ} (hj : N ≤ j)
    (h : At .empty .empty m (Inside (tileOf buf N) j) σ) (e : Env) :
  At .empty .empty m (Finished (tileOf buf N)) (cycle e σ)
  := by
  obtain ⟨htx, hrx, hmem, hin⟩ := h
  have hquiet : Quiet σ.tx σ.rx := by
    rw [htx, hrx]
    apply quiet_empty
  obtain ⟨beat, last, heq⟩ := cycle_of_quiet hquiet e
  rw [heq]
  use htx, hrx, hmem
  apply hin.latches hN hj (i := inputs (σ.bus.drive e.axil) false beat last) rfl rfl

/-- A finished tile reads as done. -/
theorem reads_status_finished (tile : List Beat) :
  Reads accelerator (Finished tile) Driver.SparseCnn.regStatus
    (Sampled (fun status => status &&& Driver.SparseCnn.statusDone ≠ 0)
      (fun _ _ => False) (fun _ => Finished tile))
  := by
  apply reads_of
  intro s b e i h hi hbeat hposted
  apply sampled_of
  · intro _
    apply h.cycle hi
  · intro hnot
    have hstatus := of_decide_eq_false hnot
    rw [rdMux_status, statusDone_iff, statusDoneBit, h.done, startTaken_eq, h.ready.start,
      h.ready.clean.startCommit_of_nil hi h.ready.posted] at hstatus
    cases hstatus rfl

theorem wp_sparseCnnFinish_finished {tile : List Beat} (h : At .empty .empty m (Finished tile) σ)
    (beats : ℕ) :
  (platform accelerator Result).wp (sparseCnnFinish beats) (fun ret _ => ret = .ok ()) σ
  := by
  have hpoll := wp_readlPollTimeout (undisturbed_finished tile) (fun _ _ _ _ _ h => h)
    (fun _ => undisturbed_finished tile) quiet_empty (reads_status_finished tile)
    (fun _ _ h => h.elim) h
  apply Platform.wp_seq hpoll
  intro ret τ hτ
  cases ret with
  | error e => cases hτ.holds
  | ok v =>
      apply Platform.wp_seq (Platform.wp_trivial _ τ)
      intro _ υ _
      apply Platform.wp_ret
      · intro e φ hφ
        apply hφ
      · rfl

/-- All beats of a tile being in, `sparse_cnn_finish` agrees once it is latched. -/
theorem can_sparseCnnFinish (hN : 0 < N) {j : ℕ} (hj : N ≤ j) (beats : ℕ)
    (h : At .empty .empty m (Inside (tileOf buf N) j) σ) (hctrl : Under Enabled σ) :
  (platform accelerator Result).Can (sparseCnnFinish beats) (fun ret _ => ret = .ok ()) σ
  := by
  let latch : List Move := [.cycle drain]
  apply Platform.can_moves latch
  have hfinished := finished_cycle hN hj h drain
  have hctrl' : Under Enabled (cycle drain σ) := stable_under controls_enabled (.cycle drain) σ hctrl
  apply Platform.can_mono (can_end controls_enabled readsOwn (keeps_sparseCnnOps.finish beats) hctrl'
    (wp_sparseCnnFinish_finished hfinished beats))
  rintro ret τ ⟨-, hret⟩
  apply hret

/-- The sparse CNN finishes tiles. -/
def eagerContract (buf : ℕ → BitVec 8) {n N : ℕ} (hn : n = N * 2) (hN : 0 < N) :
    EagerContract (calmContract buf hn hN) where
  Control := Enabled
  control := controls_enabled
  accept := keeps_sparseCnnOps.accept
  start := keeps_sparseCnnOps.start
  rank j _ s b := (N - j) + untilRun s b
  advances j k s b h hctrl hmoved := by
    have hlen := length_tileOf buf N
    have hj : j < N := by
      by_contra hj
      apply hmoved
      constructor
      · change n ≤ j * 2
        omega
      · rintro ⟨⟩
    let i := inputs (b.drive drain.axil) (decide (j * 2 < n)) (beatAt accelerator buf j)
      (decide (n ≤ (j + 1) * 2))
    have hvalid : i.tvalid = decide (j < (tileOf buf N).length) := by
      rw [hlen]
      apply decide_eq_decide.mpr
      omega
    have hcloser := closer_eager hctrl h.phase (by omega) (i := i) rfl hvalid
    rw [hlen] at hcloser
    apply hcloser
  finish j k m σ hmoved h hctrl := by
    apply can_sparseCnnFinish hN (beats_le_of_bytes_le hn hmoved.1) (n / sparseCnnOps.beatBytes) h
      hctrl

/-! ### Jammed -/

/-- A tile has been started, or is about to be, and has not come to its latch. -/
structure Occupied (s : State) (b : Bus) : Prop where
  clean : Clean s b
  latch : s.state = .latch → b.posted ≠ []
  idle : s.state = .idle → startPulse s = true ∨ b.posted ≠ []

theorem Occupied.cycle {s : State} {b : Bus} (h : Occupied s b) {e : AxiLite.Inputs} {i : Inputs}
    (hi : i.axil = b.drive e) (hbeat : beat s i = false) :
  Occupied (posedge s i true) (b.cycle s.write i.axil)
  := by
  have hposted := h.clean.posted_cycle hi
  have hkept : b.posted ≠ [] →
      startPulse (posedge s i true) = true ∨ (b.cycle s.write i.axil).posted ≠ [] := by
    intro hne
    rw [startPulse_posedge]
    cases hc : startCommit s i with
    | true => exact Or.inl rfl
    | false =>
        rw [hposted, hc]
        exact Or.inr hne
  constructor
  · apply h.clean.cycle hi
  · rw [posedge_state, stateNext]
    intro hlatch
    cases hstate : s.state with
    | idle =>
        rw [hstate] at hlatch
        cases hstart : startPulse s <;> simp [hstart] at hlatch
    | clear => simp [hstate] at hlatch
    | run => simp [hstate, hbeat] at hlatch
    | latch => simp [hstate] at hlatch
  · rw [posedge_state, stateNext]
    intro hidle
    cases hstate : s.state with
    | idle =>
        obtain hstart | hne := h.idle hstate
        · simp [hstate, hstart] at hidle
        · apply hkept hne
    | clear => simp [hstate] at hidle
    | run => simp [hstate, hbeat] at hidle
    | latch => apply hkept (h.latch hstate)

theorem undisturbed_occupied :
  Undisturbed accelerator Occupied
  := by
  intro s b e beat last h
  apply h.cycle (i := inputs (b.drive e) false beat last) rfl rfl

/-- Once no write is posted, an occupied accelerator reads as busy. -/
theorem reads_status_occupied :
  Reads accelerator Occupied Driver.SparseCnn.regStatus fun v s b =>
    Occupied s b ∧ v &&& Driver.SparseCnn.statusBusy ≠ 0
  := by
  apply reads_of
  intro s b e i h hi hbeat hposted
  have hnobeat : beat s i = false := by
    cases hb : beat s i
    · rfl
    · simp [beatOf, hb] at hbeat
  use h.cycle hi hnobeat
  rw [rdMux_status, statusBusy_iff, statusBusyBit, Bool.or_eq_true, bne_iff_ne, startTaken_eq,
    Bool.or_eq_true]
  by_cases hidle : s.state = .idle
  · right
    obtain hstart | hne := h.idle hidle
    · exact Or.inl hstart
    · right
      by_contra hc
      rw [Bool.not_eq_true] at hc
      rw [h.clean.posted_cycle hi, hc] at hposted
      apply hne hposted
  · exact Or.inl hidle

theorem jams_occupied :
  Jams accelerator sparseCnnOps Occupied
  := by
  constructor
  · apply undisturbed_occupied
  · intro m σ h
    apply wp_refuseBusy_of_busy undisturbed_occupied reads_status_occupied h

theorem simulates_refusing :
  Api.Simulates (P := platform accelerator Result) Driver.SparseCnn.exitApi
    (refusing FileCall.tileExit) fun _ => Jammed Occupied
  := by
  constructor
  · intro d
    apply stable_jammed jams_occupied
  · intro d c v hv
    obtain bytes | ⟨dst, count⟩ := c
    · obtain ⟨e, -, rfl⟩ := Option.map_eq_some_iff.mp hv
      use fun _ hexit => nomatch hexit
    · cases hv
  · intro d c v hv
    obtain bytes | ⟨dst, count⟩ := c
    · obtain rfl := Option.some.inj hv
      use fun _ hexit => nomatch hexit
    · use fun _ hexit => nomatch hexit
  · rintro d c σ hearly ⟨m, hσ⟩
    obtain bytes | ⟨dst, count⟩ := c
    · apply wp_writeTile_jammed jams_occupied hσ
    · apply Platform.wp_mono (wp_observes undisturbed_occupied quiet_empty
        (Driver.SparseCnn.performs_sparseCnnResult dst count) hσ)
      intro v τ hτ
      use fun _ hexit => nomatch hexit
      exact ⟨m, hτ⟩

/-! ### Every schedule -/

theorem performs_exitApi (c : FileCall) :
  (Driver.SparseCnn.exitApi.body c).Performs (Keeps (A := accelerator) Enabled)
  := by
  have hbody : (Driver.SparseCnn.api.body c).Performs (Keeps (A := accelerator) Enabled) := by
    apply Driver.performs_body (fun o ho => keeps_of_ne_writel _ ho.ne_writel) keeps_sparseCnnOps
  rw [Driver.SparseCnn.erases_exitApi.body c] at hbody
  apply Prog.performs_of_map hbody

/-- Whatever is called, the accelerator stays enabled, and ready until a tile gets stuck. -/
theorem simulates_enabled :
  Api.Simulates (P := platform accelerator Result) Driver.SparseCnn.exitApi
    (patient FileCall.tileExit) fun d σ => Between d Clean Ready σ ∧ Under Enabled σ
  := simulates_patient.and (stable_under controls_enabled) (upholds_under controls_enabled)
    performs_exitApi

theorem of_not_occupied {s : State} {b : Bus} (h : Clean s b) (hfree : ¬ Occupied s b) :
  b.posted = [] ∧ (s.state = .idle ∧ startPulse s = false ∨ s.state = .latch)
  := by
  by_cases hposted : b.posted = []
  · use hposted
    cases hstate : s.state with
    | idle =>
        left
        use rfl
        rw [← Bool.not_eq_true]
        intro hstart
        apply hfree
        use h
        · simp [hstate]
        · intro _
          exact Or.inl hstart
    | clear =>
        have hoccupied : Occupied s b := by use h <;> simp [hstate]
        cases hfree hoccupied
    | run =>
        have hoccupied : Occupied s b := by use h <;> simp [hstate]
        cases hfree hoccupied
    | latch => exact Or.inr rfl
  · have hoccupied : Occupied s b := ⟨h, fun _ => hposted, fun _ => .inr hposted⟩
    cases hfree hoccupied

/-- Between tiles an accelerator that is not occupied is ready after the next cycle. -/
theorem ready_cycle {s : State} {b : Bus} (h : Clean s b) (hfree : ¬ Occupied s b)
    {e : AxiLite.Inputs} {i : Inputs} (hi : i.axil = b.drive e) :
  Ready (posedge s i true) (b.cycle s.write i.axil)
  := by
  obtain ⟨hposted, ⟨hstate, hstart⟩ | hstate⟩ := of_not_occupied h hfree
  · have hready : Ready s b := ⟨h, hposted, hstate, hstart⟩
    apply hready.cycle hi
  · obtain ⟨hposted', hstart'⟩ := h.quiet hi hposted
    use h.cycle hi, hposted'
    rw [posedge_state, stateNext, hstate]

theorem at_ready_cycle (h : At .empty .empty m Clean σ) (hfree : ¬ Occupied σ.hw σ.bus) (e : Env) :
  At .empty .empty m Ready (cycle e σ)
  := by
  obtain ⟨htx, hrx, hmem, hclean⟩ := h
  have hquiet : Quiet σ.tx σ.rx := by
    rw [htx, hrx]
    apply quiet_empty
  obtain ⟨beat, last, heq⟩ := cycle_of_quiet hquiet e
  rw [heq]
  use htx, hrx, hmem
  apply ready_cycle hclean hfree (i := inputs (σ.bus.drive e.axil) false beat last) rfl

/-- An enabled sparse CNN between calls: not occupied, every tile can be served; occupied,
one got stuck. -/
theorem serves_or_jammed {d : Prop} (h : Between d Clean Ready σ ∧ Under Enabled σ) :
  (∀ bytes, accelWriteCheck sparseCnnOps bytes.length = none →
    (platform accelerator Result).Can (writeTile sparseCnnOps bytes)
      (fun v _ => FileCall.tileExit (.write bytes) v = some .done) σ)
  ∨ ¬ d ∧ Jammed Occupied σ
  := by
  obtain ⟨⟨m, hfresh, hat⟩, hctrl⟩ := h
  by_cases hoccupied : Occupied σ.hw σ.bus
  · right
    constructor
    · intro hd
      have hready := hat.holds.2 hd
      obtain hstart | hposted := hoccupied.idle hready.state
      · cases hready.start.symm.trans hstart
      · apply hposted hready.posted
    · exact ⟨m, hat.tx, hat.rx, hat.mem, hoccupied⟩
  · left
    intro bytes hbytes
    obtain ⟨hpos, hmod, -⟩ := of_accelWriteCheck _ hbytes
    change bytes.length % 2 = 0 at hmod
    have hN : bytes.length = bytes.length / 2 * 2 := by omega
    have hhalf : 0 < bytes.length / 2 := by omega
    let first : List Move := [.cycle drain]
    apply Platform.can_moves first
    have hready := at_ready_cycle (hat.imp fun _ _ h => h.1) hoccupied drain
    have hctrl' := stable_under controls_enabled (.cycle drain) _ hctrl
    let E := eagerContract (fill m.txBuf bytes) hN hhalf
    apply Platform.can_mono (E.can_writeTile readsOwn hctrl' hfresh hready)
    rintro v τ rfl
    rfl

/-- Of an enabled sparse CNN between calls: not occupied, every tile can be served;
occupied, one got stuck, and none is served any more. -/
theorem serves_or_refuses (hbetween : Between True Clean Ready σ) (henabled : Under Enabled σ)
    (es : List (Api.Event (platform accelerator Result) FileCall))
    (hfree : (Driver.SparseCnn.exitApi.schedule σ es).running = none) :
  ServesOrRefuses Driver.SparseCnn.exitApi sparseCnnOps FileCall.write FileCall.tileExit
    (Driver.SparseCnn.exitApi.schedule σ es)
  := by
  have hx := simulates_enabled.invariant ⟨hbetween, henabled⟩ es
  have hserves := hx.serves
  rw [hfree] at hserves
  obtain hserves | ⟨hstuck, hjammed⟩ := serves_or_jammed hserves
  · apply ServesOrRefuses.of_can hfree
    · intro bytes hbytes
      apply Option.map_eq_none_iff.mpr hbytes
    · apply hserves
  · apply ServesOrRefuses.of_jammed hfree hx.waiting simulates_refusing _ hjammed
    intro hunstuck
    apply hstuck ((patient_after _ _).mpr hunstuck)

theorem under_start {s : State} (h : IdleAtProbe s) (hen : enReg s = true)
    (txBuf rxBuf : ℕ → BitVec 8) (priv : Result) :
  Under Enabled (start (A := accelerator) s txBuf rxBuf priv)
  := by
  constructor
  · constructor
    · apply Bus.coherent_empty h.awPend h.wPend
    · apply List.forall_mem_nil
    · apply h.clear
  · apply hen

end SparseCnnAxi
