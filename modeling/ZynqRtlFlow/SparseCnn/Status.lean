import ZynqRtlFlow.SparseCnn.Control
import ZynqRtlFlow.SparseCnn.Tiles

/-!
# `STATUS` never shows the previous tile

A poll loop on `STATUS` needs no fence after the write that starts a tile: every read
accepted in the commit cycle or later shows the tile in flight until it is latched, and
every read after that shows it completed, with its results in `ACC` and `SKIP`, until the
next START commits.
-/

namespace SparseCnnAxi

open AxiLite

/-- A read of address `addr` accepted in this cycle returns `word`, however long the
master keeps it waiting. -/
def ReadReturns (s : State) (i : Inputs) (addr : BitVec 8) (word : BitVec 32) : Prop :=
  s.read.arFire i.axil = true → i.axil.araddr = addr →
    ∀ ls : List Inputs, (∀ l ∈ ls, l.axil.rready = false) →
      (machine.run s (i :: ls)).read = ⟨true, word⟩

theorem read_held {s : State} {word : BitVec 32} (hr : s.read = ⟨true, word⟩) (ls : List Inputs)
    (hls : ∀ l ∈ ls, l.axil.rready = false) :
  (machine.run s ls).read = ⟨true, word⟩
  := by
  induction ls generalizing s with
  | nil => apply hr
  | cons l ls ih =>
      have hl : l.axil.rready = false := hls l (by simp)
      apply ih
      · simp [machine, hr, ReadChannel.posedge, ReadChannel.arFire, ReadChannel.arready, hl]
      · intro k hk
        apply hls k (by simp [hk])

/-- A read returns the word its address selects in the cycle it is accepted. -/
theorem readReturns_rdMux (s : State) (i : Inputs) (addr : BitVec 8) :
  ReadReturns s i addr (rdMux s i addr)
  := by
  intro hfire haddr ls hls
  apply read_held _ ls hls
  simp [machine, ReadChannel.posedge, hfire, haddr]

theorem readReturns_status {s : State} {i : Inputs} {word : BitVec 32}
    (hw : statusWord s i = word) :
  ReadReturns s i regStatus word
  := by
  have h := readReturns_rdMux s i regStatus
  rw [rdMux, if_neg (by decide), if_neg (by decide), if_pos rfl, hw] at h
  apply h

/-! ### From the START to the latching cycle -/

theorem Armed.run {s : State} (ha : Armed s) (ks : List Inputs)
    (hl : ∀ c ∈ machine.history s ks, c.1.state ≠ .latch) :
  Armed (machine.run s ks)
  := by
  induction ks generalizing s with
  | nil => apply ha
  | cons k ks ih =>
      rw [Machine.history_cons, List.forall_mem_cons] at hl
      apply ih (ha.edge k hl.1) hl.2

/-- Until the latching cycle the beats of the tile in flight are those accepted since the
log had no tile in flight. -/
theorem beats_since {h : List Cycle} {s : State} (hs : Simulates (tileLog h) s)
    (hidle : s.state = .idle) (ks : List Inputs)
    (hl : ∀ c ∈ machine.history s ks, c.1.state ≠ .latch) :
  Simulates (tileLog (h ++ machine.history s ks)) (machine.run s ks)
    ∧ (tileLog (h ++ machine.history s ks)).current.toList.flatMap Tile.beats
      = accepted (machine.history s ks)
  := by
  induction ks using List.reverseRecOn with
  | nil =>
      have hnone : (tileLog h).current = none := by simpa [Follows, hidle] using hs.follows
      rw [Machine.history_nil, List.append_nil]
      use hs
      rw [hnone]
      rfl
  | append_singleton ks k ih =>
      rw [Machine.history_concat] at hl ⊢
      obtain ⟨hsim, hbeats⟩ := ih fun c hc => hl c (List.mem_append_left _ hc)
      have hne : (machine.run s ks).state ≠ .latch := by
        apply hl (machine.run s ks, k)
        simp
      rw [Machine.run_concat, ← List.append_assoc, tileLog_concat, accepted_concat]
      use hsim.edge k
      cases hlog : (tileLog (h ++ machine.history s ks)).current with
      | none =>
          have hb : beatOf (machine.run s ks) k = none := by
            by_contra hb
            obtain ⟨t, ht, -⟩ := hsim.current_of_beat (i := k) (by simpa [beatOf] using hb)
            rw [hlog] at ht
            cases ht
          rw [TileLog.cycle_none _ _ _ hlog, ← hbeats, hlog, hb]
          cases startPulse (machine.run s ks) <;> rfl
      | some t =>
          have ht : t.ended = false := by
            have hf := hsim.follows
            rw [hlog] at hf
            cases hst : (machine.run s ks).state with
            | idle => simp [Follows, hst] at hf
            | clear =>
                simp only [Follows, hst, Option.some.injEq] at hf
                rw [hf]
                rfl
            | run =>
                simp only [Follows, hst, Option.some.injEq] at hf
                obtain ⟨t', rfl, ht', -⟩ := hf
                apply ht'
            | latch => exact absurd hst hne
          rw [TileLog.cycle_open _ _ _ hlog ht, ← hbeats, hlog]
          simp [Tile.beats_cycle]

/-! ### After the latching cycle -/

/-- In the latching cycle the processing element holds the results of the tile. -/
theorem Simulates.current_of_latch {log : TileLog} {s : State} (hs : Simulates log s)
    (hl : s.state = .latch) :
  ∃ t, log.current = some t ∧ t.ended = true ∧ Holds s.pe t
  := by
  have hf := hs.follows
  rw [hl] at hf
  apply hf

theorem cleared_or {α : Type*} [Zero α] (now later : Bool) (value : α) :
  (if later then 0 else if now then 0 else value) = if now || later then 0 else value
  := by
  cases now <;> cases later <;> rfl

/-- With no tile in flight or about to be, the results stay until a CLEAR pulse. -/
theorem Settled.run {s : State} (hs : Settled s) (ms : List Inputs)
    (hc : ∀ c ∈ machine.history s ms, startCommit c.1 c.2 = false) :
  Settled (machine.run s ms)
    ∧ (machine.run s ms).accQ
      = (if (machine.history s ms).any (fun c => clearPulse c.1) then 0 else s.accQ)
    ∧ (machine.run s ms).skipQ
      = (if (machine.history s ms).any (fun c => clearPulse c.1) then 0 else s.skipQ)
  := by
  induction ms generalizing s with
  | nil =>
      use hs
      constructor
      · rfl
      · rfl
  | cons m ms ih =>
      rw [Machine.history_cons, List.forall_mem_cons] at hc
      have hne : s.state ≠ .latch := by simp [hs.state]
      obtain ⟨hset, hacc, hskip⟩ := ih (hs.edge m hc.1) hc.2
      rw [Machine.run_cons, Machine.history_cons, List.any_cons, machine_next]
      use hset
      constructor
      · rw [hacc, posedge_accQ, accNext_of_ne_latch hne]
        apply cleared_or
      · rw [hskip, posedge_skipQ, skipNext_of_ne_latch hne]
        apply cleared_or

/-- After the latching cycle the tile's results stay until a CLEAR pulse. -/
theorem results_after_latch {s : State} (hl : s.state = .latch) (j : Inputs) (ms : List Inputs)
    (hc : ∀ c ∈ machine.history s (j :: ms), startCommit c.1 c.2 = false) :
  Settled (machine.run s (j :: ms))
    ∧ (machine.run s (j :: ms)).accQ
      = (if (machine.history s (j :: ms)).any (fun c => clearPulse c.1) then 0 else s.pe.acc)
    ∧ (machine.run s (j :: ms)).skipQ
      = (if (machine.history s (j :: ms)).any (fun c => clearPulse c.1) then 0
        else s.pe.skipCount)
  := by
  rw [Machine.history_cons, List.forall_mem_cons] at hc
  obtain ⟨hset, hacc, hskip⟩ := (settled_of_latch j hl hc.1).run ms hc.2
  rw [Machine.run_cons, Machine.history_cons, List.any_cons, machine_next]
  use hset
  constructor
  · rw [hacc, posedge_accQ, accNext, if_pos hl]
    apply cleared_or
  · rw [hskip, posedge_skipQ, skipNext, if_pos hl]
    apply cleared_or

/-! ### The claim of the register map -/

/-- What `STATUS`, `ACC` and `SKIP` show of the tile started by a START that commits in
the state `t` with inputs `i`, after the history `h`. -/
structure ShowsTile (h : List Cycle) (t : State) (i : Inputs) : Prop where
  /-- A read accepted in the commit cycle sees the tile in flight. -/
  commit : ReadReturns t i regStatus 1#32
  /-- So does every later one through the latching cycle. -/
  inFlight : ∀ (ks : List Inputs) (j : Inputs),
    (∀ c ∈ machine.history t (i :: ks), c.1.state ≠ .latch) →
    ReadReturns (machine.run t (i :: ks)) j regStatus 1#32
  /-- After the latching cycle `j`, and before a START commits in or after it, every read
  sees the tile completed, and the results are those of its beats, the ones accepted
  since the START, or zero if a CLEAR was pulsed since. -/
  completed : ∀ (ks : List Inputs) (j : Inputs) (ms : List Inputs) (r : Inputs),
    (∀ c ∈ machine.history t (i :: ks), c.1.state ≠ .latch) →
    (machine.run t (i :: ks)).state = .latch →
    (∀ c ∈ machine.history (machine.run t (i :: ks)) (j :: (ms ++ [r])),
      startCommit c.1 c.2 = false) →
    let since := machine.history (machine.run t (i :: ks)) (j :: ms)
    let now := machine.run (machine.run t (i :: ks)) (j :: ms)
    ReadReturns now r regStatus 2#32
      ∧ ∃ tile, (tileLog (h ++ machine.history t (i :: ks))).current = some tile
        ∧ tile.beats = accepted (machine.history t (i :: ks))
        ∧ now.accQ = (if since.any (fun c => clearPulse c.1) then 0 else tile.acc)
        ∧ now.skipQ = (if since.any (fun c => clearPulse c.1) then 0 else tile.skip)

theorem showsTile {h : List Cycle} {t : State} (hs : Simulates (tileLog h) t)
    (hex : ∀ is, Exclusive (machine.run t is)) (hidle : t.state = .idle) {i : Inputs}
    (hc : startCommit t i = true) :
  ShowsTile h t i
  := by
  have harmed : ∀ ks : List Inputs,
      (∀ c ∈ machine.history t (i :: ks), c.1.state ≠ .latch) →
      Armed (machine.run t (i :: ks)) := by
    intro ks hl
    rw [Machine.history_cons, List.forall_mem_cons] at hl
    apply (armed_of_startCommit i hc).run ks hl.2
  constructor
  · apply readReturns_status
    apply statusWord_of_busy i (hex [])
    intro _
    simp [startTaken_eq, hc]
  · intro ks j hl
    apply readReturns_status
    apply statusWord_of_busy j (hex (i :: ks))
    intro hst
    rw [startTaken_eq, harmed ks hl hst, Bool.true_or]
  · intro ks j ms r hl hlatch hquiet since now
    rw [← List.cons_append, Machine.history_append, List.forall_mem_append] at hquiet
    obtain ⟨hset, hacc, hskip⟩ := results_after_latch hlatch j ms hquiet.1
    obtain ⟨hsim, hbeats⟩ := beats_since hs hidle (i :: ks) hl
    obtain ⟨tile, htile, -, hholds⟩ := hsim.current_of_latch hlatch
    constructor
    · apply readReturns_status
      apply hset.statusWord
      apply hquiet.2 (now, r)
      simp [now]
    · use tile, htile
      constructor
      · rw [htile] at hbeats
        simpa using hbeats
      · rw [← hholds.1, ← hholds.2]
        use hacc, hskip

/-- In every run from reset, `BUSY` and `DONE` are never both up, and `STATUS` never
shows the previous tile once a START has committed. -/
theorem status_never_shows_previous_tile (s : State) (i₀ : Inputs) (is : List Inputs) :
  (∀ i : Inputs,
      ¬ ((statusWord (machine.run (reset s i₀) is) i).getLsbD statusBusy = true
        ∧ (statusWord (machine.run (reset s i₀) is) i).getLsbD statusDone = true))
    ∧ ∀ i : Inputs, (machine.run (reset s i₀) is).state = .idle →
      startCommit (machine.run (reset s i₀) is) i = true →
      ShowsTile (machine.history (reset s i₀) is) (machine.run (reset s i₀) is) i
  := by
  have hex := exclusive_run s i₀ is
  constructor
  · rintro i ⟨hbusy, hdone⟩
    rw [statusWord_busy, statusBusyBit] at hbusy
    rw [statusWord_done, statusDoneBit] at hdone
    by_cases hidle : (machine.run (reset s i₀) is).state = .idle
    · simp_all
    · simp [hex hidle] at hdone
  · intro i hidle hc
    apply showsTile (simulates_run s i₀ is) _ hidle hc
    intro ks
    rw [← Machine.run_append]
    apply exclusive_run

/-- An all-zero state of the registers. -/
def zero : State where
  write := ⟨false, false, false, 0, 0, 0⟩
  read := ⟨false, 0⟩
  ctrlReg := 0
  state := .idle
  doneQ := false
  accQ := 0
  skipQ := 0
  pe := ⟨0, 0, false⟩

/-- A cycle with nothing presented and every response taken. -/
def quiet : Inputs where
  axil := ⟨0, false, 0, 0, false, true, 0, false, true⟩
  tdata := 0
  tvalid := false
  tlast := false

/-- A cycle that presents the write of `word` to `CTRL`. -/
def ctrlCycle (word : BitVec 32) : Inputs :=
  { quiet with axil := ⟨regCtrl, true, word, 0xF, true, true, 0, false, true⟩ }

/-- A cycle that presents a `tlast` beat. -/
def lastBeatCycle (data : BitVec 16) : Inputs :=
  { quiet with tdata := data, tvalid := true, tlast := true }

/-- A cycle that presents a read of `STATUS`. -/
def statusCycle : Inputs :=
  { quiet with axil := ⟨0, false, 0, 0, false, true, regStatus, true, true⟩ }

/-- A one-beat tile: `STATUS` read in the cycle after the latching one. -/
theorem status_of_one_beat_tile :
  ReadReturns
    (machine.run (reset zero quiet) [ctrlCycle 5, quiet, quiet, lastBeatCycle 0x0302, quiet])
    statusCycle regStatus 2#32
  :=
  (((status_never_shows_previous_tile zero quiet []).2 (ctrlCycle 5) rfl (by decide)).completed
    [quiet, quiet, lastBeatCycle 0x0302] quiet [] statusCycle (by decide) (by decide)
    (by decide)).1

end SparseCnnAxi
