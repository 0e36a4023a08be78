import ZynqRtlFlow.Relu.Registers

/-!
# The check for a short tile

`relu_finish` is meant to catch a return transfer that a `tlast` beat ended early: `COUNT`
then differs from the number of beats sent.  The check is sound exactly when the beat that
would have completed the tile is not accepted in the cycle in which that `tlast` beat
leaves: there the accelerator counts it into the short tile.
-/

namespace ReluAxi

open AxiLite Driver Board
open Driver.Relu (reluFinish)

/-! ### The two transfers -/

/-- The S2MM side takes beats until it has `n` of them or the first `tlast` beat. -/
def TakesUpTo (n : ℕ) (h : List Cycle) : Prop :=
  ∀ p ∈ withPast h, p.2.2.mTready = true →
    (delivered p.1).length < n ∧ ∀ b ∈ delivered p.1, b.last = false

/-- The return transfer is complete. -/
def Returned (n : ℕ) (h : List Cycle) : Prop :=
  (delivered h).length = n ∨ ∃ b ∈ delivered h, b.last = true

/-- The `n`-th beat is accepted in a cycle in which a `tlast` beat leaves. -/
def NthOverTlast (n : ℕ) (h : List Cycle) : Prop :=
  ∃ p ∈ withPast h, overlap p.2.1 p.2.2 = true ∧ (accepted p.1).length + 1 = n

instance (n : ℕ) (h : List Cycle) : Decidable (TakesUpTo n h) :=
  inferInstanceAs (Decidable (∀ p ∈ withPast h, _ → _))

instance (n : ℕ) (h : List Cycle) : Decidable (Returned n h) :=
  inferInstanceAs (Decidable (_ ∨ _))

instance (n : ℕ) (h : List Cycle) : Decidable (NthOverTlast n h) :=
  inferInstanceAs (Decidable (∃ p ∈ withPast h, _))

theorem takesUpTo_concat (n : ℕ) (h : List Cycle) (s : State) (i : Inputs) :
  TakesUpTo n (h ++ [(s, i)]) ↔ TakesUpTo n h ∧ (i.mTready = true →
    (delivered h).length < n ∧ ∀ b ∈ delivered h, b.last = false)
  := by
  rw [TakesUpTo, withPast_concat, List.forall_mem_append, List.forall_mem_singleton, TakesUpTo]

theorem nthOverTlast_concat (n : ℕ) (h : List Cycle) (s : State) (i : Inputs) :
  NthOverTlast n (h ++ [(s, i)])
    ↔ NthOverTlast n h ∨ (overlap s i = true ∧ (accepted h).length + 1 = n)
  := by
  simp only [NthOverTlast, withPast_concat, List.mem_append, List.mem_singleton, or_and_right,
    exists_or, exists_eq_left]

/-! ### An idle accelerator -/

/-- The accelerator is idle: not `BUSY`, and no beat in the output register. -/
structure Drained (s : State) : Prop where
  busy : s.busyQ = false
  free : s.outValidQ = false

theorem beatsQ_of_idle (s : State) (i : Inputs) (is : List Inputs)
    (hbusy : (machine.run (reset s i) is).busyQ = false) :
  (machine.run (reset s i) is).beatsQ = 0
  := by
  revert hbusy
  apply machine.run_invariant (P := fun t => t.busyQ = false → t.beatsQ = 0)
  · intro _
    rfl
  · intro t j ht hbusy
    rw [machine_next] at hbusy ⊢
    cases hd : tileDone t j
    · cases hin : inFire t j
      · rw [posedge_beatsQ, beatsNext, hd, hin]
        apply ht
        simpa [busyNext, hd, hin] using hbusy
      · simp [busyNext, hd, hin] at hbusy
    · simp [beatsNext, hd]

/-! ### Where the return transfer is -/

/-- Where the return transfer is: still going; ended by a `tlast` beat, with nothing
accepted since; ended so in the cycle another beat was accepted; or ended so before
another beat was accepted. -/
inductive Return (n : ℕ) (h : List Cycle) (s : State) : Prop
  | going (hlast : ∀ b ∈ delivered h, b.last = false) (hover : ¬ NthOverTlast n h)
      (hlen : (accepted h).length = (delivered h).length + s.outValidQ.toNat)
      (hbeats : s.beatsQ = BitVec.ofNat 16 (accepted h).length)
      (hbusy : s.busyQ = decide (accepted h ≠ [])) (hdone : accepted h ≠ [] → s.doneQ = false) :
      Return n h s
  | whole (hlast : ∃ b ∈ delivered h, b.last = true) (hover : ¬ NthOverTlast n h)
      (hfree : s.outValidQ = false) (hbusy : s.busyQ = false)
      (hcount : s.countQ = BitVec.ofNat 16 (delivered h).length) : Return n h s
  | overrun (hlast : ∃ b ∈ delivered h, b.last = true)
      (hover : NthOverTlast n h ↔ (delivered h).length + 1 = n) (hheld : s.outValidQ = true)
      (hdone : s.doneQ = true)
      (hcount : s.countQ = BitVec.ofNat 16 ((delivered h).length + 1)) : Return n h s
  | late (hlast : ∃ b ∈ delivered h, b.last = true) (hover : ¬ NthOverTlast n h)
      (hheld : s.outValidQ = true) (hdone : s.doneQ = false) : Return n h s

section Edge

variable {n : ℕ} {h : List Cycle} {s : State} {i : Inputs}

/-- Unless a `tlast` beat leaves, a return transfer that is going keeps going. -/
theorem going_edge (hlast : ∀ b ∈ delivered h, b.last = false) (hover : ¬ NthOverTlast n h)
    (hlen : (accepted h).length = (delivered h).length + s.outValidQ.toNat)
    (hbeats : s.beatsQ = BitVec.ofNat 16 (accepted h).length)
    (hbusy : s.busyQ = decide (accepted h ≠ [])) (hdone : accepted h ≠ [] → s.doneQ = false)
    (hd : tileDone s i = false) :
  Return n (h ++ [(s, i)]) (posedge s i true)
  := by
  have hlast' : ∀ b ∈ delivered (h ++ [(s, i)]), b.last = false := by
    rw [delivered_concat, List.forall_mem_append]
    use hlast
    cases hout : outFire s i
    · apply List.forall_mem_nil
    · rw [if_pos rfl, List.forall_mem_singleton]
      simpa [tileDone, hout, beatOut] using hd
  have hover' : ¬ NthOverTlast n (h ++ [(s, i)]) := by
    rw [nthOverTlast_concat, overlap, hd]
    simp [hover]
  have hdelivered : (delivered (h ++ [(s, i)])).length
      = (delivered h).length + (outFire s i).toNat := by
    rw [delivered_concat]
    cases outFire s i <;> simp
  cases hin : inFire s i
  · have haccepted : accepted (h ++ [(s, i)]) = accepted h := by
      simp [accepted_concat, hin]
    apply Return.going hlast' hover'
    · rw [haccepted, hdelivered, hlen, posedge_outValidQ, outValidNext, hin]
      cases hv : s.outValidQ <;> cases hr : i.mTready <;> simp [outFire, hv, hr]
    · rw [haccepted, ← hbeats, posedge_beatsQ, beatsNext, hd, hin]
      rfl
    · rw [haccepted, ← hbusy, posedge_busyQ, busyNext, hd, hin]
      rfl
    · rw [haccepted, posedge_doneQ, doneNext, hd, hin]
      apply hdone
  · have haccepted : accepted (h ++ [(s, i)]) = accepted h ++ [beatIn i] := by
      simp [accepted_concat, hin]
    apply Return.going hlast' hover'
    · rw [haccepted, hdelivered, List.length_append, hlen, posedge_outValidQ, outValidNext, hin]
      cases hv : s.outValidQ
      · simp [outFire, hv]
      · simp [outFire_of_inFire hin hv]
    · rw [haccepted, List.length_append, BitVec.ofNat_add, ← hbeats, posedge_beatsQ, beatsNext,
        hd, hin]
      rfl
    · rw [haccepted, posedge_busyQ, busyNext, hd, hin]
      cases s.busyQ <;> simp
    · intro _
      rw [posedge_doneQ, doneNext, hd, hin]
      cases hb : s.busyQ
      · rfl
      · rw [hbusy, decide_eq_true_eq] at hb
        apply hdone hb

/-- A `tlast` beat ends the return transfer. -/
theorem end_edge (hover : ¬ NthOverTlast n h)
    (hlen : (accepted h).length = (delivered h).length + s.outValidQ.toNat)
    (hbeats : s.beatsQ = BitVec.ofNat 16 (accepted h).length) (hd : tileDone s i = true) :
  Return n (h ++ [(s, i)]) (posedge s i true)
  := by
  obtain ⟨hout, hq⟩ := Bool.and_eq_true_iff.mp hd
  have hv := (Bool.and_eq_true_iff.mp hout).1
  rw [hv, Bool.toNat_true] at hlen
  have hdelivered : delivered (h ++ [(s, i)]) = delivered h ++ [beatOut s] := by
    rw [delivered_concat, hout, if_pos rfl]
  have hlen' : (delivered (h ++ [(s, i)])).length = (accepted h).length := by
    rw [hdelivered, List.length_append, hlen]
    rfl
  have hlast : ∃ b ∈ delivered (h ++ [(s, i)]), b.last = true := by
    rw [hdelivered]
    use beatOut s, by simp
    apply hq
  cases hin : inFire s i
  · apply Return.whole hlast
    · rw [nthOverTlast_concat, overlap, hin]
      simp [hover]
    · simp [outValidNext, hin, hout]
    · simp [busyNext, hd]
    · rw [hlen', ← hbeats, posedge_countQ, countNext, hd, hin]
      rfl
  · apply Return.overrun hlast
    · rw [nthOverTlast_concat, overlap, hin, hd, hlen']
      simp [hover]
    · simp [outValidNext, hin]
    · simp [doneNext, hd]
    · rw [hlen', posedge_countQ, countNext, hd, hin, hbeats, BitVec.ofNat_add]
      rfl

/-- A return transfer that has ended takes no beat, so none leaves. -/
theorem outFire_of_ended (htakes : i.mTready = true →
      (delivered h).length < n ∧ ∀ b ∈ delivered h, b.last = false)
    (hlast : ∃ b ∈ delivered h, b.last = true) :
  i.mTready = false
  := by
  cases hr : i.mTready
  · rfl
  · obtain ⟨b, hb, hl⟩ := hlast
    rw [(htakes hr).2 b hb] at hl
    cases hl

/-- With the beat held not taken, no beat moves. -/
theorem still_of_held (hr : i.mTready = false) (hheld : s.outValidQ = true) :
  inFire s i = false ∧ outFire s i = false
  := by
  simp [inFire, sTready, outFire, hr, hheld]

theorem return_edge (hreturn : Return n h s) (htakes : i.mTready = true →
      (delivered h).length < n ∧ ∀ b ∈ delivered h, b.last = false) :
  Return n (h ++ [(s, i)]) (posedge s i true)
  := by
  cases hreturn with
  | going hlast hover hlen hbeats hbusy hdone =>
      cases hd : tileDone s i
      · apply going_edge hlast hover hlen hbeats hbusy hdone hd
      · apply end_edge hover hlen hbeats hd
  | whole hlast hover hfree hbusy hcount =>
      have hr := outFire_of_ended htakes hlast
      have hout : outFire s i = false := by simp [outFire, hr]
      have hdelivered : delivered (h ++ [(s, i)]) = delivered h := by
        simp [delivered_concat, hout]
      have hd := tileDone_still hout
      have hover' : ¬ NthOverTlast n (h ++ [(s, i)]) := by
        rw [nthOverTlast_concat, overlap, hd]
        simp [hover]
      rw [← hdelivered] at hlast hcount
      cases hin : inFire s i
      · apply Return.whole hlast hover'
        · apply (outValidQ_still hin hout).trans hfree
        · apply (busyQ_still hin hout).trans hbusy
        · apply (countQ_still hout).trans hcount
      · apply Return.late hlast hover'
        · simp [outValidNext, hin]
        · simp [doneNext, hd, hin, hbusy]
  | overrun hlast hover hheld hdone hcount =>
      have hr := outFire_of_ended htakes hlast
      obtain ⟨hin, hout⟩ := still_of_held hr hheld
      have hdelivered : delivered (h ++ [(s, i)]) = delivered h := by
        simp [delivered_concat, hout]
      rw [← hdelivered] at hlast hcount hover
      apply Return.overrun hlast
      · rw [nthOverTlast_concat, overlap, hin, hover]
        simp
      · apply (outValidQ_still hin hout).trans hheld
      · apply (doneQ_still hin hout).trans hdone
      · apply (countQ_still hout).trans hcount
  | late hlast hover hheld hdone =>
      have hr := outFire_of_ended htakes hlast
      obtain ⟨hin, hout⟩ := still_of_held hr hheld
      have hdelivered : delivered (h ++ [(s, i)]) = delivered h := by
        simp [delivered_concat, hout]
      rw [← hdelivered] at hlast
      apply Return.late hlast
      · rw [nthOverTlast_concat, overlap, hin]
        simp [hover]
      · apply (outValidQ_still hin hout).trans hheld
      · apply (doneQ_still hin hout).trans hdone

end Edge

/-- The return transfer after every run from an empty accelerator. -/
theorem return_run {s : State} (hs : Drained s) (hbeats : s.beatsQ = 0) {n : ℕ} (is : List Inputs)
    (htakes : TakesUpTo n (machine.history s is)) :
  Return n (machine.history s is) (machine.run s is)
    ∧ (delivered (machine.history s is)).length ≤ n
  := by
  induction is using List.reverseRecOn with
  | nil =>
      constructor
      · apply Return.going
        · apply List.forall_mem_nil
        · simp [NthOverTlast]
        · rw [Machine.run_nil, hs.free]
          rfl
        · rw [Machine.run_nil, hbeats]
          rfl
        · rw [Machine.run_nil, hs.busy]
          rfl
        · intro hne
          exact absurd rfl hne
      · apply Nat.zero_le
  | append_singleton is i ih =>
      rw [machine.history_concat, takesUpTo_concat] at htakes
      rw [machine.history_concat, machine.run_concat]
      obtain ⟨hreturn, hle⟩ := ih htakes.1
      constructor
      · apply return_edge hreturn htakes.2
      · rw [delivered_concat]
        cases hout : outFire (machine.run s is) i
        · simpa using hle
        · have hlt := (htakes.2 (Bool.and_eq_true_iff.mp hout).2).1
          simpa [Nat.succ_le_iff] using hlt

/-! ### The check -/

/-- Once the return transfer is complete, what `STATUS` and `COUNT` say of it. -/
theorem Return.sound_iff {n : ℕ} {h : List Cycle} {s : State} (hreturn : Return n h s)
    (hle : (delivered h).length ≤ n) (hn : n ≤ Driver.accelMaxBeats) (hcomplete : Returned n h) :
  ((s.doneQ = true ∧ s.countQ.toNat = n) → (delivered h).length = n) ↔ ¬ NthOverTlast n h
  := by
  have hn' : n ≤ 4096 := hn
  cases hreturn with
  | going hlast hover =>
      have hlen : (delivered h).length = n := by
        obtain hlen | ⟨b, hb, hl⟩ := hcomplete
        · apply hlen
        · rw [hlast b hb] at hl
          cases hl
      simp [hlen, hover]
  | whole hlast hover hfree hbusy hcount =>
      have hnat : s.countQ.toNat = (delivered h).length := by
        rw [hcount, BitVec.toNat_ofNat]
        omega
      simp only [hover, not_false_iff, iff_true]
      rintro ⟨-, hc⟩
      rw [← hnat, hc]
  | overrun hlast hover hheld hdone hcount =>
      have hnat : s.countQ.toNat = (delivered h).length + 1 := by
        rw [hcount, BitVec.toNat_ofNat]
        omega
      rw [hover, hnat]
      constructor
      · intro himp heq
        have hlen := himp ⟨hdone, heq⟩
        omega
      · rintro hne ⟨-, heq⟩
        exact absurd heq hne
  | late hlast hover hheld hdone =>
      simp [hdone, hover]

/-- `relu_finish`, after the two transfers of a tile of `n` beats, on any run of the
board: it accepts only a whole tile, unless and only unless the `n`-th beat was accepted
in the cycle in which a `tlast` beat left. -/
theorem short_tile_check_iff (s : State) (i : Inputs) (before : List Inputs)
    (hidle : Drained (machine.run (reset s i) before)) {n : ℕ} (hn : n ≤ Driver.accelMaxBeats)
    (is : List Inputs) (htakes : TakesUpTo n (machine.history (machine.run (reset s i) before) is))
    (hcomplete : Returned n (machine.history (machine.run (reset s i) before) is))
    (σ : Board.State accelerator Unit)
    (hhw : σ.hw = machine.run (machine.run (reset s i) before) is)
    (hquiet : Quiet σ.tx σ.rx) {ret : Except Errno Unit} {τ : Board.State accelerator Unit}
    (hrun : (platform accelerator Unit).Runs (reluFinish n) σ ret τ) :
  (ret = .ok () → (delivered (machine.history (machine.run (reset s i) before) is)).length = n)
    ↔ ¬ NthOverTlast n (machine.history (machine.run (reset s i) before) is)
  := by
  obtain ⟨hreturn, hle⟩ := return_run hidle (beatsQ_of_idle s i before hidle.busy) is htakes
  have hknown : Undisturbed accelerator fun t _ => t.doneQ = σ.hw.doneQ ∧ t.countQ = σ.hw.countQ := by
    apply undisturbed_of
    rintro t b e j ⟨hdone, hcount⟩ - hin hout
    use (doneQ_still hin hout).trans hdone
    apply (countQ_still hout).trans hcount
  have hfinish := wp_reluFinish hknown (fun _ _ h => h) hquiet ⟨rfl, rfl, rfl, rfl, rfl⟩ n
  rw [(Platform.post_of_runs hfinish hrun).1, hhw]
  apply hreturn.sound_iff hle hn hcomplete

/-- What is left open while the driver reads the registers: every response is taken at
once. -/
def taking : Choice where
  env := ⟨⟨0, false, 0, 0, false, false, 0, false, true⟩, false, false⟩
  ok := true
  err := .EBUSY
  buf _ := 0
  polls := 0

/-- The board after the transfers of a run from reset with one-beat tiles presented. -/
def boardAfter (presented : List Bool) : Board.State accelerator Unit :=
  start (machine.run (reset zero (tileCycle false)) (presented.map tileCycle)) (fun _ => 0)
    (fun _ => 0) ()

/-- The only beat of a tile of one is delivered, the check having accepted it. -/
theorem short_tile_check_one :
  (delivered (machine.history (reset zero (tileCycle false)) [tileCycle true, tileCycle false])).length
    = 1
  :=
  (short_tile_check_iff zero (tileCycle false) [] ⟨rfl, rfl⟩ (n := 1) (by decide)
    [tileCycle true, tileCycle false] (by decide) (by decide) (boardAfter [true, false]) rfl
    ⟨rfl, rfl⟩
    ⟨[], taking, (0 : ℕ), _, rfl, [], taking, (2#32 : BitVec 32), _, rfl,
      [Move.cycle taking.env], taking, (1#32 : BitVec 32), _, rfl, rfl, [], rfl⟩).mpr
    (by decide) rfl

/-- A tile of two beats, the first marked as last, presented without a gap: one beat is
returned, and the check accepts the tile. -/
theorem short_tile_accepted :
  Drained (reset zero (tileCycle false))
    ∧ TakesUpTo 2 (machine.history (reset zero (tileCycle false)) [tileCycle true, tileCycle true])
    ∧ Returned 2 (machine.history (reset zero (tileCycle false)) [tileCycle true, tileCycle true])
    ∧ (accepted (machine.history (reset zero (tileCycle false))
      [tileCycle true, tileCycle true])).length = 2
    ∧ (delivered (machine.history (reset zero (tileCycle false))
      [tileCycle true, tileCycle true])).length = 1
    ∧ ∃ τ, (platform accelerator Unit).Runs (reluFinish 2) (boardAfter [true, true]) (.ok ()) τ
  :=
  ⟨⟨rfl, rfl⟩, by decide, by decide, by decide, by decide,
    _, [], taking, (0 : ℕ), _, rfl, [], taking, (2#32 : BitVec 32), _, rfl,
    [Move.cycle taking.env], taking, (2#32 : BitVec 32), _, rfl, rfl, [], rfl⟩

end ReluAxi
