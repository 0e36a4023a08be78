import ZynqRtlFlow.Board.Contract
import ZynqRtlFlow.Driver.Relu
import ZynqRtlFlow.Relu.Stream

/-!
# The Leaky ReLU keeps the accelerator contract

With a tile of `n` bytes presented in order, `tlast` on the last beat only, the beats out
are the bytes activated with the one slope that was due when the tile was accepted.
Between tiles the accelerator is empty or reports `BUSY`, so a tile is accepted only by an
empty accelerator.
-/

namespace ReluAxi

open AxiLite Driver Board

/-! ### The slope and the writes posted -/

/-- The slope once the writes posted have landed. -/
def slopeDue (slope : BitVec 8) (posted : List (BitVec 8 × BitVec 32)) : BitVec 8 :=
  posted.foldl (fun v x => if x.1 = regSlope then x.2.setWidth 8 else v) slope

/-- The slope is the one in the register, and no write posted changes it. -/
structure Steady (slope : BitVec 8) (s : State) (b : Bus) : Prop where
  coherent : b.Coherent s.write
  slope : s.slopeReg = slope
  posted : ∀ x ∈ b.posted, x.1 ≠ regSlope

section Slope

variable {s : State} {b : Bus} (h : b.Coherent s.write) {e : AxiLite.Inputs} {i : Inputs}
  (hi : i.axil = b.drive e)

include h hi

/-- The slope due does not change in a cycle: a write that lands is no longer posted. -/
theorem slopeDue_cycle :
  slopeDue (posedge s i true).slopeReg (b.cycle s.write i.axil).posted
    = slopeDue s.slopeReg b.posted
  := by
  rw [slopeReg_posedge, slopeLands, slopeWr, hi]
  cases hc : s.write.wrCommit (b.drive e)
  · rw [(h.cycle_of_wait hc).2, Bool.false_and, Bool.false_and]
    rfl
  · obtain ⟨-, hstrb, hposted⟩ := h.cycle_of_commit hc
    rw [hposted, hstrb, slopeDue, slopeDue, List.foldl_cons]
    simp

omit hi in
theorem posted_cycle (x : BitVec 8 × BitVec 32)
    (hx : x ∈ (b.cycle s.write (b.drive e)).posted) :
  x ∈ b.posted
  := by
  cases hc : s.write.wrCommit (b.drive e)
  · rw [(h.cycle_of_wait hc).2] at hx
    apply hx
  · rw [(h.cycle_of_commit hc).2.2]
    apply List.mem_cons_of_mem _ hx

end Slope

theorem slopeDue_of_ne {slope : BitVec 8} {posted : List (BitVec 8 × BitVec 32)}
    (h : ∀ x ∈ posted, x.1 ≠ regSlope) :
  slopeDue slope posted = slope
  := by
  induction posted with
  | nil => rfl
  | cons x xs ih =>
      rw [List.forall_mem_cons] at h
      rw [slopeDue, List.foldl_cons, if_neg h.1]
      apply ih h.2

theorem slopeDue_append (slope : BitVec 8) (posted : List (BitVec 8 × BitVec 32))
    (word : BitVec 32) :
  slopeDue slope (posted ++ [(Driver.Relu.regSlope, word)]) = word.setWidth 8
  := by
  rw [slopeDue, List.foldl_append]
  rfl

theorem Steady.cycle {slope : BitVec 8} {s : State} {b : Bus} (h : Steady slope s b)
    {e : AxiLite.Inputs} {i : Inputs} (hi : i.axil = b.drive e) :
  Steady slope (posedge s i true) (b.cycle s.write i.axil)
  := by
  have hposted : ∀ x ∈ (b.cycle s.write i.axil).posted, x.1 ≠ regSlope := by
    intro x hx
    rw [hi] at hx
    apply h.posted x (posted_cycle h.coherent x hx)
  constructor
  · apply h.coherent.cycle_of_drive hi
  · have hdue := slopeDue_cycle h.coherent hi
    rw [slopeDue_of_ne hposted, slopeDue_of_ne h.posted] at hdue
    rw [hdue, h.slope]
  · apply hposted

/-! ### A cycle in which no beat moves -/

theorem inputs_axil (axil : AxiLite.Inputs) (valid : Bool) (beat : List (BitVec 8))
    (last ready : Bool) :
  (inputs axil valid beat last ready).axil = axil
  := rfl

theorem inFire_still (s : State) (axil : AxiLite.Inputs) (beat : List (BitVec 8)) (last ready : Bool) :
  inFire s (inputs axil false beat last ready) = false
  := rfl

theorem outFire_still (s : State) (axil : AxiLite.Inputs) (valid : Bool) (beat : List (BitVec 8))
    (last : Bool) :
  outFire s (inputs axil valid beat last false) = false
  := by
  simp [outFire, inputs]

section Still

variable {s : State} {i : Inputs} (hin : inFire s i = false) (hout : outFire s i = false)

include hout

theorem tileDone_still :
  tileDone s i = false
  := by
  rw [tileDone, hout, Bool.false_and]

theorem countQ_still :
  (posedge s i true).countQ = s.countQ
  := by
  rw [posedge_countQ, countNext, tileDone_still hout]
  rfl

include hin

theorem outValidQ_still :
  (posedge s i true).outValidQ = s.outValidQ
  := by
  rw [posedge_outValidQ, outValidNext, hin, hout]
  rfl

theorem busyQ_still :
  (posedge s i true).busyQ = s.busyQ
  := by
  rw [posedge_busyQ, busyNext, tileDone_still hout, hin]
  rfl

theorem doneQ_still :
  (posedge s i true).doneQ = s.doneQ
  := by
  rw [posedge_doneQ, doneNext, tileDone_still hout, hin]
  rfl

theorem beatsQ_still :
  (posedge s i true).beatsQ = s.beatsQ
  := by
  rw [posedge_beatsQ, beatsNext, tileDone_still hout, hin]
  rfl

end Still

/-! ### Between tiles -/

/-- An assertion is kept while no beat moves if an edge that moves none keeps it. -/
theorem undisturbed_of {I : State → Bus → Prop}
    (hI : ∀ s b e i, I s b → i.axil = b.drive e → inFire s i = false → outFire s i = false →
      I (posedge s i true) (b.cycle s.write i.axil)) :
  Undisturbed accelerator I
  := by
  intro s b e beat last h
  apply hI s b e (inputs (b.drive e) false beat last false) h rfl
  · apply inFire_still
  · apply outFire_still

/-- Between tiles: the slope due is known, and an accelerator that does not report `BUSY`
is empty. -/
structure Rest (slope : BitVec 8) (s : State) (b : Bus) : Prop where
  coherent : b.Coherent s.write
  slope : slopeDue s.slopeReg b.posted = slope
  clean : s.busyQ = false → s.outValidQ = false ∧ s.beatsQ = 0

/-- The accelerator is empty and the slope steady. -/
structure Ready (slope : BitVec 8) (s : State) (b : Bus) : Prop where
  steady : Steady slope s b
  busy : s.busyQ = false
  free : s.outValidQ = false
  beats : s.beatsQ = 0

theorem undisturbed_rest (slope : BitVec 8) :
  Undisturbed accelerator (Rest slope)
  := by
  apply undisturbed_of
  intro s b e i h hi hin hout
  constructor
  · apply h.coherent.cycle_of_drive hi
  · apply (slopeDue_cycle h.coherent hi).trans h.slope
  · intro hbusy
    obtain ⟨hfree, hbeats⟩ := h.clean ((busyQ_still hin hout).symm.trans hbusy)
    use (outValidQ_still hin hout).trans hfree
    apply (beatsQ_still hin hout).trans hbeats

theorem undisturbed_ready (slope : BitVec 8) :
  Undisturbed accelerator (Ready slope)
  := by
  apply undisturbed_of
  intro s b e i h hi hin hout
  constructor
  · apply h.steady.cycle hi
  · apply (busyQ_still hin hout).trans h.busy
  · apply (outValidQ_still hin hout).trans h.free
  · apply (beatsQ_still hin hout).trans h.beats

theorem Steady.slopeDue {slope : BitVec 8} {s : State} {b : Bus} (h : Steady slope s b) :
  ReluAxi.slopeDue s.slopeReg b.posted = slope
  := by
  rw [slopeDue_of_ne h.posted, h.slope]

theorem rest_of_ready {slope : BitVec 8} {s : State} {b : Bus} (h : Ready slope s b) :
  Rest slope s b
  := by
  constructor
  · apply h.steady.coherent
  · apply h.steady.slopeDue
  · intro _
    use h.free, h.beats

/-- A write to the slope's register is the slope due. -/
theorem Rest.post_slope {slope : BitVec 8} {s : State} {b : Bus} (h : Rest slope s b)
    (word : BitVec 32) :
  Rest (word.setWidth 8) s (b.post Driver.Relu.regSlope word)
  := by
  use h.coherent.post _ _, slopeDue_append _ _ _, h.clean

/-- A write to another register than the slope's leaves the slope steady. -/
theorem Steady.post {slope : BitVec 8} {s : State} {b : Bus} (h : Steady slope s b)
    {reg : BitVec 8} (hreg : reg ≠ regSlope) (word : BitVec 32) :
  Steady slope s (b.post reg word)
  := by
  use h.coherent.post reg word, h.slope
  intro x hx
  obtain hx | hx := List.mem_append.mp hx
  · apply h.posted x hx
  · obtain rfl := List.mem_singleton.mp hx
    apply hreg

/-! ### Inside a tile -/

/-- `j` beats of a tile of `n` are in and `k` are out; the beat between them is held. -/
structure Inside (slope : BitVec 8) (tile : ℕ → BitVec 8) (n j k : ℕ) (s : State) (b : Bus) :
    Prop where
  steady : Steady slope s b
  out_le_in : k ≤ j
  in_le_out : j ≤ k + 1
  in_le : j ≤ n
  valid : s.outValidQ = decide (k < j)
  data : k < j → s.outDataQ = ReluUnit.y (tile k) slope
  last : k < j → s.outLastQ = decide (n ≤ k + 1)
  busy : s.busyQ = decide (0 < j ∧ k < n)
  beats : s.beatsQ = if k = n then 0 else BitVec.ofNat 16 j
  finished : k = n → s.doneQ = true ∧ s.countQ = BitVec.ofNat 16 n

namespace Inside

variable {slope : BitVec 8} {tile : ℕ → BitVec 8} {n j k : ℕ} {s : State} {b : Bus}
  (h : Inside slope tile n j k s b) {e : AxiLite.Inputs} {i : Inputs} (hi : i.axil = b.drive e)

include h

theorem out_eq (hn : n ≤ k) :
  k = n
  := by
  have hle := h.out_le_in
  have hle' := h.in_le
  omega

theorem held_of_outFire (hout : outFire s i = true) :
  k < j
  := by
  simpa [outFire, h.valid] using (Bool.and_eq_true_iff.mp hout).1

/-- A beat comes in only if every earlier one leaves. -/
theorem out_of_accept (hin : inFire s i = true) :
  (if outFire s i then k + 1 else k) = j
  := by
  have hle := h.out_le_in
  have hle' := h.in_le_out
  cases hout : outFire s i
  · have hlt : ¬ k < j := by
      intro hlt
      have hv : s.outValidQ = true := by
        rw [h.valid]
        apply decide_eq_true hlt
      rw [outFire_of_inFire hin hv] at hout
      cases hout
    simp only [Bool.false_eq_true, if_false]
    omega
  · have hlt := h.held_of_outFire hout
    simp only [if_true]
    omega

include hi

theorem cycle_still (hin : inFire s i = false) (hout : outFire s i = false) :
  Inside slope tile n j k (posedge s i true) (b.cycle s.write i.axil)
  := by
  have hv := outValidQ_still hin hout
  constructor
  · apply h.steady.cycle hi
  · apply h.out_le_in
  · apply h.in_le_out
  · apply h.in_le
  · apply hv.trans h.valid
  · intro hlt
    rw [← h.data hlt, posedge_outDataQ, outDataNext, hin]
    rfl
  · intro hlt
    rw [← h.last hlt, posedge_outLastQ, outLastNext, hin, hout]
    rfl
  · apply (busyQ_still hin hout).trans h.busy
  · apply (beatsQ_still hin hout).trans h.beats
  · intro hk
    use (doneQ_still hin hout).trans (h.finished hk).1
    apply (countQ_still hout).trans (h.finished hk).2

/-- A beat comes in, over the one that is held if there is one. -/
theorem cycle_accept (hin : inFire s i = true) (hj : j < n) (hdata : i.sTdata = tile j)
    (hlast : i.sTlast = decide (n ≤ j + 1)) :
  Inside slope tile n (j + 1) j (posedge s i true) (b.cycle s.write i.axil)
  := by
  have hd : tileDone s i = false := by
    rw [tileDone]
    cases hout : outFire s i
    · rfl
    · have hlt := h.held_of_outFire hout
      have hle := h.in_le_out
      simp only [h.last hlt, Bool.true_and, decide_eq_false_iff_not]
      omega
  have hk : k ≠ n := by
    have hle := h.out_le_in
    omega
  constructor
  · apply h.steady.cycle hi
  · omega
  · omega
  · omega
  · simp [outValidNext, hin]
  · intro _
    simp [outDataNext, hin, activated, hdata, h.steady.slope]
  · intro _
    simp [outLastNext, hin, hlast]
  · cases hb : s.busyQ <;> simp [busyNext, hin, hd, hb, hj]
  · rw [if_neg (by omega), posedge_beatsQ, beatsNext, hd, hin, h.beats, if_neg hk]
    rw [BitVec.ofNat_add]
    rfl
  · intro hjn
    omega

/-- The held beat leaves and none comes in. -/
theorem cycle_depart (hin : inFire s i = false) (hout : outFire s i = true) (hk : k < n) :
  Inside slope tile n j (k + 1) (posedge s i true) (b.cycle s.write i.axil)
  := by
  have hlt := h.held_of_outFire hout
  have hjk : j = k + 1 := by
    have hle := h.in_le_out
    omega
  have hd : tileDone s i = decide (k + 1 = n) := by
    rw [tileDone, hout, Bool.true_and, h.last hlt]
    apply decide_eq_decide.mpr
    omega
  constructor
  · apply h.steady.cycle hi
  · omega
  · omega
  · apply h.in_le
  · simp [outValidNext, hin, hout, hjk]
  · intro hlt'
    omega
  · intro hlt'
    omega
  · by_cases hkn : k + 1 = n
    · simp [busyNext, hd, hkn]
    · have hb : s.busyQ = true := by
        rw [h.busy]
        simp [hjk, hk]
      have hlt' : k + 1 < n := by omega
      simp [busyNext, hd, hkn, hin, hb, hjk, hlt']
  · by_cases hkn : k + 1 = n
    · simp [beatsNext, hd, hkn]
    · have hne : k ≠ n := by omega
      simp [beatsNext, hd, hkn, hin, h.beats, hne]
  · intro hkn
    have hne : k ≠ n := by omega
    simp [doneNext, countNext, hd, hkn, hin, h.beats, hne, hjk]

theorem cycle (hvalid : i.sTvalid = true →
      j < n ∧ i.sTdata = tile j ∧ i.sTlast = decide (n ≤ j + 1))
    (hready : i.mTready = true → k < n) :
  Inside slope tile n (if inFire s i then j + 1 else j) (if outFire s i then k + 1 else k)
    (posedge s i true) (b.cycle s.write i.axil)
  := by
  cases hin : inFire s i
  · cases hout : outFire s i
    · apply h.cycle_still hi hin hout
    · apply h.cycle_depart hi hin hout
      apply hready
      apply (Bool.and_eq_true_iff.mp hout).2
  · obtain ⟨hj, hdata, hlast⟩ := hvalid (Bool.and_eq_true_iff.mp hin).1
    have hout : (if outFire s i then k + 1 else k) = j := h.out_of_accept hin
    rw [hout]
    apply h.cycle_accept hi hin hj hdata hlast

omit hi in
/-- The beat handed over is the next one of the tile, marked if it is the last. -/
theorem handed (hout : outFire s i = true) :
  s.outDataQ = ReluUnit.y (tile k) slope ∧ (s.outLastQ = true → n ≤ k + 1)
  := by
  have hlt := h.held_of_outFire hout
  use h.data hlt
  rw [h.last hlt, decide_eq_true_eq]
  apply id

omit hi in
theorem rest :
  Rest slope s b
  := by
  use h.steady.coherent, h.steady.slopeDue
  intro hbusy
  rw [h.busy, decide_eq_false_iff_not] at hbusy
  have hle := h.out_le_in
  have hle' := h.in_le
  have hjk : k = j := by omega
  constructor
  · rw [h.valid, hjk]
    apply decide_eq_false (lt_irrefl j)
  · rw [h.beats]
    split
    · rfl
    · have hj : j = 0 := by omega
      rw [hj]
      rfl

end Inside

/-- An empty accelerator is inside a tile of which no beat has moved. -/
theorem Ready.inside {slope : BitVec 8} {s : State} {b : Bus} (h : Ready slope s b)
    (tile : ℕ → BitVec 8) {n : ℕ} (hn : 0 < n) :
  Inside slope tile n 0 0 s b
  := by
  constructor
  · apply h.steady
  · omega
  · omega
  · omega
  · rw [h.free]
    rfl
  · intro hlt
    omega
  · intro hlt
    omega
  · rw [h.busy]
    simp
  · rw [h.beats, if_neg (by omega)]
    rfl
  · intro hk
    omega

/-- The byte of the beat out that has left `k` before it. -/
def activatedAt (slope : BitVec 8) (tile : ℕ → BitVec 8) (k : ℕ) : BitVec 8 :=
  ReluUnit.y (tile k) slope

/-- The accelerator counts the beats of the tile in and out, and hands over the activated
ones in order. -/
theorem serves_inside (slope : BitVec 8) (tile : ℕ → BitVec 8) (n : ℕ) :
  Serves accelerator tile n (Inside slope tile n) (activatedAt slope tile)
  := by
  intro j k s b e valid beat last ready h hvalid hready
  have hpresented : ∀ i : Inputs, i = inputs (b.drive e) valid beat last ready →
      i.sTvalid = true → j < n ∧ i.sTdata = tile j ∧ i.sTlast = decide (n ≤ j + 1) := by
    rintro i rfl hv
    obtain ⟨hj, rfl, rfl⟩ := hvalid hv
    rw [show accelerator.beatBytes = 1 from rfl, Nat.mul_one] at hj
    use hj
    constructor
    · simp [inputs, beatAt, accelerator]
    · simp [inputs, accelerator]
  have hcycle := h.cycle (e := e) rfl (hpresented _ rfl) (by simpa [accelerator, inputs] using hready)
  constructor
  · cases hout : outFire s (inputs (b.drive e) valid beat last ready)
    · simpa [accelerator, inputs_axil, hout] using hcycle
    · simpa [accelerator, inputs_axil, hout] using hcycle
  · intro byte last' hsome
    cases hout : outFire s (inputs (b.drive e) valid beat last ready)
    · simp [accelerator, hout] at hsome
    · simp only [accelerator, hout, if_true, Option.some.injEq, Prod.mk.injEq] at hsome
      obtain ⟨rfl, rfl⟩ := hsome
      simpa [accelerator, activatedAt] using h.handed hout

end ReluAxi
