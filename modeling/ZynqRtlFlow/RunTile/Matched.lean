import ZynqRtlFlow.RunTile.Script
import ZynqRtlFlow.Relu.EndToEnd
import ZynqRtlFlow.SparseCnn.EndToEnd
import ZynqRtlFlow.SparseCnn.Status

/-!
# A run of `run-tile.py` matches

On the board every tile of a run matches the golden model, or a call failed and the run
raised its error: the bytes sent are the operands drawn, and those received are the
model's results.  Others may make calls in between, as long as these change nothing.
-/

namespace RunTile

open Driver

/-! ### Bytes -/

theorem toInt_ofInt_of_isData {x : ℤ} (h : IsData x) :
  (BitVec.ofInt 8 x).toInt = x
  := by
  obtain ⟨hmin, hmax⟩ := h
  rw [dataMin] at hmin
  rw [dataMax] at hmax
  apply BitVec.toInt_ofInt_eq_self (by decide)
  · omega
  · omega

/-- The weight is the first byte of a beat and the activation the second. -/
theorem packPair_eq (w a : ℤ) :
  packPair w a = [BitVec.ofInt 8 w, BitVec.ofInt 8 a]
  := by
  rw [packPair]
  congr 1
  · ext i hi
    have hlow : i < 16 := by omega
    simp [hi, hlow]
  · congr 1
    ext i hi
    have hhigh : 8 + i < 16 := by omega
    simp [hhigh, BitVec.getLsbD_eq_getElem hi]

theorem pairs_cons_cons (x y : BitVec 8) (bytes : List (BitVec 8)) :
  SparseCnn.pairs (x :: y :: bytes) = (x.toInt, y.toInt) :: SparseCnn.pairs bytes
  := by
  have hlen : (x :: y :: bytes).length / 2 = bytes.length / 2 + 1 := by
    simp only [List.length_cons]
    omega
  rw [SparseCnn.pairs, SparseCnn.words, hlen, List.range_succ_eq_map, List.map_cons, List.map_cons,
    List.map_map, SparseCnn.pairs, SparseCnn.words]
  congr 1
  · change (((y ++ x).extractLsb' 0 8).toInt, ((y ++ x).extractLsb' 8 8).toInt) = _
    rw [BitVec.extractLsb'_append_eq_right, BitVec.extractLsb'_append_eq_left]
  · rw [List.map_map, List.map_map]
    apply List.map_congr_left
    intro k _
    have heven : (k + 1) * 2 = k * 2 + 2 := by omega
    simp only [Function.comp_apply, Nat.succ_eq_add_one, heven, List.getD_cons_succ]

/-- The driver's transport carries the operands packed. -/
theorem pairs_packPairs {weights acts : List ℤ} (hw : ∀ x ∈ weights, IsData x)
    (ha : ∀ x ∈ acts, IsData x) :
  SparseCnn.pairs (packPairs weights acts) = weights.zip acts
  := by
  induction weights generalizing acts with
  | nil => simp [packPairs, SparseCnn.pairs, SparseCnn.words]
  | cons w weights ih =>
      cases acts with
      | nil => simp [packPairs, SparseCnn.pairs, SparseCnn.words]
      | cons a acts =>
          have hrest := ih (fun x hx => hw x (List.mem_cons_of_mem _ hx))
            (fun x hx => ha x (List.mem_cons_of_mem _ hx))
          have hpack : packPairs (w :: weights) (a :: acts)
              = packPair w a ++ packPairs weights acts := rfl
          rw [hpack, packPair_eq, List.cons_append, List.cons_append, List.nil_append,
            pairs_cons_cons, hrest, List.zip_cons_cons, toInt_ofInt_of_isData (hw w List.mem_cons_self),
            toInt_ofInt_of_isData (ha a List.mem_cons_self)]

theorem goldenPair_packPairs {weights acts : List ℤ} (hw : ∀ x ∈ weights, IsData x)
    (ha : ∀ x ∈ acts, IsData x) (hlen : weights.length = acts.length) :
  SparseCnn.goldenPair (SparseCnn.pairs (packPairs weights acts))
    = SparseMacModel.golden weights acts
  := by
  rw [pairs_packPairs hw ha, SparseCnn.goldenPair, List.map_fst_zip (Nat.le_of_eq hlen),
    List.map_snd_zip (Nat.le_of_eq hlen.symm)]

/-- A word is put together from its bytes. -/
theorem append_bytes (word : BitVec 32) :
  word.extractLsb' 24 8 ++ word.extractLsb' 16 8 ++ word.extractLsb' 8 8 ++ word.extractLsb' 0 8
    = word
  := by
  have high : word.extractLsb' 24 8 ++ word.extractLsb' 16 8 = word.extractLsb' 16 16 :=
    BitVec.extractLsb'_append_extractLsb'_eq_extractLsb' rfl
  have middle : word.extractLsb' 16 16 ++ word.extractLsb' 8 8 = word.extractLsb' 8 24 :=
    BitVec.extractLsb'_append_extractLsb'_eq_extractLsb' rfl
  have low : word.extractLsb' 8 24 ++ word.extractLsb' 0 8 = word.extractLsb' 0 32 :=
    BitVec.extractLsb'_append_extractLsb'_eq_extractLsb' rfl
  rw [high, middle, low, BitVec.extractLsb'_eq_self]

/-- The eight bytes of a result are read as it was stored. -/
theorem unpackResult_bytes (r : SparseCnn.Result) :
  unpackResult r.bytes = some (r.acc.toInt, r.skip.toNat)
  := by
  change some ((r.acc.extractLsb' 24 8 ++ r.acc.extractLsb' 16 8 ++ r.acc.extractLsb' 8 8
      ++ r.acc.extractLsb' 0 8).toInt,
    (r.skip.extractLsb' 24 8 ++ r.skip.extractLsb' 16 8 ++ r.skip.extractLsb' 8 8
      ++ r.skip.extractLsb' 0 8).toNat) = _
  rw [append_bytes, append_bytes]

/-- A tile goes out in its bytes as it is. -/
theorem map_toInt_toBytes {tile : List ℤ} (h : ∀ x ∈ tile, IsData x) :
  (toBytes tile).map BitVec.toInt = tile
  := by
  rw [toBytes, List.map_map]
  conv_rhs => rw [← List.map_id tile]
  apply List.map_congr_left
  intro x hx
  apply toInt_ofInt_of_isData (h x hx)

/-! ### What is drawn -/

theorem isData_zero : IsData 0 := by
  rw [IsData, dataMin, dataMax]
  omega

theorem isData_three : IsData 3 := by
  rw [IsData, dataMin, dataMax]
  omega

theorem isData_neg_two : IsData (-2) := by
  rw [IsData, dataMin, dataMax]
  omega

theorem isData_of_mem_replicate {x y : ℤ} {n : ℕ} (hy : IsData y) (hx : x ∈ List.replicate n y) :
  IsData x
  := by
  rw [List.eq_of_mem_replicate hx]
  apply hy

theorem negative_of_mem_replicate {x : ℤ} {n : ℕ} (hx : x ∈ List.replicate n (-2)) :
  dataMin ≤ x ∧ x < 0
  := by
  rw [List.eq_of_mem_replicate hx]
  use isData_neg_two.1
  omega

theorem positive_of_mem_replicate {x : ℤ} {n : ℕ} (hx : x ∈ List.replicate n 3) :
  0 ≤ x ∧ x ≤ dataMax
  := by
  rw [List.eq_of_mem_replicate hx]
  constructor
  · omega
  · apply isData_three.2

theorem isData_zeroed {sparsity : ℚ} {x : List ℤ} {draws : List ℚ} (h : ∀ v ∈ x, IsData v) :
  ∀ v ∈ zeroed sparsity x draws, IsData v
  := by
  intro v hv
  obtain ⟨⟨w, draw⟩, hmem, rfl⟩ := List.mem_map.mp hv
  dsimp only
  split
  · apply isData_zero
  · apply h w (List.of_mem_zip hmem).1

theorem length_zeroed {sparsity : ℚ} {x : List ℤ} {draws : List ℚ}
    (h : x.length = draws.length) :
  (zeroed sparsity x draws).length = x.length
  := by
  simp [zeroed, h]

/-- The operands drawn are of `DATA_W` bits, as many weights as activations. -/
theorem genPairs_spec {n : ℕ} (sparsity : ℚ) (d : PairDraws n) :
  (∀ x ∈ (genPairs sparsity d).1, IsData x) ∧ (∀ x ∈ (genPairs sparsity d).2, IsData x)
    ∧ (genPairs sparsity d).1.length = n ∧ (genPairs sparsity d).2.length = n
  := by
  rw [genPairs]
  split
  · use isData_zeroed d.isData_w, isData_zeroed d.isData_a
    constructor
    · rw [length_zeroed (d.length_w.trans d.length_zeroW.symm), d.length_w]
    · rw [length_zeroed (d.length_a.trans d.length_zeroA.symm), d.length_a]
  · use d.isData_w, d.isData_a, d.length_w, d.length_a

theorem isData_edges :
  ∀ x ∈ edges, IsData x
  := by
  intro x hx
  rw [IsData, dataMin, dataMax]
  simp only [edges, dataMin, dataMax, List.mem_cons, List.not_mem_nil, or_false] at hx
  omega

/-- The activations drawn are of `DATA_W` bits. -/
theorem genActivations_spec {n : ℕ} (negativeRatio : ℚ) (d : ActivationDraws n) :
  (∀ x ∈ genActivations negativeRatio d, IsData x)
    ∧ (genActivations negativeRatio d).length = n
  := by
  constructor
  · intro x hx
    obtain hx | hx := List.mem_append.mp hx
    · apply isData_edges x (List.mem_of_mem_take hx)
    · obtain ⟨⟨pick, negative, positive⟩, hmem, rfl⟩ := List.mem_map.mp (List.mem_of_mem_drop hx)
      obtain ⟨hnegative, hpositive⟩ := List.of_mem_zip (List.of_mem_zip hmem).2
      dsimp only
      split
      · obtain ⟨hmin, hneg⟩ := d.isData_negatives negative hnegative
        use hmin
        rw [dataMax]
        omega
      · obtain ⟨hpos, hmax⟩ := d.isData_positives positive hpositive
        constructor
        · rw [dataMin]
          omega
        · apply hmax
  · simp only [genActivations, List.length_append, List.length_take, List.length_drop,
      List.length_map, List.length_zip, d.length_negatives, d.length_positives, d.length_pick]
    omega

/-! ### `sparse_cnn` -/

/-- A write that returns has put the pair of its tile into the device, and one that raises
has left it as it was. -/
theorem ensures_osWrite_sparse (bytes : List (BitVec 8)) (d : ℤ × ℕ) :
  SparseCnn.device.Ensures
    (fun ret d' => match ret with
      | .ok _ => d' = SparseCnn.goldenPair (SparseCnn.pairs bytes)
      | .error raised => ∃ e, raised = .osError e)
    (osWrite .perform bytes) d
  := by
  intro v _
  obtain e | e | count := v
  · use e
  · use e
  · rfl

/-- A read of eight bytes that returns gives the pair. -/
theorem ensures_osRead_sparse (d : ℤ × ℕ) :
  SparseCnn.device.Ensures
    (fun ret _ => match ret with
      | .ok data => unpackResult data = some d
      | .error raised => ∃ e, raised = .osError e)
    (osRead .perform 8) d
  := by
  intro v hv
  obtain rfl | hgives := hv
  · use Errno.ERESTARTSYS
  · obtain ⟨r, rfl, hacc, hskip⟩ := SparseCnn.gives_pair hgives (Nat.le_refl _) (Nat.le_refl _)
    change unpackResult r.bytes = some d
    rw [unpackResult_bytes, hacc, hskip]

/-- How a run ends: with every tile matched, or with the error of a call. -/
def MatchedOrFailed (tiles : ℕ) (ret : Except Raised ℕ) : Prop :=
  ret = .ok tiles ∨ ∃ e, ret = .error (.osError e)

theorem ensures_runSparseCnn (rng : (n seed : ℕ) → PairDraws n) (tiles : List SparseTile)
    (matched : ℕ) (d : ℤ × ℕ) :
  SparseCnn.device.Ensures (fun ret _ => MatchedOrFailed (matched + tiles.length) ret)
    (runSparseCnn rng tiles matched) d
  := by
  induction tiles generalizing matched d with
  | nil =>
      left
      rfl
  | cons tile tiles ih =>
      obtain ⟨hw, ha, hlenw, hlena⟩ := genPairs_spec tile.sparsity (rng tile.n tile.seed)
      rw [runSparseCnn]
      generalize genPairs tile.sparsity (rng tile.n tile.seed) = drawn at hw ha hlenw hlena
      obtain ⟨weights, acts⟩ := drawn
      apply (ensures_osWrite_sparse _ d).bind
      intro ret d' hd'
      obtain raised | count := ret
      · obtain ⟨e, rfl⟩ := hd'
        right
        use e
      · obtain rfl := hd'
        apply (ensures_osRead_sparse _).bind
        intro ret d'' hdata
        obtain raised | data := ret
        · obtain ⟨e, rfl⟩ := hdata
          right
          use e
        · dsimp only at hdata ⊢
          rw [hdata, goldenPair_packPairs hw ha (hlenw.trans hlena.symm)]
          dsimp only
          rw [if_pos rfl]
          apply (ih (matched + 1) d'').mono
          intro ret' d₃ hret
          rw [List.length_cons, Nat.add_comm tiles.length, ← Nat.add_assoc]
          apply hret

/-! ### `relu` -/

/-- A store that returns has left its slope. -/
theorem ensures_writeSlope (slope : ℕ) (d : Relu.Kept) :
  Relu.device.Ensures
    (fun ret d' => match ret with
      | .ok _ => d'.slope = slope
      | .error raised => ∃ e, raised = .osError e)
    (writeSlope slope) d
  := by
  intro v hv
  obtain e | _ := v
  · use e
  · have hstored : ∃ word, kstrtou32 (line slope) = .ok word ∧ word ≤ Relu.slopeMax := hv
    obtain ⟨word, hword, -⟩ := hstored
    have hslope : word.toNat = slope := by
      rw [kstrtou32_line] at hword
      split at hword
      · rename_i hlt
        rw [← Except.ok.inj hword, BitVec.toNat_ofNat]
        apply Nat.mod_eq_of_lt hlt
      · cases hword
    change (Relu.Kept.step d (.slopeStore (kstrtou32 (line slope))) (.ok _)).slope = slope
    rw [hword]
    apply hslope

/-- A write that returns has put the golden tile into the device, which has at least one
beat. -/
theorem ensures_osWrite_relu (bytes : List (BitVec 8)) (d : Relu.Kept) :
  Relu.device.Ensures
    (fun ret d' => match ret with
      | .ok _ => 0 < bytes.length ∧ d'.result = ReluModel.golden (bytes.map BitVec.toInt) d.slope
      | .error raised => ∃ e, raised = .osError e)
    (osWrite reluFd bytes) d
  := by
  intro v hv
  obtain e | e | count := v
  · use e
  · use e
  · obtain ⟨rfl, hpos, -⟩ := hv
    use hpos
    rfl

/-- A read of as many bytes as there are gives the result. -/
theorem ensures_osRead_relu {count : ℕ} {d : Relu.Kept} (hpos : 0 < count)
    (hcount : d.result.length = count) :
  Relu.device.Ensures
    (fun ret _ => match ret with
      | .ok data => fromBuffer data = d.result
      | .error raised => ∃ e, raised = .osError e)
    (osRead reluFd count) d
  := by
  intro v hv
  obtain rfl | hgives := hv
  · use Errno.ERESTARTSYS
  · have hne : d.result ≠ [] := by
      rw [← hcount] at hpos
      apply List.length_pos_iff.mp hpos
    obtain ⟨bytes, rfl, hbytes⟩ := Relu.gives_result hgives hne (Nat.le_of_eq hcount)
      (Nat.le_of_eq hcount)
    apply hbytes

theorem countWrong_self (tile : List ℤ) :
  countWrong tile tile = some 0
  := by
  unfold countWrong
  rw [if_pos rfl, Option.some.injEq, List.countP_eq_zero]
  intro p hp
  obtain ⟨k, hk, rfl⟩ := List.getElem_of_mem hp
  simp

theorem ensures_runRelu (rng : (n seed : ℕ) → ActivationDraws n) (tiles : List ReluTile)
    (matched : ℕ) (d : Relu.Kept) :
  Relu.device.Ensures (fun ret _ => MatchedOrFailed (matched + tiles.length) ret)
    (runRelu rng tiles matched) d
  := by
  induction tiles generalizing matched d with
  | nil =>
      left
      rfl
  | cons tile tiles ih =>
      obtain ⟨hdata, hlen⟩ := genActivations_spec tile.negativeRatio (rng tile.n tile.seed)
      rw [runRelu]
      generalize genActivations tile.negativeRatio (rng tile.n tile.seed) = activations at hdata hlen
      apply (ensures_writeSlope tile.slope d).bind
      intro ret d₁ hslope
      obtain raised | _ := ret
      · obtain ⟨e, rfl⟩ := hslope
        right
        use e
      · apply (ensures_osWrite_relu _ d₁).bind
        intro ret d₂ hresult
        obtain raised | count := ret
        · obtain ⟨e, rfl⟩ := hresult
          right
          use e
        · obtain ⟨hpos, hresult⟩ := hresult
          rw [map_toInt_toBytes hdata, hslope] at hresult
          have hn : 0 < tile.n := by
            rw [← hlen]
            simpa [toBytes] using hpos
          have hcount : d₂.result.length = tile.n := by
            rw [hresult, ReluModel.golden, List.length_map, hlen]
          apply (ensures_osRead_relu hn hcount).bind
          intro ret d₃ hread
          obtain raised | data := ret
          · obtain ⟨e, rfl⟩ := hread
            right
            use e
          · dsimp only at hread ⊢
            rw [hread, hresult, countWrong_self]
            apply (ih (matched + 1) d₃).mono
            intro ret' d₄ hret
            rw [List.length_cons, Nat.add_comm tiles.length, ← Nat.add_assoc]
            apply hret

/-! ### On the board -/

/-- A run of `run-tile.py sparse_cnn` on the board: whatever the tiles and the draws, and
whatever the bus, the DMA and the kernel do, every tile matches the golden model or a call
failed. -/
theorem run_sparse_cnn_matches (rng : (n seed : ℕ) → PairDraws n) (tiles : List SparseTile)
    (s : SparseCnnAxi.State) (i : SparseCnnAxi.Inputs) (txBuf rxBuf : ℕ → BitVec 8)
    (es : List (Api.Event (Board.platform SparseCnnAxi.accelerator SparseCnn.Result) FileCall))
    (ret : Except Raised ℕ)
    (hplays : SparseCnn.device.Plays (runSparseCnn rng tiles 0)
      (SparseCnn.api.schedule (Board.start (A := SparseCnnAxi.accelerator) (SparseCnnAxi.reset s i)
        txBuf rxBuf ⟨0, 0⟩) es).log ret) :
  MatchedOrFailed tiles.length ret
  := by
  have hexplains := SparseCnnAxi.simulates_device.explains
    (SparseCnnAxi.idle_start s i txBuf rxBuf) es
  have hensures := ensures_runSparseCnn rng tiles 0 (0, 0)
  rw [Nat.zero_add] at hensures
  apply hplays.post hexplains hensures

/-- Draws that are all the same. -/
def constantPairs (n : ℕ) (_seed : ℕ) : PairDraws n where
  w := List.replicate n 3
  a := List.replicate n (-2)
  zeroW := List.replicate n 0
  zeroA := List.replicate n 0
  length_w := List.length_replicate
  length_a := List.length_replicate
  length_zeroW := List.length_replicate
  length_zeroA := List.length_replicate
  isData_w _ := isData_of_mem_replicate isData_three
  isData_a _ := isData_of_mem_replicate isData_neg_two

/-- One beat, read back. -/
theorem run_sparse_cnn_matches_one :
  MatchedOrFailed 1 (.ok 1)
  := run_sparse_cnn_matches constantPairs [⟨1, 0, 0⟩] SparseCnnAxi.zero SparseCnnAxi.quiet
    (fun _ => 0) (fun _ => 0)
    (Board.promptly (.write [3, 254]) 20 ++ Board.promptly (.read 8 8) 2) (.ok 1)
    (Device.plays_of_replay (by decide +kernel))

/-- A run of `run-tile.py relu` on the board: every tile matches the golden model at its
slope, or a call failed. -/
theorem run_relu_matches (rng : (n seed : ℕ) → ActivationDraws n) (tiles : List ReluTile)
    (s : ReluAxi.State) (i : ReluAxi.Inputs) (txBuf rxBuf : ℕ → BitVec 8)
    (es : List (Api.Event (Board.platform ReluAxi.accelerator Unit) Relu.Call))
    (ret : Except Raised ℕ)
    (hplays : Relu.device.Plays (runRelu rng tiles 0)
      (Relu.api.schedule (Board.start (A := ReluAxi.accelerator) (ReluAxi.reset s i)
        txBuf rxBuf ()) es).log ret) :
  MatchedOrFailed tiles.length ret
  := by
  have hexplains := ReluAxi.device_explains s i txBuf rxBuf es
  have hensures := ensures_runRelu rng tiles 0 Relu.Kept.init
  rw [Nat.zero_add] at hensures
  apply hplays.post hexplains hensures

deriving instance DecidableEq for Driver.Relu.Call

/-- Draws that are all the same. -/
def constantActivations (n : ℕ) (_seed : ℕ) : ActivationDraws n where
  negatives := List.replicate n (-2)
  positives := List.replicate n 3
  pick := List.replicate n 0
  length_negatives := List.length_replicate
  length_positives := List.length_replicate
  length_pick := List.length_replicate
  isData_negatives _ := negative_of_mem_replicate
  isData_positives _ := positive_of_mem_replicate

/-- A slope and two beats, read back. -/
theorem run_relu_matches_two :
  MatchedOrFailed 1 (.ok 1)
  := run_relu_matches constantActivations [⟨2, 1, 128, 0⟩] ReluAxi.zero (ReluAxi.tileCycle false)
    (fun _ => 0) (fun _ => 0)
    (Board.promptly (.slopeStore (.ok 128)) 1 ++ Board.promptly (.file (.write [0x80, 0x7F])) 20
      ++ Board.promptly (.file (.read 2 2)) 2) (.ok 1)
    (Device.plays_of_replay (by decide +kernel))

end RunTile
