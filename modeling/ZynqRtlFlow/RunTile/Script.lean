import ZynqRtlFlow.Driver.SlopeText
import ZynqRtlFlow.Program.Client
import ZynqRtlFlow.Relu.Device
import ZynqRtlFlow.SparseCnn.Device

/-!
# `run-tile.py`

The program that runs tiles through an accelerator and checks what comes back against the
golden model.  It makes its calls on the character device, and for the slope on the
attribute; a call that fails raises, and nothing is caught.
-/

namespace RunTile

open Driver

/-! ### The golden models' generators -/

/-- `DATA_MIN`. -/
def dataMin : ℤ := -128

/-- `DATA_MAX`. -/
def dataMax : ℤ := 127

/-- An operand of `DATA_W` bits. -/
def IsData (x : ℤ) : Prop :=
  dataMin ≤ x ∧ x ≤ dataMax

/-- What `gen_pairs` draws: operands between `DATA_MIN` and `DATA_MAX`, and what decides
which of them become zero. -/
structure PairDraws (n : ℕ) where
  w : List ℤ
  a : List ℤ
  zeroW : List ℚ
  zeroA : List ℚ
  length_w : w.length = n
  length_a : a.length = n
  length_zeroW : zeroW.length = n
  length_zeroA : zeroA.length = n
  isData_w : ∀ x ∈ w, IsData x
  isData_a : ∀ x ∈ a, IsData x

/-- `x[draw < sparsity] = 0`. -/
def zeroed (sparsity : ℚ) (x : List ℤ) (draws : List ℚ) : List ℤ :=
  (x.zip draws).map fun (x, draw) => if draw < sparsity then 0 else x

/-- `gen_pairs`. -/
def genPairs {n : ℕ} (sparsity : ℚ) (d : PairDraws n) : List ℤ × List ℤ :=
  if 0 < sparsity then (zeroed sparsity d.w d.zeroW, zeroed sparsity d.a d.zeroA)
  else (d.w, d.a)

/-- What `gen_activations` draws. -/
structure ActivationDraws (n : ℕ) where
  negatives : List ℤ
  positives : List ℤ
  pick : List ℚ
  length_negatives : negatives.length = n
  length_positives : positives.length = n
  length_pick : pick.length = n
  isData_negatives : ∀ x ∈ negatives, dataMin ≤ x ∧ x < 0
  isData_positives : ∀ x ∈ positives, 0 ≤ x ∧ x ≤ dataMax

/-- The values `gen_activations` puts first. -/
def edges : List ℤ := [dataMin, dataMax, 0, -1]

/-- `gen_activations`. -/
def genActivations {n : ℕ} (negativeRatio : ℚ) (d : ActivationDraws n) : List ℤ :=
  let tile := (d.pick.zip (d.negatives.zip d.positives)).map fun (pick, negative, positive) =>
    if pick < negativeRatio then negative else positive
  edges.take n ++ tile.drop edges.length

/-! ### Bytes -/

/-- `struct.pack("<H", ((int(a) & 0xFF) << 8) | (int(w) & 0xFF))`. -/
def packPair (w a : ℤ) : List (BitVec 8) :=
  let beat := (BitVec.ofInt 8 a).setWidth 16 <<< 8 ||| (BitVec.ofInt 8 w).setWidth 16
  [beat.extractLsb' 0 8, beat.extractLsb' 8 8]

/-- The beats of a tile. -/
def packPairs (weights acts : List ℤ) : List (BitVec 8) :=
  ((weights.zip acts).map fun (w, a) => packPair w a).flatten

/-- `struct.unpack("<iI", data)`, which takes eight bytes. -/
def unpackResult : List (BitVec 8) → Option (ℤ × ℕ)
  | [b₀, b₁, b₂, b₃, c₀, c₁, c₂, c₃] =>
      some ((b₃ ++ b₂ ++ b₁ ++ b₀).toInt, (c₃ ++ c₂ ++ c₁ ++ c₀).toNat)
  | _ => none

/-- `np.asarray(tile, dtype=np.int8).tobytes()`. -/
def toBytes (tile : List ℤ) : List (BitVec 8) :=
  tile.map (BitVec.ofInt 8)

/-- `np.frombuffer(data, dtype=np.int8).astype(np.int64)`. -/
def fromBuffer (data : List (BitVec 8)) : List ℤ :=
  data.map BitVec.toInt

/-- `np.count_nonzero(got != want)`: an array of one element is compared with every element
of the other, and otherwise the two have to be of one length. -/
def countWrong (got want : List ℤ) : Option ℕ :=
  if got.length = want.length then some ((got.zip want).countP fun (x, y) => x ≠ y)
  else
    match got, want with
    | [x], _ => some (want.countP fun y => x ≠ y)
    | _, [y] => some (got.countP fun x => x ≠ y)
    | _, _ => none

/-! ### The calls -/

/-- What a run raises: a call that failed, a result of the wrong size, two arrays that do
not compare. -/
inductive Raised where
  | osError (e : Errno)
  | structError
  | valueError
  deriving DecidableEq, Repr

variable {Call : Type} {Val : Call → Type}

/-- `os.write`, on a file descriptor that makes the calls. -/
def osWrite (fd : (c : FileCall) → Prog Call Val c.Val) (bytes : List (BitVec 8)) :
    Prog Call Val (Except Raised ℕ) := do
  match ← fd (.write bytes) with
  | .refused e => return .error (.osError e)
  | .ran (.error e) => return .error (.osError e)
  | .ran (.ok count) => return .ok count

/-- `os.read`, into a buffer of its own. -/
def osRead (fd : (c : FileCall) → Prog Call Val c.Val) (count : ℕ) :
    Prog Call Val (Except Raised (List (BitVec 8))) := do
  match ← fd (.read count count) with
  | .error e => return .error (.osError e)
  | .ok bytes => return .ok bytes

/-! ### `sparse_cnn` -/

/-- A line of `SPARSE_TILES`; a fraction of a Python program is the rational its binary
digits stand for. -/
structure SparseTile where
  n : ℕ
  sparsity : ℚ
  seed : ℕ

/-- The loop of `run_sparse_cnn`, with the tiles that have matched so far; `rng` is what
the generators of the seeds draw. -/
def runSparseCnn (rng : (n seed : ℕ) → PairDraws n) :
    List SparseTile → ℕ → Prog FileCall FileCall.Val (Except Raised ℕ)
  | [], matched => return .ok matched
  | tile :: tiles, matched => do
      let (weights, acts) := genPairs tile.sparsity (rng tile.n tile.seed)
      match ← osWrite .perform (packPairs weights acts) with
      | .error e => return .error e
      | .ok _ =>
          match ← osRead .perform 8 with
          | .error e => return .error e
          | .ok data =>
              match unpackResult data with
              | none => return .error .structError
              | some got =>
                  let ok := got = SparseMacModel.golden weights acts
                  runSparseCnn rng tiles (matched + if ok then 1 else 0)

/-! ### `relu` -/

/-- A line of `RELU_TILES`. -/
structure ReluTile where
  n : ℕ
  negativeRatio : ℚ
  slope : ℕ
  seed : ℕ

/-- The slope is written to the attribute. -/
def writeSlope (slope : ℕ) : Prog Relu.Call Relu.Call.Val (Except Raised Unit) := do
  match ← (Prog.perform (Relu.slopeStoreText (line slope)) : Prog Relu.Call Relu.Call.Val _) with
  | .error e => return .error (.osError e)
  | .ok () => return .ok ()

/-- The file descriptor of `/dev/relu`. -/
def reluFd (c : FileCall) : Prog Relu.Call Relu.Call.Val c.Val :=
  Prog.perform (Relu.Call.file c)

/-- The loop of `run_relu`, with the tiles that have matched so far. -/
def runRelu (rng : (n seed : ℕ) → ActivationDraws n) :
    List ReluTile → ℕ → Prog Relu.Call Relu.Call.Val (Except Raised ℕ)
  | [], matched => return .ok matched
  | tile :: tiles, matched => do
      match ← writeSlope tile.slope with
      | .error e => return .error e
      | .ok () =>
          let activations := genActivations tile.negativeRatio (rng tile.n tile.seed)
          match ← osWrite reluFd (toBytes activations) with
          | .error e => return .error e
          | .ok _ =>
              match ← osRead reluFd tile.n with
              | .error e => return .error e
              | .ok data =>
                  match countWrong (fromBuffer data) (ReluModel.golden activations tile.slope) with
                  | none => return .error .valueError
                  | some wrong =>
                      runRelu rng tiles (matched + if wrong = 0 then 1 else 0)

end RunTile
