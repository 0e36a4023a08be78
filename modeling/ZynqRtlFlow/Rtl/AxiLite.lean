import Mathlib.Data.List.Basic

/-!
# The AXI4-Lite slave

Both accelerators carry the same AXI4-Lite slave: a write channel that captures address
and data independently and applies them together, and a read channel with one word of
buffer.  `AXIL_DATA_W` is 32 and `AXIL_ADDR_W` is 8; the protection bits are accepted
and never read, and every response is `OKAY`.

`writeBytes` is the strobed update of a register, byte by byte under a mask.
-/

namespace AxiLite

/-- The inputs of the AXI4-Lite port in one cycle. -/
structure Inputs where
  awaddr : BitVec 8
  awvalid : Bool
  wdata : BitVec 32
  wstrb : BitVec 4
  wvalid : Bool
  bready : Bool
  araddr : BitVec 8
  arvalid : Bool
  rready : Bool
  deriving DecidableEq, Repr

/-! ### The write channel -/

/-- The registers of the write channel.  `awAddrQ`, `wDataQ` and `wStrbQ` have no
reset. -/
structure WriteChannel where
  awPend : Bool
  wPend : Bool
  bvalidQ : Bool
  awAddrQ : BitVec 8
  wDataQ : BitVec 32
  wStrbQ : BitVec 4
  deriving DecidableEq, Repr

namespace WriteChannel

variable (w : WriteChannel) (i : Inputs)

/-- An address can be accepted. -/
def awready : Bool := !w.awPend && !w.bvalidQ

/-- Data can be accepted. -/
def wready : Bool := !w.wPend && !w.bvalidQ

/-- An address is accepted. -/
def awFire : Bool := i.awvalid && w.awready

/-- Data are accepted. -/
def wFire : Bool := i.wvalid && w.wready

/-- Both halves of a write are there. -/
def wrCommit : Bool := (w.awPend || w.awFire i) && (w.wPend || w.wFire i)

/-- The address of the write that commits. -/
def wrAddr : BitVec 8 := if w.awPend then w.awAddrQ else i.awaddr

/-- Its data. -/
def wrData : BitVec 32 := if w.wPend then w.wDataQ else i.wdata

/-- Its strobes. -/
def wrStrb : BitVec 4 := if w.wPend then w.wStrbQ else i.wstrb

/-- The write channel after a clock edge.  The response flag is cleared by the last
statement of the block, so taking a response wins over raising one. -/
def posedge (aresetn : Bool) : WriteChannel :=
  if !aresetn then
    { w with awPend := false, wPend := false, bvalidQ := false }
  else
    { awPend := if w.wrCommit i then false else if w.awFire i then true else w.awPend
      wPend := if w.wrCommit i then false else if w.wFire i then true else w.wPend
      bvalidQ := if w.bvalidQ && i.bready then false
        else if w.wrCommit i then true else w.bvalidQ
      awAddrQ := if w.awFire i then i.awaddr else w.awAddrQ
      wDataQ := if w.wFire i then i.wdata else w.wDataQ
      wStrbQ := if w.wFire i then i.wstrb else w.wStrbQ }

theorem awPend_posedge :
  (w.posedge i true).awPend
    = if w.wrCommit i then false else if w.awFire i then true else w.awPend
  := rfl

theorem wPend_posedge :
  (w.posedge i true).wPend
    = if w.wrCommit i then false else if w.wFire i then true else w.wPend
  := rfl

theorem bvalidQ_posedge :
  (w.posedge i true).bvalidQ
    = if w.bvalidQ && i.bready then false else if w.wrCommit i then true else w.bvalidQ
  := rfl

theorem awAddrQ_posedge :
  (w.posedge i true).awAddrQ = if w.awFire i then i.awaddr else w.awAddrQ
  := rfl

theorem wDataQ_posedge :
  (w.posedge i true).wDataQ = if w.wFire i then i.wdata else w.wDataQ
  := rfl

theorem wStrbQ_posedge :
  (w.posedge i true).wStrbQ = if w.wFire i then i.wstrb else w.wStrbQ
  := rfl

variable {w i}

/-- An address pending after an edge that accepts none was pending before it. -/
theorem awPend_of_posedge (hp : (w.posedge i true).awPend = true)
    (hf : w.awFire i = false) :
  w.awPend = true
  := by
  rw [awPend_posedge, hf] at hp
  split at hp
  · cases hp
  · apply hp

theorem wPend_of_posedge (hp : (w.posedge i true).wPend = true)
    (hf : w.wFire i = false) :
  w.wPend = true
  := by
  rw [wPend_posedge, hf] at hp
  split at hp
  · cases hp
  · apply hp

end WriteChannel

/-! ### The read channel -/

/-- The registers of the read channel. -/
structure ReadChannel where
  rvalidQ : Bool
  rdataQ : BitVec 32
  deriving DecidableEq, Repr

namespace ReadChannel

variable (r : ReadChannel) (i : Inputs)

/-- An address can be accepted. -/
def arready : Bool := !r.rvalidQ

/-- An address is accepted. -/
def arFire : Bool := i.arvalid && r.arready

/-- The read channel after a clock edge, `rdMux` being the word the register map gives
for the address presented. -/
def posedge (aresetn : Bool) (rdMux : BitVec 32) : ReadChannel :=
  if !aresetn then
    { rvalidQ := false, rdataQ := 0 }
  else if r.arFire i then
    { rvalidQ := true, rdataQ := rdMux }
  else if r.rvalidQ && i.rready then
    { r with rvalidQ := false }
  else
    r

/-- A read accepted in a cycle returns the word of that cycle. -/
theorem rdataQ_posedge {r : ReadChannel} {i : Inputs} (h : r.arFire i = true)
    (rdMux : BitVec 32) :
  (r.posedge i true rdMux).rdataQ = rdMux
  := by
  rw [posedge, if_neg (by decide), if_pos h]

end ReadChannel

/-! ### Strobed register writes -/

/-- Byte `k` of a word. -/
def byteOf (k : ℕ) (word : BitVec 32) : BitVec 8 :=
  word.extractLsb' (8 * k) 8

/-- A word with byte `k` replaced. -/
def setByte (k : ℕ) (b : BitVec 8) (word : BitVec 32) : BitVec 32 :=
  (word &&& ~~~((BitVec.allOnes 8).setWidth 32 <<< (8 * k))) ||| (b.setWidth 32 <<< (8 * k))

/-- A register after a write: byte by byte, every strobed byte becomes the written byte
under the mask. -/
def writeBytes (mask : BitVec 32) (strb : BitVec 4) (data reg : BitVec 32) : BitVec 32 :=
  (List.range 4).foldl
    (fun word k => if strb.getLsbD k then setByte k (byteOf k data &&& byteOf k mask) word else word)
    reg

theorem getLsbD_setByte {k j : ℕ} (b : BitVec 8) (word : BitVec 32) (hj : j < 32) :
  (setByte k b word).getLsbD j
    = if 8 * k ≤ j ∧ j < 8 * k + 8 then b.getLsbD (j - 8 * k) else word.getLsbD j
  := by
  have hlt : j - 8 * k < 32 := by omega
  simp only [setByte, BitVec.getLsbD_or, BitVec.getLsbD_and, BitVec.getLsbD_not,
    BitVec.getLsbD_shiftLeft, BitVec.getLsbD_setWidth, BitVec.getLsbD_allOnes, hj, hlt,
    decide_true, Bool.true_and]
  by_cases hle : 8 * k ≤ j
  · by_cases hin : j < 8 * k + 8
    · have hbit : j - 8 * k < 8 := by omega
      have hnlt : ¬ j < 8 * k := by omega
      simp [hle, hin, hbit, hnlt]
    · have hbit : ¬ j - 8 * k < 8 := by omega
      have hzero : b.getLsbD (j - 8 * k) = false := BitVec.getLsbD_of_ge b _ (by omega)
      simp [hin, hbit, hzero]
  · have hbit : j < 8 * k := by omega
    simp [hle, hbit]

theorem getLsbD_byteOf_and {k j : ℕ} (data mask : BitVec 32) (hle : 8 * k ≤ j)
    (hin : j < 8 * k + 8) :
  (byteOf k data &&& byteOf k mask).getLsbD (j - 8 * k) = (data.getLsbD j && mask.getLsbD j)
  := by
  have hbit : j - 8 * k < 8 := by omega
  have hj : 8 * k + (j - 8 * k) = j := by omega
  simp [byteOf, hbit, hj]

/-- Bit `j` of a written register: the written bit under the mask where the strobe of its
byte is set, the old bit elsewhere. -/
theorem getLsbD_writeBytes {j : ℕ} (mask : BitVec 32) (strb : BitVec 4) (data reg : BitVec 32)
    (hj : j < 32) :
  (writeBytes mask strb data reg).getLsbD j
    = if strb.getLsbD (j / 8) then data.getLsbD j && mask.getLsbD j else reg.getLsbD j
  := by
  have step : ∀ (k : ℕ) (word : BitVec 32),
      (if strb.getLsbD k then setByte k (byteOf k data &&& byteOf k mask) word
        else word).getLsbD j
        = if j / 8 = k ∧ strb.getLsbD k then data.getLsbD j && mask.getLsbD j
          else word.getLsbD j := by
    intro k word
    by_cases hstrb : strb.getLsbD k = true
    · rw [if_pos hstrb, getLsbD_setByte _ _ hj]
      by_cases hin : 8 * k ≤ j ∧ j < 8 * k + 8
      · have hk : j / 8 = k := by omega
        rw [if_pos hin, getLsbD_byteOf_and _ _ hin.1 hin.2, if_pos ⟨hk, hstrb⟩]
      · have hk : ¬ j / 8 = k := by omega
        simp [hin, hk]
    · simp [hstrb]
  have hk : j / 8 = 0 ∨ j / 8 = 1 ∨ j / 8 = 2 ∨ j / 8 = 3 := by omega
  simp only [writeBytes, List.range, List.range.loop, List.foldl_cons, List.foldl_nil, step]
  rcases hk with hk | hk | hk | hk
  all_goals simp [hk]

end AxiLite
