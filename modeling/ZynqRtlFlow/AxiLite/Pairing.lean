import ZynqRtlFlow.Rtl.ReluAxi
import ZynqRtlFlow.Rtl.SparseCnnAxi

/-!
# Pairing of write addresses with write data

The write channel takes address and data on two independent handshakes and answers on a
third.  Along any run from reset the `k`-th write that commits takes the `k`-th accepted
address and the `k`-th accepted data; the three pending flags record exactly how far the
handshakes are apart, so no write is lost, duplicated or paired across transactions.
-/

namespace AxiLite.WriteChannel

/-! ### The reachable states -/

/-- At most one half of a write is pending, and none while a response is. -/
structure Wf (w : WriteChannel) : Prop where
  exclusive : ¬ (w.awPend = true ∧ w.wPend = true)
  quiet : w.bvalidQ = true → w.awPend = false ∧ w.wPend = false

theorem wf_reset (w : WriteChannel) (i : Inputs) :
  Wf (w.posedge i false)
  := by
  constructor
  · simp [posedge]
  · simp [posedge]

/-- While a response is pending no write commits. -/
theorem wrCommit_eq_false {w : WriteChannel} (hw : Wf w) (i : Inputs) (hb : w.bvalidQ = true) :
  w.wrCommit i = false
  := by
  obtain ⟨haw, hwp⟩ := hw.quiet hb
  simp [wrCommit, awFire, awready, haw, hb]

/-- A committing write leaves both halves free and its response pending. -/
theorem posedge_of_commit {w : WriteChannel} (hw : Wf w) {i : Inputs} (hc : w.wrCommit i = true) :
  (w.posedge i true).awPend = false ∧ (w.posedge i true).wPend = false
    ∧ (w.posedge i true).bvalidQ = true
  := by
  have hb : w.bvalidQ = false := by
    by_contra hb
    rw [wrCommit_eq_false hw i (by simpa using hb)] at hc
    cases hc
  simp [posedge, hc, hb]

theorem Wf.posedge {w : WriteChannel} (hw : Wf w) (i : Inputs) :
  Wf (w.posedge i true)
  := by
  by_cases hc : w.wrCommit i = true
  · obtain ⟨haw, hwp, -⟩ := posedge_of_commit hw hc
    constructor
    · simp [haw]
    · intro _
      use haw, hwp
  · constructor
    · rintro ⟨haw, hwp⟩
      apply hc
      simp only [WriteChannel.posedge, hc] at haw hwp
      simp only [wrCommit]
      grind
    · intro hb
      have hq : w.bvalidQ = true := by
        simp only [WriteChannel.posedge, hc] at hb
        grind
      obtain ⟨haw, hwp⟩ := hw.quiet hq
      simp [WriteChannel.posedge, awFire, wFire, awready, wready, hc, haw, hwp, hq]

/-- The write channel out of reset. -/
def machine : Machine WriteChannel Inputs where
  next w i := w.posedge i true

/-! ### Handshakes along a history -/

/-- The addresses accepted, in order. -/
def awBeats (h : List (WriteChannel × Inputs)) : List (BitVec 8) :=
  h.filterMap fun c => if c.1.awFire c.2 then some c.2.awaddr else none

/-- The data and strobes accepted, in order. -/
def wBeats (h : List (WriteChannel × Inputs)) : List (BitVec 32 × BitVec 4) :=
  h.filterMap fun c => if c.1.wFire c.2 then some (c.2.wdata, c.2.wstrb) else none

/-- The writes that commit, in order: address, then data and strobes. -/
def commits (h : List (WriteChannel × Inputs)) : List (BitVec 8 × BitVec 32 × BitVec 4) :=
  h.filterMap fun c =>
    if c.1.wrCommit c.2 then some (c.1.wrAddr c.2, c.1.wrData c.2, c.1.wrStrb c.2) else none

/-- The number of responses handed over. -/
def responses (h : List (WriteChannel × Inputs)) : ℕ :=
  h.countP fun c => c.1.bvalidQ && c.2.bready

theorem awBeats_concat (h : List (WriteChannel × Inputs)) (w : WriteChannel) (i : Inputs) :
  awBeats (h ++ [(w, i)]) = awBeats h ++ if w.awFire i then [i.awaddr] else []
  := by
  cases hf : w.awFire i <;> simp [awBeats, hf]

theorem wBeats_concat (h : List (WriteChannel × Inputs)) (w : WriteChannel) (i : Inputs) :
  wBeats (h ++ [(w, i)]) = wBeats h ++ if w.wFire i then [(i.wdata, i.wstrb)] else []
  := by
  cases hf : w.wFire i <;> simp [wBeats, hf]

theorem commits_concat (h : List (WriteChannel × Inputs)) (w : WriteChannel) (i : Inputs) :
  commits (h ++ [(w, i)])
    = commits h ++ if w.wrCommit i then [(w.wrAddr i, w.wrData i, w.wrStrb i)] else []
  := by
  cases hf : w.wrCommit i <;> simp [commits, hf]

theorem responses_concat (h : List (WriteChannel × Inputs)) (w : WriteChannel) (i : Inputs) :
  responses (h ++ [(w, i)]) = responses h + (w.bvalidQ && i.bready).toNat
  := by
  cases hb : w.bvalidQ <;> cases hr : i.bready <;> simp [responses, hb, hr]

/-! ### The ledger -/

/-- The half of a write that is held back for its other half: the address. -/
def heldAw (w : WriteChannel) : List (BitVec 8) :=
  if w.awPend then [w.awAddrQ] else []

/-- The half of a write that is held back for its other half: data and strobes. -/
def heldW (w : WriteChannel) : List (BitVec 32 × BitVec 4) :=
  if w.wPend then [(w.wDataQ, w.wStrbQ)] else []

/-- The address held and the address accepted in a cycle are the address committed in it
and the address held after it. -/
theorem heldAw_edge (w : WriteChannel) (i : Inputs) :
  heldAw w ++ (if w.awFire i then [i.awaddr] else [])
    = (if w.wrCommit i then [w.wrAddr i] else []) ++ heldAw (w.posedge i true)
  := by
  by_cases haw : w.awPend = true
  · have hf : w.awFire i = false := by simp [awFire, awready, haw]
    by_cases hc : w.wrCommit i = true
    · simp [heldAw, posedge, wrAddr, haw, hf, hc]
    · simp [heldAw, posedge, haw, hf, hc]
  · by_cases hf : w.awFire i = true
    · by_cases hc : w.wrCommit i = true
      · simp [heldAw, posedge, wrAddr, haw, hf, hc]
      · simp [heldAw, posedge, haw, hf, hc]
    · have hc : w.wrCommit i = false := by simp [wrCommit, haw, hf]
      simp [heldAw, posedge, haw, hf, hc]

theorem heldW_edge (w : WriteChannel) (i : Inputs) :
  heldW w ++ (if w.wFire i then [(i.wdata, i.wstrb)] else [])
    = (if w.wrCommit i then [(w.wrData i, w.wrStrb i)] else []) ++ heldW (w.posedge i true)
  := by
  by_cases hwp : w.wPend = true
  · have hf : w.wFire i = false := by simp [wFire, wready, hwp]
    by_cases hc : w.wrCommit i = true
    · simp [heldW, posedge, wrData, wrStrb, hwp, hf, hc]
    · simp [heldW, posedge, hwp, hf, hc]
  · by_cases hf : w.wFire i = true
    · by_cases hc : w.wrCommit i = true
      · simp [heldW, posedge, wrData, wrStrb, hwp, hf, hc]
      · simp [heldW, posedge, hwp, hf, hc]
    · have hc : w.wrCommit i = false := by simp [wrCommit, hwp, hf]
      simp [heldW, posedge, hwp, hf, hc]

/-- A response pending and a write committed in a cycle are the response handed over in
it and the response pending after it. -/
theorem bvalid_edge {w : WriteChannel} (hw : Wf w) (i : Inputs) :
  w.bvalidQ.toNat + (w.wrCommit i).toNat
    = (w.bvalidQ && i.bready).toNat + (w.posedge i true).bvalidQ.toNat
  := by
  by_cases hb : w.bvalidQ = true
  · have hc := wrCommit_eq_false hw i hb
    cases hr : i.bready <;> simp [posedge, hb, hc, hr]
  · cases hc : w.wrCommit i <;> simp [posedge, hb, hc]

/-- The addresses and data accepted are those of the writes committed, then the half of a
write that is held; every committed write is answered or about to be. -/
structure Ledger (h : List (WriteChannel × Inputs)) (w : WriteChannel) : Prop where
  wf : Wf w
  aw : awBeats h = (commits h).map Prod.fst ++ heldAw w
  data : wBeats h = (commits h).map Prod.snd ++ heldW w
  b : (commits h).length = responses h + w.bvalidQ.toNat

theorem Ledger.edge {h : List (WriteChannel × Inputs)} {w : WriteChannel} (hl : Ledger h w)
    (i : Inputs) :
  Ledger (h ++ [(w, i)]) (w.posedge i true)
  := by
  have haw := heldAw_edge w i
  have hdata := heldW_edge w i
  have hb := bvalid_edge hl.wf i
  constructor
  · apply hl.wf.posedge
  · rw [awBeats_concat, commits_concat, hl.aw, List.append_assoc, haw, List.map_append,
      List.append_assoc]
    cases w.wrCommit i <;> rfl
  · rw [wBeats_concat, commits_concat, hl.data, List.append_assoc, hdata, List.map_append,
      List.append_assoc]
    cases w.wrCommit i <;> rfl
  · have hl' := hl.b
    rw [commits_concat, responses_concat]
    cases hc : w.wrCommit i <;> simp [hc] at hb ⊢ <;> omega

theorem ledger_reset (w : WriteChannel) (i : Inputs) :
  Ledger [] (w.posedge i false)
  := by
  constructor
  · apply wf_reset
  · rfl
  · rfl
  · rfl

/-- The ledger holds after every run from a state in which it holds. -/
theorem ledger_run {w : WriteChannel} (hw : Ledger [] w) (is : List Inputs) :
  Ledger (machine.history w is) (machine.run w is)
  := by
  apply machine.history_induction (P := Ledger) hw
  intro h t i hl
  apply hl.edge

/-! ### Pairing -/

/-- What a history `h` that ends in the state `w` says of the write channel: the `k`-th
commit pairs the `k`-th address with the `k`-th data, each handshake is ahead of the next
by what the flags record, and some handshake can always go on. -/
structure PairsOnce (h : List (WriteChannel × Inputs)) (w : WriteChannel) : Prop where
  address : ∀ (k : ℕ) (c : BitVec 8 × BitVec 32 × BitVec 4),
    (commits h)[k]? = some c → (awBeats h)[k]? = some c.1
  data : ∀ (k : ℕ) (c : BitVec 8 × BitVec 32 × BitVec 4),
    (commits h)[k]? = some c → (wBeats h)[k]? = some c.2
  awCount : (awBeats h).length = (commits h).length + w.awPend.toNat
  wCount : (wBeats h).length = (commits h).length + w.wPend.toNat
  bCount : (commits h).length = responses h + w.bvalidQ.toNat
  exclusive : ¬ (w.awPend = true ∧ w.wPend = true)
  quiet : w.bvalidQ = true → w.awPend = false ∧ w.wPend = false
  live : w.awready = true ∨ w.wready = true ∨ w.bvalidQ = true
  held : ∀ i : Inputs, w.bvalidQ = true → i.bready = false → (w.posedge i true).bvalidQ = true

theorem getElem?_map_append {α β : Type*} {f : α → β} {l : List α} {k : ℕ} {a : α}
    (h : l[k]? = some a) (l' : List β) :
  (l.map f ++ l')[k]? = some (f a)
  := by
  obtain ⟨hk, rfl⟩ := List.getElem?_eq_some_iff.mp h
  rw [List.getElem?_append_left (by simpa using hk)]
  simp [hk]

theorem Ledger.pairsOnce {h : List (WriteChannel × Inputs)} {w : WriteChannel}
    (hl : Ledger h w) :
  PairsOnce h w
  := by
  have hq := hl.wf.quiet
  constructor
  · intro k c hc
    rw [hl.aw]
    apply getElem?_map_append hc
  · intro k c hc
    rw [hl.data]
    apply getElem?_map_append hc
  · rw [hl.aw, List.length_append, List.length_map, heldAw]
    cases w.awPend <;> rfl
  · rw [hl.data, List.length_append, List.length_map, heldW]
    cases w.wPend <;> rfl
  · apply hl.b
  · apply hl.wf.exclusive
  · apply hq
  · have hx := hl.wf.exclusive
    cases haw : w.awPend <;> cases hb : w.bvalidQ <;> simp_all [awready, wready]
  · intro i hb hr
    have hc := wrCommit_eq_false hl.wf i hb
    simp [posedge, hb, hr]

end AxiLite.WriteChannel

/-! ### The two accelerators -/

open AxiLite

/-- The write channel of a cycle, with the port inputs of the cycle. -/
def SparseCnnAxi.writeCycle : SparseCnnAxi.State × SparseCnnAxi.Inputs → WriteChannel × AxiLite.Inputs :=
  Prod.map State.write Inputs.axil

/-- The write channel of a cycle, with the port inputs of the cycle. -/
def ReluAxi.writeCycle : ReluAxi.State × ReluAxi.Inputs → WriteChannel × AxiLite.Inputs :=
  Prod.map State.write Inputs.axil

theorem SparseCnnAxi.ledger (s : State) (i : Inputs) (is : List Inputs) :
  WriteChannel.Ledger ((machine.history (reset s i) is).map writeCycle)
    (machine.run (reset s i) is).write
  := by
  have part : ∀ (t : State) (j : Inputs),
      (machine.next t j).write = WriteChannel.machine.next t.write j.axil := fun _ _ => rfl
  rw [writeCycle, machine.history_map part, machine.run_map part]
  apply WriteChannel.ledger_run
  apply WriteChannel.ledger_reset _ i.axil

theorem ReluAxi.ledger (s : State) (i : Inputs) (is : List Inputs) :
  WriteChannel.Ledger ((machine.history (reset s i) is).map writeCycle)
    (machine.run (reset s i) is).write
  := by
  have part : ∀ (t : State) (j : Inputs),
      (machine.next t j).write = WriteChannel.machine.next t.write j.axil := fun _ _ => rfl
  rw [writeCycle, machine.history_map part, machine.run_map part]
  apply WriteChannel.ledger_run
  apply WriteChannel.ledger_reset _ i.axil

/-- In both accelerators, after any run from reset, the write channel has paired every
address with its data exactly once. -/
theorem AxiLite.write_channels_pair_once :
  (∀ (s : SparseCnnAxi.State) (i : SparseCnnAxi.Inputs) (is : List SparseCnnAxi.Inputs),
      WriteChannel.PairsOnce
        ((SparseCnnAxi.machine.history (SparseCnnAxi.reset s i) is).map SparseCnnAxi.writeCycle)
        (SparseCnnAxi.machine.run (SparseCnnAxi.reset s i) is).write)
    ∧ ∀ (s : ReluAxi.State) (i : ReluAxi.Inputs) (is : List ReluAxi.Inputs),
      WriteChannel.PairsOnce
        ((ReluAxi.machine.history (ReluAxi.reset s i) is).map ReluAxi.writeCycle)
        (ReluAxi.machine.run (ReluAxi.reset s i) is).write
  := by
  constructor
  · intro s i is
    apply (SparseCnnAxi.ledger s i is).pairsOnce
  · intro s i is
    apply (ReluAxi.ledger s i is).pairsOnce
