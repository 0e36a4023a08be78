import ZynqRtlFlow.RunTile.Matched

/-!
# The interrupts of a run

`run-tile.py` counts the interrupts of the DMA's lines by summing every number on them,
among which the interrupt controller's own is not a count.  Two readings of the same lines
nevertheless differ by the interrupts taken in between.
-/

namespace RunTile

open Driver Text

/-! ### The script -/

/-- `IRQ_NAME`. -/
def irqName : Str := "xilinx-dma-controller".toList

/-- The numbers of a line but for its first word. -/
def numbers (line : Str) : List ℕ :=
  (((split line).drop 1).filter isDigits).map (ofDigits 10)

/-- `irq_count`, of the lines of `/proc/interrupts`. -/
def irqCount (lines : List Str) : Option ℕ :=
  lines.foldl
    (fun total line =>
      if contains irqName line then some (total.getD 0 + (numbers line).sum) else total)
    none

/-- How the script ends: with a message, with a status, or with an exception that nothing
catches. -/
inductive Exit where
  | message
  | status (n : ℕ)
  | raised

/-- The exit status. -/
def Exit.code : Exit → ℕ
  | .message => 1
  | .status n => n
  | .raised => 1

/-- The names of `RUNNERS`. -/
def runners : List Str := ["sparse_cnn".toList, "relu".toList]

/-- The accelerator `main` runs: the one named, or the only one there is. -/
def chosen (argv : List Str) (exist : Str → Bool) : Option Str :=
  match argv with
  | _ :: name :: _ => if runners.any (fun r => decide (r = name)) then some name else none
  | _ =>
      match runners.filter exist with
      | [name] => some name
      | _ => none

/-- `main`: `before` and `after` are the lines of `/proc/interrupts` when it reads them,
and `run` is how many tiles of how many match. -/
def main (argv : List Str) (exist : Str → Bool) (before after : List Str)
    (run : Str → Except Raised (ℕ × ℕ)) : Exit :=
  match chosen argv exist with
  | none => .message
  | some name =>
      match irqCount before with
      | none => .message
      | some countBefore =>
          match run name with
          | .error _ => .raised
          | .ok (matched, total) =>
              match irqCount after with
              | none => .raised
              | some countAfter =>
                  let taken : ℤ := countAfter - countBefore
                  .status (if matched = total ∧ taken ≠ 0 then 0 else 1)

/-! ### The lines -/

/-- A line of an interrupt in `/proc/interrupts`: its label, a count for each CPU, and the
words that say whose it is. -/
structure IrqLine where
  label : Str
  counts : List ℕ
  words : List Str

namespace IrqLine

/-- The words of a line as the kernel prints it. -/
def shown (l : IrqLine) : List Str :=
  (l.label ++ [':']) :: (l.counts.map decimal ++ l.words)

/-- A text shows the line, with whatever blanks between its words. -/
def Shows (l : IrqLine) (text : Str) : Prop :=
  split text = l.shown

instance (l : IrqLine) (text : Str) : Decidable (l.Shows text) :=
  inferInstanceAs (Decidable (split text = l.shown))

/-- The same line read again. -/
def Again (l l' : IrqLine) : Prop :=
  l'.label = l.label ∧ l'.words = l.words

/-- The sum of the numbers that are no counts. -/
def other (l : IrqLine) : ℕ :=
  ((l.words.filter isDigits).map (ofDigits 10)).sum

theorem numbers_of_shows {l : IrqLine} {text : Str} (h : l.Shows text) :
  (numbers text).sum = l.counts.sum + l.other
  := by
  have hcounts : (l.counts.map decimal).filter isDigits = l.counts.map decimal := by
    apply List.filter_eq_self.mpr
    intro w hw
    obtain ⟨n, -, rfl⟩ := List.mem_map.mp hw
    apply isDigits_decimal
  have hread : (l.counts.map decimal).map (ofDigits 10) = l.counts := by
    rw [List.map_map]
    conv_rhs => rw [← List.map_id l.counts]
    apply List.map_congr_left
    intro n _
    apply ofDigits_decimal
  rw [numbers, h, shown, List.drop_one, List.tail_cons, List.filter_append, List.map_append,
    List.sum_append, hcounts, hread, other]

end IrqLine

/-- Those of the texts that name the DMA show the lines, in their order; the others, such as
the one that heads the columns of the CPUs, are whatever they are. -/
def Shown (ls : List IrqLine) (texts : List Str) : Prop :=
  List.Forall₂ IrqLine.Shows ls (texts.filter (contains irqName))

instance (ls : List IrqLine) (texts : List Str) : Decidable (Shown ls texts) :=
  inferInstanceAs (Decidable (List.Forall₂ IrqLine.Shows ls (texts.filter (contains irqName))))

/-- The interrupts the DMA's lines have counted. -/
def taken (ls : List IrqLine) : ℕ :=
  (ls.map fun l => l.counts.sum).sum

/-- The other numbers of the DMA's lines. -/
def otherNumbers (ls : List IrqLine) : ℕ :=
  (ls.map IrqLine.other).sum

/-! ### Counting -/

/-- Only the lines that name the DMA are counted. -/
theorem irqCount_eq (texts : List Str) :
  irqCount texts
    = (texts.filter (contains irqName)).foldl
        (fun total line => some (total.getD 0 + (numbers line).sum)) none
  := by
  rw [irqCount, List.foldl_filter]

theorem foldl_shows {ls : List IrqLine} {texts : List Str}
    (h : List.Forall₂ IrqLine.Shows ls texts) (total : Option ℕ) :
  texts.foldl (fun total line => some (total.getD 0 + (numbers line).sum)) total
    = if ls = [] then total else some (total.getD 0 + (taken ls + otherNumbers ls))
  := by
  induction h generalizing total with
  | nil => rfl
  | @cons l text ls texts hl hls ih =>
      rw [List.foldl_cons, ih, IrqLine.numbers_of_shows hl, if_neg (List.cons_ne_nil l ls)]
      split
      next hnil => simp [hnil, taken, otherNumbers]
      next =>
        simp only [taken, otherNumbers, List.map_cons, List.sum_cons, Option.getD_some,
          Option.some.injEq]
        omega

/-- The count of a reading: nothing without a line of the DMA's. -/
theorem irqCount_of_shown {ls : List IrqLine} {texts : List Str} (h : Shown ls texts) :
  irqCount texts = if ls = [] then none else some (taken ls + otherNumbers ls)
  := by
  rw [irqCount_eq, foldl_shows h]
  simp

/-- Lines read again are as many, and have their other numbers. -/
theorem of_again {ls ls' : List IrqLine} (h : List.Forall₂ IrqLine.Again ls ls') :
  (ls' = [] ↔ ls = []) ∧ otherNumbers ls' = otherNumbers ls
  := by
  induction h with
  | nil => use Iff.rfl
  | @cons l l' ls ls' hl hls ih =>
      have hnumbers : l'.other = l.other := by rw [IrqLine.other, hl.2, IrqLine.other]
      constructor
      · simp
      · rw [otherNumbers, List.map_cons, List.sum_cons, hnumbers, ← otherNumbers, ih.2,
          otherNumbers, otherNumbers, List.map_cons, List.sum_cons]

/-! ### The exit status -/

/-- What a runner returns after a run on its board. -/
inductive Ran : Str → Except Raised (ℕ × ℕ) → Prop
  | sparseCnn (rng : (n seed : ℕ) → PairDraws n) (tiles : List SparseTile)
      (s : SparseCnnAxi.State) (i : SparseCnnAxi.Inputs) (txBuf rxBuf : ℕ → BitVec 8)
      (es : List (Api.Event (Board.platform SparseCnnAxi.accelerator SparseCnn.Result) FileCall))
      (ret : Except Raised ℕ)
      (hplays : SparseCnn.device.Plays (runSparseCnn rng tiles 0)
        (SparseCnn.api.schedule (Board.start (A := SparseCnnAxi.accelerator)
          (SparseCnnAxi.reset s i) txBuf rxBuf ⟨0, 0⟩) es).log ret) :
      Ran "sparse_cnn".toList (ret.map fun matched => (matched, tiles.length))
  | relu (rng : (n seed : ℕ) → ActivationDraws n) (tiles : List ReluTile)
      (s : ReluAxi.State) (i : ReluAxi.Inputs) (txBuf rxBuf : ℕ → BitVec 8)
      (es : List (Api.Event (Board.platform ReluAxi.accelerator Unit) Relu.Call))
      (ret : Except Raised ℕ)
      (hplays : Relu.device.Plays (runRelu rng tiles 0)
        (Relu.api.schedule (Board.start (A := ReluAxi.accelerator) (ReluAxi.reset s i)
          txBuf rxBuf ()) es).log ret) :
      Ran "relu".toList (ret.map fun matched => (matched, tiles.length))

theorem matched_eq_total {tiles : ℕ} {ret : Except Raised ℕ} (h : MatchedOrFailed tiles ret)
    {r : ℕ × ℕ} (hr : ret.map (fun matched => (matched, tiles)) = .ok r) :
  r.1 = r.2
  := by
  obtain rfl | ⟨e, rfl⟩ := h
  · obtain rfl := Except.ok.inj hr
    rfl
  · cases hr

/-- A run that returns has matched every tile. -/
theorem Ran.matched {name : Str} {run : Except Raised (ℕ × ℕ)} (h : Ran name run) {r : ℕ × ℕ}
    (hr : run = .ok r) :
  r.1 = r.2
  := by
  cases h with
  | sparseCnn rng tiles s i txBuf rxBuf es ret hplays =>
      apply matched_eq_total _ hr
      have hensures := ensures_runSparseCnn rng tiles 0 (0, 0)
      rw [Nat.zero_add] at hensures
      apply hplays.post (SparseCnnAxi.simulates_device.explains
        (SparseCnnAxi.idle_start s i txBuf rxBuf) es) hensures
  | relu rng tiles s i txBuf rxBuf es ret hplays =>
      apply matched_eq_total _ hr
      have hensures := ensures_runRelu rng tiles 0 Relu.Kept.init
      rw [Nat.zero_add] at hensures
      apply hplays.post (ReluAxi.simulates_device.explains
        (ReluAxi.idle_start s i txBuf rxBuf) es) hensures

/-- The script exits with 0 exactly if the DMA has a line, no call failed, and the lines
of the DMA counted an interrupt meanwhile. -/
theorem exit_code_eq_zero_iff {argv : List Str} {exist : Str → Bool} {before after : List Str}
    {run : Str → Except Raised (ℕ × ℕ)} {name : Str} {ls ls' : List IrqLine}
    (hchosen : chosen argv exist = some name) (hran : Ran name (run name))
    (hbefore : Shown ls before) (hafter : Shown ls' after)
    (hagain : List.Forall₂ IrqLine.Again ls ls') :
  (main argv exist before after run).code = 0
    ↔ ls ≠ [] ∧ (∃ r, run name = .ok r) ∧ taken ls' ≠ taken ls
  := by
  obtain ⟨hnil, hother⟩ := of_again hagain
  rw [main, hchosen, irqCount_of_shown hbefore, irqCount_of_shown hafter, hother]
  simp only [hnil]
  by_cases hls : ls = []
  · simp [hls, Exit.code]
  · rw [if_neg hls, if_neg hls]
    cases hrun : run name with
    | error e => simp [Exit.code]
    | ok r =>
        obtain ⟨matched, total⟩ := r
        have hmatched : matched = total := hran.matched hrun
        have hdiff : ((taken ls' + otherNumbers ls : ℕ) : ℤ) - (taken ls + otherNumbers ls : ℕ) ≠ 0
            ↔ taken ls' ≠ taken ls := by omega
        simp only [Exit.code, hmatched, true_and, hdiff]
        split
        · rename_i htaken
          use fun _ => ⟨hls, ⟨_, rfl⟩, htaken⟩
          intro _
          rfl
        · rename_i htaken
          constructor
          · intro h
            cases h
          · rintro ⟨-, -, h⟩
            cases htaken h

/-- The words of a line of the DMA's. -/
def dmaWords : List Str :=
  ["GICv2".toList, "121".toList, "Level".toList, "xilinx-dma-controller".toList]

/-- `/proc/interrupts` on two CPUs, with a line of the DMA's that has counted one digit of
interrupts. -/
def interruptsText (count : Char) : List Str :=
  ["           CPU0       CPU1       \n".toList,
    " 11:      20411      18212     GICv2  30 Level     arch_timer\n".toList,
    " 48:          ".toList ++ count
      :: "          0     GICv2 121 Level     xilinx-dma-controller\n".toList,
    "Err:          0\n".toList]

/-- One tile and one interrupt, of a DMA whose line also has the number 121. -/
theorem exit_code_of_one_tile :
  (main ["run-tile.py".toList, "sparse_cnn".toList] (fun _ => false)
    (interruptsText '7') (interruptsText '8') (fun _ => .ok (1, 1))).code = 0
  := by
  have hran : Ran "sparse_cnn".toList (.ok (1, 1)) :=
    .sparseCnn constantPairs [⟨1, 0, 0⟩] SparseCnnAxi.zero SparseCnnAxi.quiet
      (fun _ => 0) (fun _ => 0)
      (Board.promptly (.write [3, 254]) 20 ++ Board.promptly (.read 8 8) 2) (.ok 1)
      (Device.plays_of_replay (by decide +kernel))
  have hbefore : Shown [⟨"48".toList, [7, 0], dmaWords⟩] (interruptsText '7') := by decide +kernel
  have hafter : Shown [⟨"48".toList, [8, 0], dmaWords⟩] (interruptsText '8') := by decide +kernel
  exact (exit_code_eq_zero_iff rfl hran hbefore hafter (.cons ⟨rfl, rfl⟩ .nil)).mpr
    ⟨by decide, ⟨_, rfl⟩, by decide⟩

end RunTile
