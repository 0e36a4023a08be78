import ZynqRtlFlow.Driver.Relu
import ZynqRtlFlow.Model.ReluModel

/-!
# What `/dev/relu` is for

A device that keeps the slope in force and the result of the last tile: a write that
succeeds puts the golden tile in the place of the result, one that fails once it has
reached the accelerator leaves no result, and any other call leaves the result as it is.
-/

namespace Driver.Relu

/-- What the device keeps: the slope in force, and the values of the last tile's result,
none if there is no result. -/
structure Kept where
  slope : ℕ
  result : List ℤ

namespace Kept

/-- The slope of an accelerator out of reset, and no result. -/
def init : Kept := ⟨25, []⟩

/-- What a call that returned a value leaves. -/
def step (d : Kept) : (c : Call) → c.Val → Kept
  | .file (.write bytes), .ran (.ok _) =>
      { d with result := ReluModel.golden (bytes.map BitVec.toInt) d.slope }
  | .file (.write _), .ran (.error _) => { d with result := [] }
  | .slopeStore (.ok slope), .ok _ => { d with slope := slope.toNat }
  | _, _ => d

/-- What a read with the lock held gives: the result, if the buffer is as long and can be
written. -/
def Gives (d : Kept) (dst : UserPtr) (count : ℕ) (v : Except Errno (List (BitVec 8))) : Prop :=
  if d.result = [] then v = .ok []
  else if count < d.result.length then v = .error .EINVAL
  else if dst < d.result.length then v = .error .EFAULT
  else ∃ bytes, v = .ok bytes ∧ bytes.map BitVec.toInt = d.result

/-- What a call may return.  Only a read interrupted before it took the lock gives
`ERESTARTSYS`. -/
def Allows (d : Kept) : (c : Call) → c.Val → Prop
  | .file (.write bytes), .ran (.ok n) => n = bytes.length ∧ 0 < n ∧ n ≤ accelMaxBeats
  | .file (.read dst count), v => v = .error .ERESTARTSYS ∨ d.Gives dst count v
  | .slopeStore slope, .ok _ => ∃ word, slope = .ok word ∧ word ≤ slopeMax
  | _, _ => True

end Kept

/-- The device. -/
def device : Device Call Call.Val where
  State := Kept
  init := Kept.init
  step := Kept.step
  Allows := Kept.Allows

/-! ### What the device keeps along a log -/

/-- The call is a write that reached `accel_run_tile`. -/
def RanTile : (e : Σ c : Call, c.Val) → Prop
  | ⟨.file (.write _), .ran _⟩ => True
  | _ => False

/-- The call is a write that succeeded. -/
def Succeeded : (e : Σ c : Call, c.Val) → Prop
  | ⟨.file (.write _), .ran (.ok _)⟩ => True
  | _ => False

/-- The slope of the last store that succeeded, or 25. -/
def lastSlope (log : List (Σ c : Call, c.Val)) : ℕ :=
  log.foldl (fun slope e => match e with
    | ⟨.slopeStore (.ok word), .ok _⟩ => word.toNat
    | _ => slope) 25

theorem slope_step (d : Kept) (e : Σ c : Call, c.Val) :
  (d.step e.1 e.2).slope = match e with
    | ⟨.slopeStore (.ok word), .ok _⟩ => word.toNat
    | _ => d.slope
  := by
  obtain ⟨(bytes | ⟨dst, count⟩) | e | word, v⟩ := e
  · obtain e | e | n := v
    · rfl
    · rfl
    · rfl
  · rfl
  · rfl
  · obtain e | _ := v
    · rfl
    · rfl

theorem result_step_of_not_ranTile (d : Kept) (e : Σ c : Call, c.Val) (h : ¬ RanTile e) :
  (d.step e.1 e.2).result = d.result
  := by
  obtain ⟨(bytes | ⟨dst, count⟩) | e | word, v⟩ := e
  · obtain e | ret := v
    · rfl
    · exact absurd trivial h
  · rfl
  · rfl
  · obtain e | _ := v
    · rfl
    · rfl

/-- A call that is no successful write leaves no result where there is none. -/
theorem result_step_of_not_succeeded (d : Kept) (e : Σ c : Call, c.Val) (h : ¬ Succeeded e)
    (hd : d.result = []) :
  (d.step e.1 e.2).result = []
  := by
  obtain ⟨(bytes | ⟨dst, count⟩) | slope, v⟩ := e
  · obtain e | e | n := v
    · apply hd
    · rfl
    · exact absurd trivial h
  · apply hd
  · rw [result_step_of_not_ranTile d ⟨.slopeStore slope, v⟩ id]
    apply hd

theorem slope_after (log : List (Σ c : Call, c.Val)) :
  (device.after log).slope = lastSlope log
  := by
  induction log using List.reverseRecOn with
  | nil => rfl
  | append_singleton log e ih =>
      rw [Device.after_concat, lastSlope, List.foldl_append, ← lastSlope, ← ih]
      apply slope_step

theorem result_after_append (log mid : List (Σ c : Call, c.Val)) (h : ∀ e ∈ mid, ¬ RanTile e) :
  (device.after (log ++ mid)).result = (device.after log).result
  := by
  induction mid using List.reverseRecOn with
  | nil => rw [List.append_nil]
  | append_singleton mid e ih =>
      rw [← List.append_assoc, Device.after_concat]
      apply (result_step_of_not_ranTile _ e (h e (by simp))).trans
      apply ih
      intro a ha
      apply h a (List.mem_append_left _ ha)

theorem result_after_append_nothing (log mid : List (Σ c : Call, c.Val))
    (h : ∀ e ∈ mid, ¬ Succeeded e) (hlog : (device.after log).result = []) :
  (device.after (log ++ mid)).result = []
  := by
  induction mid using List.reverseRecOn with
  | nil =>
      rw [List.append_nil]
      apply hlog
  | append_singleton mid e ih =>
      rw [← List.append_assoc, Device.after_concat]
      apply result_step_of_not_succeeded _ e (h e (by simp))
      apply ih
      intro a ha
      apply h a (List.mem_append_left _ ha)

/-! ### The golden tile or nothing -/

/-- What the reads of a log give, the calls being listed in the order in which they took
the lock; a read that returns `ERESTARTSYS` did not take it. -/
structure GoldenOrNothing (log : List (Σ c : Call, c.Val)) : Prop where
  /-- After a write that succeeded, and before the next one that reaches
  `accel_run_tile`, a read with a large enough buffer gives the golden tile. -/
  golden : ∀ past tile n mid dst count v rest,
    log = past ++ ⟨.file (.write tile), .ran (.ok n)⟩
      :: (mid ++ ⟨.file (.read dst count), v⟩ :: rest) →
    (∀ e ∈ mid, ¬ RanTile e) → v ≠ .error .ERESTARTSYS → n ≤ count → n ≤ dst →
    n = tile.length ∧ ∃ bytes, v = .ok bytes ∧ bytes.length = n
      ∧ bytes.map BitVec.toInt = ReluModel.golden (tile.map BitVec.toInt) (lastSlope past)
  /-- After a write that reached `accel_run_tile` and failed, a read gives nothing until a
  later write succeeds. -/
  nothing : ∀ past tile err mid dst count v rest,
    log = past ++ ⟨.file (.write tile), .ran (.error err)⟩
      :: (mid ++ ⟨.file (.read dst count), v⟩ :: rest) →
    (∀ e ∈ mid, ¬ Succeeded e) → v ≠ .error .ERESTARTSYS → v = .ok []
  /-- Before the first write that succeeds a read gives nothing. -/
  never : ∀ past dst count v rest, log = past ++ ⟨.file (.read dst count), v⟩ :: rest →
    (∀ e ∈ past, ¬ Succeeded e) → v ≠ .error .ERESTARTSYS → v = .ok []

/-- A read that took the lock gives the result kept. -/
theorem gives_of_explains {log past rest : List (Σ c : Call, c.Val)} (h : device.Explains log)
    {dst : UserPtr} {count : ℕ} {v : Except Errno (List (BitVec 8))}
    (hlog : log = past ++ ⟨.file (.read dst count), v⟩ :: rest) (hv : v ≠ .error .ERESTARTSYS) :
  Kept.Gives (device.after past) dst count v
  := by
  obtain hsys | hgives := h past _ rest hlog
  · exact absurd hsys hv
  · apply hgives

theorem gives_nothing {d : Kept} {dst : UserPtr} {count : ℕ}
    {v : Except Errno (List (BitVec 8))} (h : d.Gives dst count v) (hd : d.result = []) :
  v = .ok []
  := by
  rw [Kept.Gives, if_pos hd] at h
  apply h

theorem gives_result {d : Kept} {dst : UserPtr} {count : ℕ}
    {v : Except Errno (List (BitVec 8))} (h : d.Gives dst count v) (hd : d.result ≠ [])
    (hcount : d.result.length ≤ count) (hdst : d.result.length ≤ dst) :
  ∃ bytes, v = .ok bytes ∧ bytes.map BitVec.toInt = d.result
  := by
  rw [Kept.Gives, if_neg hd, if_neg (Nat.not_lt.mpr hcount), if_neg (Nat.not_lt.mpr hdst)] at h
  apply h

/-- A read after a call and some others gives the result kept after all of them. -/
theorem gives_after {log past mid rest : List (Σ c : Call, c.Val)} (h : device.Explains log)
    {e : Σ c : Call, c.Val} {dst : UserPtr} {count : ℕ} {v : Except Errno (List (BitVec 8))}
    (hlog : log = past ++ e :: (mid ++ ⟨.file (.read dst count), v⟩ :: rest))
    (hv : v ≠ .error .ERESTARTSYS) :
  Kept.Gives (device.after ((past ++ [e]) ++ mid)) dst count v
  := by
  apply gives_of_explains h _ hv
  · apply rest
  · rw [hlog]
    simp

/-- In a log that the device explains, reads give the golden tile or nothing. -/
theorem goldenOrNothing_of_explains {log : List (Σ c : Call, c.Val)} (h : device.Explains log) :
  GoldenOrNothing log
  := by
  constructor
  · intro past tile n mid dst count v rest hlog hmid hv hcount hdst
    obtain ⟨rfl, hpos, -⟩ := h past _ _ hlog
    have hgives := gives_after h hlog hv
    have hresult := result_after_append (past ++ [⟨.file (.write tile), .ran (.ok tile.length)⟩])
      mid hmid
    rw [Device.after_concat] at hresult
    change _ = ReluModel.golden (tile.map BitVec.toInt) (device.after past).slope at hresult
    rw [slope_after] at hresult
    have hlen := congrArg List.length hresult
    rw [ReluModel.golden, List.length_map, List.length_map] at hlen
    have hne := List.length_pos_iff.mp (hpos.trans_eq hlen.symm)
    rw [← hlen] at hcount hdst
    obtain ⟨bytes, rfl, hbytes⟩ := gives_result hgives hne hcount hdst
    use rfl, bytes, rfl
    constructor
    · rw [← hlen, ← hbytes, List.length_map]
    · rw [hbytes, hresult]
  · intro past tile err mid dst count v rest hlog hmid hv
    apply gives_nothing (gives_after h hlog hv)
    apply result_after_append_nothing _ mid hmid
    rw [Device.after_concat]
    rfl
  · intro past dst count v rest hlog hpast hv
    apply gives_nothing (gives_of_explains h hlog hv)
    apply result_after_append_nothing [] past hpast
    rfl

end Driver.Relu
