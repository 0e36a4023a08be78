import Mathlib.Data.List.Infix

/-!
# Searching and replacing in a list

`replaceAll old new t` replaces the occurrences of `old` in `t`, from left to right and
without overlap; `findSub pat t` is the position of the first occurrence of `pat`.  A
stretch of the list at none of whose positions `old` occurs is left alone.
-/

namespace Text

variable {α : Type} [DecidableEq α]

/-- The position of the first occurrence. -/
def findSub (pat : List α) : List α → Option ℕ
  | [] => if pat = [] then some 0 else none
  | c :: t => if pat <+: c :: t then some 0 else (findSub pat t).map (· + 1)

/-- The occurrences of `old` replaced, with the first `k` elements left out. -/
def replaceFrom (old new : List α) : ℕ → List α → List α
  | _, [] => []
  | k + 1, _ :: t => replaceFrom old new k t
  | 0, c :: t =>
      if old <+: c :: t then new ++ replaceFrom old new (old.length - 1) t
      else c :: replaceFrom old new 0 t

/-- All occurrences of a nonempty `old` replaced. -/
def replaceAll (old new t : List α) : List α :=
  replaceFrom old new 0 t

/-- The first occurrence of `old` replaced. -/
def replaceFirst (old new : List α) : List α → List α
  | [] => []
  | c :: t => if old <+: c :: t then new ++ (c :: t).drop old.length else c :: replaceFirst old new t

omit [DecidableEq α] in
/-- A suffix of a concatenation lies in its second part, or reaches into the first. -/
theorem suffix_append_cases {s u t : List α} (h : s <:+ u ++ t) :
  s <:+ t ∨ ∃ s', s' <:+ u ∧ s' ≠ [] ∧ s = s' ++ t
  := by
  obtain hle | hlt := Nat.lt_or_ge t.length s.length |>.symm
  · left
    apply List.suffix_of_suffix_length_le h (List.suffix_append _ _) hle
  · right
    obtain ⟨s', rfl⟩ := List.suffix_of_suffix_length_le (List.suffix_append u t) h (Nat.le_of_lt hlt)
    use s'
    constructor
    · apply List.suffix_append_self_iff.mp h
    · constructor
      · rintro rfl
        simp at hlt
      · rfl

omit [DecidableEq α] in
/-- Two lists part at the first element that only one of two stretches could have. -/
theorem append_cons_cancel {u v s t : List α} {c d : α} (hc : c ∉ v) (hd : d ∉ u)
    (h : u ++ c :: s = v ++ d :: t) :
  u = v ∧ c = d ∧ s = t
  := by
  obtain ⟨w, rfl, hw⟩ | ⟨w, rfl, hw⟩ := List.append_eq_append_iff.mp h
  · cases w with
    | nil => simpa using hw
    | cons x w =>
        obtain ⟨rfl, -⟩ := List.cons.inj hw
        cases hc (by simp)
  · cases w with
    | nil => simpa [eq_comm] using hw
    | cons x w =>
        obtain ⟨rfl, -⟩ := List.cons.inj hw
        cases hd (by simp)

omit [DecidableEq α] in
/-- An element is the first of its kind, or comes after it. -/
theorem append_cons_cases {u v s t : List α} {c : α} (hc : c ∉ v) (h : u ++ c :: s = v ++ c :: t) :
  (u = v ∧ s = t) ∨ ∃ y, u = v ++ c :: y ∧ t = y ++ c :: s
  := by
  obtain ⟨w, rfl, hw⟩ | ⟨w, rfl, hw⟩ := List.append_eq_append_iff.mp h
  · cases w with
    | nil =>
        left
        simpa using hw
    | cons x w =>
        obtain ⟨rfl, -⟩ := List.cons.inj hw
        cases hc (by simp)
  · cases w with
    | nil =>
        left
        simpa [eq_comm] using hw
    | cons x w =>
        obtain ⟨rfl, ht⟩ := List.cons.inj hw
        right
        use w, rfl, ht

/-! ### Replacing -/

variable (old new : List α)

theorem replaceFrom_eq_drop (k : ℕ) (t : List α) :
  replaceFrom old new k t = replaceAll old new (t.drop k)
  := by
  induction t generalizing k with
  | nil => simp [replaceAll, replaceFrom]
  | cons c t ih =>
      cases k with
      | zero => rfl
      | succ k => apply ih

@[simp]
theorem replaceAll_nil :
  replaceAll old new [] = []
  := rfl

variable {old new}

theorem replaceAll_cons {c : α} {t : List α} (h : ¬ old <+: c :: t) :
  replaceAll old new (c :: t) = c :: replaceAll old new t
  := if_neg h

/-- An occurrence is replaced. -/
theorem replaceAll_old (hold : old ≠ []) (t : List α) :
  replaceAll old new (old ++ t) = new ++ replaceAll old new t
  := by
  obtain ⟨c, old', rfl⟩ := List.exists_cons_of_ne_nil hold
  have hprefix := List.prefix_append (c :: old') t
  rw [List.cons_append] at hprefix ⊢
  rw [replaceAll, replaceFrom, if_pos hprefix]
  rw [replaceFrom_eq_drop]
  simp

/-- Where nothing occurs, nothing is replaced. -/
theorem replaceAll_append {u t : List α} (hu : ∀ s, s <:+ u → s ≠ [] → ¬ old <+: s ++ t) :
  replaceAll old new (u ++ t) = u ++ replaceAll old new t
  := by
  induction u with
  | nil => rfl
  | cons c u ih =>
      have hhead := hu (c :: u) (List.suffix_refl _) (List.cons_ne_nil _ _)
      rw [List.cons_append] at hhead ⊢
      rw [ replaceAll_cons hhead, ih]
      · rfl
      · intro s hs
        apply hu s (hs.trans (List.suffix_cons _ _))

/-- A list without one of the elements of `old` has no occurrence of it. -/
theorem replaceAll_of_notMem {c : α} (hc : c ∈ old) {t : List α} (ht : c ∉ t) :
  replaceAll old new t = t
  := by
  have happend : replaceAll old new (t ++ []) = t ++ replaceAll old new [] := by
    apply replaceAll_append
    intro s hs _ hstart
    rw [List.append_nil] at hstart
    apply ht (hs.subset (hstart.subset hc))
  rw [List.append_nil, replaceAll_nil, List.append_nil] at happend
  apply happend

/-- Replacement brings in nothing but the replacement. -/
theorem mem_replaceAll {c : α} {t : List α} (h : c ∈ replaceAll old new t) :
  c ∈ new ∨ c ∈ t
  := by
  have hfrom (k : ℕ) (h : c ∈ replaceFrom old new k t) : c ∈ new ∨ c ∈ t := by
    clear * - h
    induction t generalizing k with
    | nil => cases h
    | cons d t ih =>
        cases k with
        | succ k =>
            obtain hnew | ht := ih k h
            · left
              apply hnew
            · right
              apply List.mem_cons_of_mem _ ht
        | zero =>
            rw [replaceFrom] at h
            split at h
            next =>
              obtain hnew | h := List.mem_append.mp h
              · left
                apply hnew
              · obtain hnew | ht := ih _ h
                · left
                  apply hnew
                · right
                  apply List.mem_cons_of_mem _ ht
            next =>
              obtain rfl | h := List.mem_cons.mp h
              · right
                apply List.mem_cons_self
              · obtain hnew | ht := ih 0 h
                · left
                  apply hnew
                · right
                  apply List.mem_cons_of_mem _ ht
  apply hfrom 0 h

omit [DecidableEq α] in
/-- An occurrence that begins before an element `old` does not have ends before it. -/
theorem prefix_of_prefix_append_cons {u t : List α} {c : α} (hc : c ∉ old)
    (h : old <+: u ++ c :: t) :
  old <+: u
  := by
  obtain hlt | hle := Nat.lt_or_ge u.length old.length
  · have hall : u ++ [c] <+: u ++ c :: t := by
      use t
      simp
    have hu : u ++ [c] <+: old := by
      apply List.prefix_of_prefix_length_le hall h
      rw [List.length_append]
      apply hlt
    cases hc (hu.subset (by simp))
  · apply List.prefix_of_prefix_length_le h (List.prefix_append _ _) hle

/-- Replacement goes on afresh after an element `old` does not have. -/
theorem replaceAll_append_cons (hold : old ≠ []) {c : α} (hc : c ∉ old) (u t : List α) :
  replaceAll old new (u ++ c :: t) = replaceAll old new u ++ c :: replaceAll old new t
  := by
  induction hn : u.length using Nat.strong_induction_on generalizing u with
  | _ n ih =>
      by_cases hprefix : old <+: u ++ c :: t
      · obtain ⟨u', rfl⟩ := prefix_of_prefix_append_cons hc hprefix
        have hpos := List.length_pos_iff.mpr hold
        rw [List.append_assoc, replaceAll_old hold, replaceAll_old hold, ih u'.length _ u' rfl,
          List.append_assoc]
        rw [List.length_append] at hn
        omega
      · cases u with
        | nil => rw [List.nil_append, replaceAll_cons hprefix, replaceAll_nil, List.nil_append]
        | cons x u =>
            have hnot : ¬ old <+: x :: u := by
              intro h
              apply hprefix
              apply h.trans (List.prefix_append _ _)
            rw [List.cons_append] at hprefix ⊢
            rw [replaceAll_cons hprefix, replaceAll_cons hnot,
              ih u.length _ u rfl]
            · rfl
            · rw [List.length_cons] at hn
              omega

theorem replaceFirst_append {u t : List α} (hu : ∀ s, s <:+ u → s ≠ [] → ¬ old <+: s ++ t) :
  replaceFirst old new (u ++ t) = u ++ replaceFirst old new t
  := by
  induction u with
  | nil => rfl
  | cons c u ih =>
      have hhead := hu (c :: u) (List.suffix_refl _) (List.cons_ne_nil _ _)
      rw [List.cons_append] at hhead ⊢
      rw [ replaceFirst, if_neg hhead, ih]
      · rfl
      · intro s hs
        apply hu s (hs.trans (List.suffix_cons _ _))

end Text
