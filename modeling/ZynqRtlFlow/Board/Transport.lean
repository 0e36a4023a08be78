import ZynqRtlFlow.Board.Quiet

/-!
# The transport on the board

What the parts of `accel_run_tile` that do not depend on the accelerator do to the
channels: a submission that fails leaves both channels as empty as they were, one that
succeeds leaves a descriptor waiting in each.
-/

open AxiLite Driver
open Errno

namespace Board

variable {A : Accelerator} {π : Type} (ops : AccelOps π)

/-- The `rx` channel with the return transfer of a tile submitted, if it has one. -/
def rxSubmitted (bytes returned : ℕ) : Channel :=
  if ops.duplex then Channel.empty.submit ⟨bytes, returned⟩ else .empty

/-- What a submission leaves. -/
def Submitted (bytes sent returned : ℕ) (m : Mem π) (I : A.State → Bus → Prop) :
    Except Errno Unit → State A π → Prop
  | .ok () => At (Channel.empty.submit ⟨bytes, sent⟩) (rxSubmitted ops bytes returned) m I
  | .error _ => At .empty .empty m I

theorem quiet_empty :
  Quiet .empty .empty
  := ⟨rfl, rfl⟩

variable {t r : Channel} {m : Mem π} {I : A.State → Bus → Prop} {σ : State A π}

section Parts

variable (hI : Undisturbed A I) (hq : Quiet t r) (h : At t r m I σ)

include hI hq h

theorem wp_terminateRx (hr : ops.duplex = false → r = .empty) :
  (platform A π).wp (terminateRx ops) (fun _ => At t .empty m I) σ
  := by
  rw [terminateRx]
  split
  · apply wp_terminateSync_rx hI hq h
  · obtain rfl := hr (by simpa using ‹¬ ops.duplex = true›)
    apply Platform.wp_mono (wp_pure_at hI hq h ())
    rintro _ τ ⟨-, hτ⟩
    apply hτ

theorem wp_discard (hr : ops.duplex = false → r = .empty) (e : Errno) :
  (platform A π).wp (Driver.discard ops e) (fun ret τ => ret = .error e ∧ At t .empty m I τ) σ
  := by
  apply Platform.wp_seq (wp_terminateRx ops hI hq h hr)
  intro _ τ hτ
  apply wp_pure_at hI ⟨hq.tx, rfl⟩ hτ

theorem wp_prepRx (bytes returned : ℕ) :
  (platform A π).wp (prepRx ops bytes returned)
    (fun x τ => (x = none ∨ ops.duplex = true ∧ x = some ⟨bytes, returned⟩) ∧ At t r m I τ) σ
  := by
  rw [prepRx]
  split
  · apply Platform.wp_mono (wp_prepSlaveSingle hI hq h .rx bytes returned)
    rintro x τ ⟨hx | hx, hτ⟩
    · use .inl hx
    · use .inr ⟨‹_›, hx⟩
  · apply Platform.wp_mono (wp_pure_at hI hq h none)
    rintro x τ ⟨rfl, hτ⟩
    use .inl rfl

end Parts

/-- With no descriptor in either channel, a submission leaves one in each, or none. -/
theorem wp_submitTile (hI : Undisturbed A I) (h : At .empty .empty m I σ)
    (bytes sent returned : ℕ) :
  (platform A π).wp (submitTile ops bytes sent returned)
    (Submitted ops bytes sent returned m I) σ
  := by
  have hdiscard : ∀ {r : Channel} (e : Errno) (τ : State A π), r.issued = [] →
      (ops.duplex = false → r = .empty) → At .empty r m I τ →
      (platform A π).wp (Driver.discard ops e) (Submitted ops bytes sent returned m I) τ := by
    intro r e τ hissued hr hτ
    apply Platform.wp_mono (wp_discard ops hI ⟨rfl, hissued⟩ hτ hr e)
    rintro ret υ ⟨rfl, hυ⟩
    apply hυ
  apply Platform.wp_seq (wp_prepRx ops hI quiet_empty h bytes returned)
  rintro rxDesc τ ⟨hrx, hτ⟩
  split
  · apply Platform.wp_mono (wp_pure_at hI quiet_empty hτ _)
    rintro ret υ ⟨rfl, hυ⟩
    apply hυ
  · apply Platform.wp_seq (wp_prepSlaveSingle hI quiet_empty hτ .tx bytes sent)
    rintro txDesc υ ⟨rfl | rfl, hυ⟩
    · apply hdiscard EIO υ rfl (fun _ => rfl) hυ
    · have hrx' : (platform A π).wp (submitRx rxDesc)
          (fun x => match x with
            | none => At .empty (rxSubmitted ops bytes returned) m I
            | some _ => At .empty .empty m I) υ := by
        obtain rfl | ⟨hduplex, rfl⟩ := hrx
        · have hduplex : ops.duplex = false := by simp_all
          apply Platform.wp_mono (wp_pure_at hI quiet_empty hυ none)
          rintro x φ ⟨rfl, hφ⟩
          rw [rxSubmitted, hduplex]
          apply hφ
        · apply Platform.wp_mono (wp_submit_rx hI quiet_empty hυ ⟨bytes, returned⟩)
          intro x φ hφ
          cases x with
          | none =>
              rw [rxSubmitted, if_pos hduplex]
              apply hφ
          | some e => apply hφ
      have hissued : (rxSubmitted ops bytes returned).issued = [] := by
        rw [rxSubmitted]
        split <;> rfl
      apply Platform.wp_seq hrx'
      intro x φ hφ
      cases x with
      | some e => apply hdiscard e φ rfl (fun _ => rfl) hφ
      | none =>
          apply Platform.wp_seq (wp_submit_tx hI ⟨rfl, hissued⟩ hφ ⟨bytes, sent⟩)
          intro y ψ hψ
          cases y with
          | some e =>
              apply hdiscard e ψ hissued _ hψ
              intro hduplex
              rw [rxSubmitted, hduplex]
              rfl
          | none =>
              dsimp only
              apply Platform.wp_mono (wp_pure_at hI ⟨rfl, hissued⟩ hψ _)
              rintro ret χ ⟨rfl, hχ⟩
              apply hχ

end Board
