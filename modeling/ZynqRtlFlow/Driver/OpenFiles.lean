import Mathlib.Data.List.Nodup
import ZynqRtlFlow.Driver.Lifecycle

/-!
# File operations and what they use

What an instance holds is the first part of what its probe takes, so while its character
device is registered everything `accel_probe` took before is still held.  A file can be
opened only then, but nothing keeps the device registered afterwards: the file operations
are safe in the runs that deregister no device with a file open on it, and a run that does
can go on to an operation that is not.
-/

namespace Driver

/-! ### The order of probing -/

theorem takes_nodup (l : LayerModule) :
  (takes l.probe).Nodup
  := by
  cases l <;> decide

theorem node_mem_claims (l : LayerModule) :
  .node ∈ l.claims
  := by
  cases l <;> decide

/-- The character device comes after all else that `accel_probe` takes. -/
theorem claims_before_node (l : LayerModule) :
  ∃ before after, takes l.probe = before ++ .node :: after ∧ .node ∉ before
    ∧ ∀ r ∈ l.claims, r ∈ before ++ [.node]
  := by
  cases l with
  | sparseCnn =>
      use [.priv, .device, .regs, .chan .tx, .buffer .tx], []
      decide
  | relu =>
      use [.device, .regs, .chan .tx, .buffer .tx, .chan .rx, .buffer .rx], [.attrs]
      decide

/-- A first part of a list that reaches an element contains all before it. -/
theorem prefix_of_mem {α : Type} {p before after : List α} {a : α}
    (hp : p <+: before ++ a :: after) (ha : a ∈ p) (hnot : a ∉ before) :
  before ++ [a] <+: p
  := by
  have hall : before ++ [a] <+: before ++ a :: after := by
    use after
    simp
  obtain hlt | hle := Nat.lt_or_ge before.length p.length
  · apply List.prefix_of_prefix_length_le hall hp
    rw [List.length_append]
    apply hlt
  · have hshort : p <+: before :=
      List.prefix_of_prefix_length_le hp (List.prefix_append _ _) hle
    cases hnot (hshort.subset ha)

theorem mem_of_mem_modify {α : Type} {l : List α} {f : α → α} {i : ℕ} {x : α}
    (h : x ∈ l.modify i f) :
  x ∈ l ∨ ∃ y, l[i]? = some y ∧ x = f y
  := by
  obtain ⟨j, hj⟩ := List.mem_iff_getElem?.mp h
  rw [List.getElem?_modify] at hj
  obtain ⟨y, hy, rfl⟩ := Option.map_eq_some_iff.mp hj
  split
  · right
    obtain rfl := ‹i = j›
    use y, hy
  · left
    apply List.mem_of_getElem? hy

/-! ### Instances -/

namespace Instance

/-- What is held is the first part of what the probe takes; until it is released, the
rest of the probe takes the rest. -/
structure Stacked (x : Instance) : Prop where
  held : x.held.reverse <+: takes x.layer.probe
  todo : x.leaving = false → x.held.reverse ++ takes x.todo = takes x.layer.probe

/-- While the character device is registered, all that `accel_probe` took is held. -/
theorem Stacked.claims {x : Instance} (h : x.Stacked) (hnode : .node ∈ x.held) :
  ∀ r ∈ x.layer.claims, r ∈ x.held
  := by
  obtain ⟨before, after, htakes, hnot, hclaims⟩ := claims_before_node x.layer
  have hheld := h.held
  rw [htakes] at hheld
  have hprefix := prefix_of_mem hheld (List.mem_reverse.mpr hnode) hnot
  intro r hr
  apply List.mem_reverse.mp
  apply hprefix.subset (hclaims r hr)

theorem Stacked.nodup {x : Instance} (h : x.Stacked) :
  x.held.Nodup
  := by
  rw [← List.nodup_reverse]
  apply (takes_nodup x.layer).sublist h.held.sublist

/-- An edit of an instance that keeps the stack and the module, and brings nothing back. -/
structure Step (f : Instance → Instance) : Prop where
  stacked : ∀ x, x.Stacked → (f x).Stacked
  layer : ∀ x, (f x).layer = x.layer
  live : ∀ x, (f x).live = true → x.live = true

theorem live_of_not_leaving {x : Instance} (h : x.leaving = false) :
  x.live = true
  := by
  rw [live, h]
  rfl

theorem Stacked.leave {x : Instance} (h : x.Stacked) :
  ({ x with leaving := true } : Instance).Stacked
  := by
  use h.held
  intro hleaving
  cases hleaving

/-- What a step of the probe does: nothing, or it fails, or goes on with or without a
resource more. -/
theorem probeStep_cases (ok : Bool) (x : Instance) :
  x.probeStep ok = x
    ∨ x.leaving = false ∧ (x.probeStep ok = { x with leaving := true }
      ∨ (∃ todo, takes x.todo = takes todo ∧ x.probeStep ok = { x with todo := todo })
      ∨ ∃ r todo, takes x.todo = r :: takes todo
        ∧ x.probeStep ok = { x with todo := todo, held := r :: x.held })
  := by
  cases hleaving : x.leaving with
  | true =>
      left
      rw [probeStep, if_pos hleaving]
  | false =>
      rw [probeStep, hleaving, if_neg Bool.false_ne_true]
      cases htodo : x.todo with
      | nil =>
          left
          rfl
      | cons step todo =>
          right
          use rfl
          cases step with
          | refuse =>
              left
              rfl
          | check =>
              cases ok with
              | false =>
                  left
                  rfl
              | true =>
                  right
                  left
                  use todo, rfl
                  rfl
          | addActionOrReset =>
              cases ok with
              | false =>
                  left
                  rfl
              | true =>
                  right
                  left
                  use todo, rfl
                  rfl
          | take r =>
              cases ok with
              | false =>
                  left
                  rfl
              | true =>
                  right
                  right
                  use r, todo, rfl
                  rfl

theorem step_probeStep (ok : Bool) :
  Step (probeStep ok)
  := by
  constructor
  · intro x h
    obtain heq | ⟨hleaving, heq | ⟨todo, htakes, heq⟩ | ⟨r, todo, htakes, heq⟩⟩ :=
      probeStep_cases ok x
    · rw [heq]
      apply h
    · rw [heq]
      apply h.leave
    · rw [heq]
      use h.held
      intro _
      rw [← htakes]
      apply h.todo hleaving
    · have htodo := h.todo hleaving
      rw [htakes, ← List.singleton_append, ← List.append_assoc] at htodo
      rw [heq]
      constructor
      · use takes todo
        rw [List.reverse_cons]
        apply htodo
      · intro _
        rw [List.reverse_cons]
        apply htodo
  · intro x
    obtain heq | ⟨-, heq | ⟨todo, -, heq⟩ | ⟨r, todo, -, heq⟩⟩ := probeStep_cases ok x
    all_goals rw [heq]
  · intro x hlive
    obtain heq | ⟨hleaving, -⟩ := probeStep_cases ok x
    · rw [heq] at hlive
      apply hlive
    · apply live_of_not_leaving hleaving

theorem step_unbind :
  Step unbind
  := by
  have hcases : ∀ x : Instance, x.unbind = x ∨ x.unbind = { x with leaving := true } := by
    intro x
    rw [unbind]
    split
    · right
      rfl
    · left
      rfl
  constructor
  · intro x h
    obtain heq | heq := hcases x
    · rw [heq]
      apply h
    · rw [heq]
      apply h.leave
  · intro x
    obtain heq | heq := hcases x
    all_goals rw [heq]
  · intro x hlive
    cases hleaving : x.leaving with
    | false => apply live_of_not_leaving hleaving
    | true =>
        obtain heq | heq := hcases x
        · rw [heq] at hlive
          apply hlive
        · rw [heq] at hlive
          rw [live, hleaving]
          apply hlive

theorem step_release :
  Step release
  := by
  have hcases : ∀ x : Instance, x.release = x ∨ x.leaving = true
      ∧ x.release = { x with held := x.held.tail } := by
    intro x
    rw [release]
    split
    · right
      use ‹_›
    · left
      rfl
  constructor
  · intro x h
    obtain heq | ⟨hleaving, heq⟩ := hcases x
    · rw [heq]
      apply h
    · rw [heq]
      constructor
      · apply List.IsPrefix.trans _ h.held
        rw [List.reverse_prefix]
        apply List.tail_suffix
      · intro hnot
        cases hnot.symm.trans hleaving
  · intro x
    obtain heq | ⟨-, heq⟩ := hcases x
    all_goals rw [heq]
  · intro x hlive
    obtain heq | ⟨hleaving, heq⟩ := hcases x
    · rw [heq] at hlive
      apply hlive
    · rw [heq, live] at hlive
      rw [live]
      cases hheld : x.held with
      | nil =>
          rw [hheld] at hlive
          apply hlive
      | cons r held => simp

end Instance

/-! ### The system -/

namespace System

theorem openable_iff {s : System} {i : ℕ} :
  s.openable i = true ↔ ∃ x, s.instances[i]? = some x ∧ .node ∈ x.held
  := by simp [openable, Option.any_eq_true]

/-- Every instance holds a first part of what its probe takes, and what is left of one
keeps its module loaded. -/
structure Sound (s : System) : Prop where
  stacked : ∀ x ∈ s.instances, x.Stacked
  layer : ∀ x ∈ s.instances, x.live = true → x.layer ∈ s.loaded

theorem Sound.modify {s : System} (h : s.Sound) {f : Instance → Instance} (hf : Instance.Step f)
    (i : ℕ) :
  Sound { s with instances := s.instances.modify i f }
  := by
  constructor
  · intro x hx
    obtain hx | ⟨y, hy, rfl⟩ := mem_of_mem_modify hx
    · apply h.stacked x hx
    · apply hf.stacked y (h.stacked y (List.mem_of_getElem? hy))
  · intro x hx hlive
    obtain hx | ⟨y, hy, rfl⟩ := mem_of_mem_modify hx
    · apply h.layer x hx hlive
    · rw [hf.layer]
      apply h.layer y (List.mem_of_getElem? hy) (hf.live y hlive)

theorem Sound.next {s : System} (h : s.Sound) (e : LifeEvent) :
  (s.next e).Sound
  := by
  cases e with
  | loadTransport => exact ⟨h.stacked, h.layer⟩
  | unloadTransport =>
      rw [System.next]
      split
      · exact ⟨h.stacked, h.layer⟩
      · apply h
  | loadLayer l =>
      rw [System.next]
      split
      · use h.stacked
        intro x hx hlive
        apply List.mem_cons_of_mem _ (h.layer x hx hlive)
      · apply h
  | unloadLayer l =>
      rw [System.next]
      split
      · rename_i hnone
        use h.stacked
        intro x hx hlive
        have hother := List.all_eq_true.mp hnone x hx
        rw [hlive, Bool.not_true, Bool.or_false] at hother
        apply List.mem_filter.mpr ⟨h.layer x hx hlive, hother⟩
      · apply h
  | addDevice d l =>
      rw [System.next]
      split
      · exact ⟨h.stacked, h.layer⟩
      · apply h
  | removeDevice d =>
      rw [System.next]
      split
      · exact ⟨h.stacked, h.layer⟩
      · apply h
  | probe d l =>
      rw [System.next]
      split
      · rename_i hguard
        have hloaded : l ∈ s.loaded := by simp_all
        constructor
        · intro x hx
          obtain hx | hx := List.mem_append.mp hx
          · apply h.stacked x hx
          · obtain rfl := List.mem_singleton.mp hx
            use List.nil_prefix
            intro _
            rfl
        · intro x hx hlive
          obtain hx | hx := List.mem_append.mp hx
          · apply h.layer x hx hlive
          · obtain rfl := List.mem_singleton.mp hx
            apply hloaded
      · apply h
  | probeStep i ok => apply h.modify (Instance.step_probeStep ok)
  | unbind i => apply h.modify Instance.step_unbind
  | release i => apply h.modify Instance.step_release
  | openFile i =>
      rw [System.next]
      split
      · exact ⟨h.stacked, h.layer⟩
      · apply h
  | beginOp k op => exact ⟨h.stacked, h.layer⟩
  | finishOp k j => exact ⟨h.stacked, h.layer⟩
  | closeFile k =>
      rw [System.next]
      split
      · exact ⟨h.stacked, h.layer⟩
      · apply h

theorem sound_run (es : List LifeEvent) :
  (run es).Sound
  := by
  induction es using List.reverseRecOn with
  | nil =>
      constructor
      · apply List.forall_mem_nil
      · apply List.forall_mem_nil
  | append_singleton es e ih =>
      rw [run_concat]
      apply ih.next

/-! ### Careful runs -/

/-- Every open file is on an instance whose character device is registered. -/
def Registered (s : System) : Prop :=
  ∀ f ∈ s.files, ∃ x, s.instances[f.inst]? = some x ∧ .node ∈ x.held

/-- What the file operations of an open file use is held while the character device is
registered. -/
theorem Sound.holds {s : System} (h : s.Sound) {f : OpenFile} {x : Instance}
    (hx : s.instances[f.inst]? = some x) (hnode : .node ∈ x.held) :
  s.Holds f
  := by
  have hmem := List.mem_of_getElem? hx
  use x, hx
  constructor
  · apply h.layer x hmem
    cases hheld : x.held with
    | nil =>
        rw [hheld] at hnode
        cases hnode
    | cons r held => simp [Instance.live, hheld]
  · apply (h.stacked x hmem).claims hnode

theorem Registered.modify {s : System} (h : s.Registered) {g : Instance → Instance} {i : ℕ}
    (hg : ∀ f ∈ s.files, f.inst = i → ∀ x, s.instances[i]? = some x → .node ∈ x.held →
      .node ∈ (g x).held) :
  Registered { s with instances := s.instances.modify i g }
  := by
  intro f hf
  obtain ⟨x, hx, hnode⟩ := h f hf
  rw [List.getElem?_modify]
  split
  · rename_i heq
    rw [hx]
    use g x, rfl
    apply hg f hf heq.symm x
    · rw [heq]
      apply hx
    · apply hnode
  · rw [hx]
    use x, rfl

/-- Changing the calls at work on open files changes no file's device. -/
theorem Registered.modify_files {s : System} (h : s.Registered) {g : OpenFile → OpenFile}
    (hg : ∀ f, (g f).inst = f.inst) (k : ℕ) :
  Registered { s with files := s.files.modify k g }
  := by
  intro f hf
  obtain hf | ⟨f', hf', rfl⟩ := mem_of_mem_modify hf
  · apply h f hf
  · rw [hg]
    apply h f' (List.mem_of_getElem? hf')

theorem mem_probeStep (ok : Bool) {x : Instance} (hnode : .node ∈ x.held) :
  .node ∈ (x.probeStep ok).held
  := by
  obtain heq | ⟨-, heq | ⟨todo, -, heq⟩ | ⟨r, todo, -, heq⟩⟩ := Instance.probeStep_cases ok x
  · rw [heq]
    apply hnode
  · rw [heq]
    apply hnode
  · rw [heq]
    apply hnode
  · rw [heq]
    apply List.mem_cons_of_mem _ hnode

/-- Releasing an instance whose next resource is another leaves its character device. -/
theorem mem_release {x : Instance} (hnode : .node ∈ x.held)
    (hnot : ¬ (x.leaving = true ∧ x.held.head? = some .node)) :
  .node ∈ x.release.held
  := by
  rw [Instance.release]
  split
  · rename_i hleaving
    cases hheld : x.held with
    | nil =>
        rw [hheld] at hnode
        cases hnode
    | cons r held =>
        rw [hheld] at hnode hnot
        obtain rfl | hmem := List.mem_cons.mp hnode
        · cases hnot ⟨hleaving, rfl⟩
        · apply hmem
  · apply hnode

theorem Registered.next {s : System} (h : s.Registered) {e : LifeEvent} (he : s.Careful e) :
  (s.next e).Registered
  := by
  cases e with
  | loadTransport => apply h
  | unloadTransport =>
      rw [System.next]
      split <;> apply h
  | loadLayer l =>
      rw [System.next]
      split <;> apply h
  | unloadLayer l =>
      rw [System.next]
      split <;> apply h
  | addDevice d l =>
      rw [System.next]
      split <;> apply h
  | removeDevice d =>
      rw [System.next]
      split <;> apply h
  | probe d l =>
      rw [System.next]
      split
      · intro f hf
        obtain ⟨x, hx, hnode⟩ := h f hf
        obtain ⟨hlt, -⟩ := List.getElem?_eq_some_iff.mp hx
        use x
        rw [List.getElem?_append_left hlt]
        use hx
      · apply h
  | probeStep i ok =>
      apply h.modify
      intro f hf hinst x hx hnode
      apply mem_probeStep ok hnode
  | unbind i =>
      apply h.modify
      intro f hf hinst x hx hnode
      rw [Instance.unbind]
      split <;> apply hnode
  | release i =>
      apply h.modify
      intro f hf hinst x hx hnode
      apply mem_release hnode
      rintro ⟨hleaving, hhead⟩
      apply he _ f hf hinst
      use x, hx
  | openFile i =>
      rw [System.next]
      split
      · rename_i hopenable
        intro f hf
        obtain hf | hf := List.mem_append.mp hf
        · apply h f hf
        · obtain rfl := List.mem_singleton.mp hf
          apply openable_iff.mp hopenable
      · apply h
  | beginOp k op =>
      apply h.modify_files
      intro f
      rfl
  | finishOp k j =>
      apply h.modify_files
      intro f
      rfl
  | closeFile k =>
      rw [System.next]
      split
      · intro f hf
        apply h f (List.mem_of_mem_eraseIdx hf)
      · apply h

theorem carefulRun_append (s : System) (es es' : List LifeEvent) :
  s.CarefulRun (es ++ es') ↔ s.CarefulRun es ∧ (es.foldl System.next s).CarefulRun es'
  := by
  induction es generalizing s with
  | nil => exact (iff_of_eq (true_and _)).symm
  | cons e es ih =>
      rw [List.cons_append, CarefulRun, CarefulRun, ih, and_assoc]
      rfl

theorem registered_run {es : List LifeEvent} (h : init.CarefulRun es) :
  (run es).Registered
  := by
  induction es using List.reverseRecOn with
  | nil => apply List.forall_mem_nil
  | append_singleton es e ih =>
      obtain ⟨hes, he, -⟩ := (carefulRun_append init es [e]).mp h
      rw [run_concat]
      apply (ih hes).next he

/-- In a careful run every file operation at work has what it uses. -/
theorem safe_run {es : List LifeEvent} (h : init.CarefulRun es) :
  (run es).Safe
  := by
  intro f hf _
  obtain ⟨x, hx, hnode⟩ := registered_run h f hf
  apply (sound_run es).holds hx hnode

/-! ### What `fops.owner` pins -/

/-- A module of a register layer, and an open file, keep the transport loaded. -/
structure Pinned (s : System) : Prop where
  loaded : s.loaded ≠ [] → s.transport = true
  files : s.files ≠ [] → s.transport = true

theorem Sound.loaded_of_openable {s : System} (h : s.Sound) {i : ℕ} (hi : s.openable i = true) :
  s.loaded ≠ []
  := by
  obtain ⟨x, hx, hnode⟩ := openable_iff.mp hi
  obtain ⟨y, -, hlayer, -⟩ := h.holds (f := ⟨i, []⟩) hx hnode
  apply List.ne_nil_of_mem hlayer

/-- A step that loads no module and opens no file pins no more than before. -/
theorem Pinned.of_nil {s s' : System} (h : s.Pinned) (htransport : s'.transport = s.transport)
    (hloaded : s.loaded = [] → s'.loaded = []) (hfiles : s.files = [] → s'.files = []) :
  s'.Pinned
  := by
  constructor
  · intro hne
    rw [htransport]
    apply h.loaded (mt hloaded hne)
  · intro hne
    rw [htransport]
    apply h.files (mt hfiles hne)

theorem Pinned.next {s : System} (h : s.Pinned) (hs : s.Sound) (e : LifeEvent) :
  (s.next e).Pinned
  := by
  cases e with
  | loadTransport => exact ⟨fun _ => rfl, fun _ => rfl⟩
  | unloadTransport =>
      rw [System.next]
      split
      · rename_i hguard
        rw [Bool.and_eq_true, List.isEmpty_iff, List.isEmpty_iff] at hguard
        exact ⟨fun hne => absurd hguard.1 hne, fun hne => absurd hguard.2 hne⟩
      · apply h
  | loadLayer l =>
      rw [System.next]
      split
      · rename_i hguard
        use fun _ => (Bool.and_eq_true_iff.mp hguard).1, h.files
      · apply h
  | unloadLayer l =>
      rw [System.next]
      split
      · refine h.of_nil rfl ?_ id
        intro heq
        simp [heq]
      · apply h
  | addDevice d l =>
      rw [System.next]
      split <;> exact h.of_nil rfl id id
  | removeDevice d =>
      rw [System.next]
      split <;> exact h.of_nil rfl id id
  | probe d l =>
      rw [System.next]
      split <;> exact h.of_nil rfl id id
  | probeStep i ok => exact h.of_nil rfl id id
  | unbind i => exact h.of_nil rfl id id
  | release i => exact h.of_nil rfl id id
  | openFile i =>
      rw [System.next]
      split
      · rename_i hopenable
        use h.loaded
        intro _
        apply h.loaded (hs.loaded_of_openable hopenable)
      · apply h
  | beginOp k op =>
      refine h.of_nil rfl id ?_
      intro heq
      simp [System.next, heq]
  | finishOp k j =>
      refine h.of_nil rfl id ?_
      intro heq
      simp [System.next, heq]
  | closeFile k =>
      rw [System.next]
      split
      · refine h.of_nil rfl id ?_
        intro heq
        simp [heq]
      · apply h

/-- The code of the file operations stays loaded as long as a file is open, whatever the
run. -/
theorem transport_pinned (es : List LifeEvent) (h : (run es).files ≠ []) :
  (run es).transport = true
  := by
  have hpinned : (run es).Pinned := by
    clear h
    induction es using List.reverseRecOn with
    | nil => exact ⟨fun hne => absurd rfl hne, fun hne => absurd rfl hne⟩
    | append_singleton es e ih =>
        rw [run_concat]
        apply ih.next (sound_run es)
  apply hpinned.files h

/-! ### Careless runs -/

/-- The character device is held once. -/
theorem node_not_mem_release {x : Instance} (hx : x.Stacked) (hleaving : x.leaving = true)
    (hhead : x.held.head? = some .node) :
  .node ∉ x.release.held
  := by
  have hnodup := hx.nodup
  obtain ⟨held, hheld⟩ := List.head?_eq_some_iff.mp hhead
  rw [hheld] at hnodup
  rw [Instance.release, if_pos hleaving, hheld]
  apply (List.nodup_cons.mp hnodup).1

/-- Once a character device is deregistered with a file open on it, a read of that file
uses what is no longer held. -/
theorem unsafe_of_careless (es : List LifeEvent) {e : LifeEvent} (he : ¬ Careful (run es) e) :
  ∃ e', ¬ (run (es ++ [e, e'])).Safe
  := by
  obtain ⟨i, rfl⟩ : ∃ i, e = .release i := by
    cases e with
    | release i => use i
    | _ => cases he trivial
  rw [Careful] at he
  push Not at he
  obtain ⟨⟨x, hx, hleaving, hhead⟩, f, hf, rfl⟩ := he
  obtain ⟨k, hk⟩ := List.mem_iff_getElem?.mp hf
  use .beginOp k .read
  intro hsafe
  rw [List.append_cons, run_concat, run_concat] at hsafe
  have hmem : { f with ops := .read :: f.ops } ∈ (((run es).next (.release f.inst)).next
      (.beginOp k .read)).files := by
    apply List.mem_of_getElem? (i := k)
    change (List.modify _ k _)[k]? = _
    rw [List.getElem?_modify_eq]
    change Option.map _ (run es).files[k]? = _
    rw [hk]
    rfl
  obtain ⟨y, hy, -, hclaims⟩ := hsafe _ hmem (List.cons_ne_nil _ _)
  change (List.modify _ f.inst _)[f.inst]? = some y at hy
  rw [List.getElem?_modify_eq, hx] at hy
  obtain rfl := Option.some.inj hy
  have hstacked := (sound_run es).stacked x (List.mem_of_getElem? hx)
  apply node_not_mem_release hstacked hleaving hhead
  apply hclaims
  apply node_mem_claims

/-- File operations are safe in every state of a run that deregisters a character device
only while no file is open on it, and a run that does otherwise can go on to an operation
that is not. -/
theorem operations_safe_when_careful (es : List LifeEvent) (h : init.CarefulRun es) :
  (∀ past rest, es = past ++ rest → (run past).Safe)
    ∧ ∀ e, ¬ Careful (run es) e → ∃ e', ¬ (run (es ++ [e, e'])).Safe
  := by
  constructor
  · rintro past rest rfl
    apply safe_run ((carefulRun_append init past rest).mp h).1
  · intro e he
    apply unsafe_of_careless es he

/-- The sparse CNN is loaded and bound, and its character device opened. -/
def bindAndOpen : List LifeEvent :=
  [.loadTransport, .loadLayer .sparseCnn, .addDevice 0 .sparseCnn, .probe 0 .sparseCnn]
    ++ List.replicate 10 (.probeStep 0 true) ++ [.openFile 0]

/-- A file read, closed, and its device then unbound and released. -/
theorem operations_safe_when_closed_first :
  init.CarefulRun (bindAndOpen ++ [.beginOp 0 .read, .finishOp 0 0, .closeFile 0, .unbind 0]
      ++ List.replicate 6 (.release 0))
    ∧ (run (bindAndOpen ++ [.beginOp 0 .read])).Safe
  := by
  have hcareful : init.CarefulRun (bindAndOpen ++ [.beginOp 0 .read, .finishOp 0 0, .closeFile 0,
      .unbind 0] ++ List.replicate 6 (.release 0)) := by decide
  use hcareful
  apply (operations_safe_when_careful _ hcareful).1 _
    ([.finishOp 0 0, .closeFile 0, .unbind 0] ++ List.replicate 6 (.release 0)) rfl

/-- A device unbound with a file open on it, and then a read of that file. -/
theorem read_after_unbind :
  ¬ ∀ es, (run es).Safe
  := by
  intro h
  have hsafe := h (bindAndOpen ++ [.unbind 0, .release 0, .beginOp 0 .read])
  revert hsafe
  decide

end System

end Driver
