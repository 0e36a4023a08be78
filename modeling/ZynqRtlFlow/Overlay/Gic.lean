import ZynqRtlFlow.Overlay.Tree

/-!
# The interrupt controller

The generated tree parents its interrupts on `imux`, which the booted kernel knows as
`gic`.  The script renames it in the whole text of a node; as no reference crosses the end
of a line, this renames it line by line.
-/

namespace Overlay

open Text

theorem notMem_onGic {c : Char} (hc : c ∉ gic) {t : Str} (h : c ∉ t) :
  c ∉ replaceAll imux gic t
  := by
  intro hmem
  obtain hmem | hmem := mem_replaceAll hmem
  · apply hc hmem
  · apply h hmem

theorem isLine_onGic {t : Str} (h : IsLine t) :
  IsLine (replaceAll imux gic t)
  := by
  have hgic : IsLine gic := by decide
  intro c hc
  obtain hc | hc := mem_replaceAll hc
  · apply hgic c hc
  · apply h c hc

theorem onGic_blank {t : Str} (h : ∀ c ∈ t, isSpace c = true) :
  replaceAll imux gic t = t
  := by
  apply replaceAll_of_notMem (c := '<') (by decide)
  intro hmem
  cases h _ hmem

/-- A character that no reference to `imux` has parts the text in two. -/
theorem onGic_append_cons {c : Char} (hc : c ∉ imux) (u t : Str) :
  replaceAll imux gic (u ++ c :: t) = replaceAll imux gic u ++ c :: replaceAll imux gic t
  := replaceAll_append_cons (by decide) hc u t

theorem onGic_cons {c : Char} (hc : c ∉ imux) (t : Str) :
  replaceAll imux gic (c :: t) = c :: replaceAll imux gic t
  := onGic_append_cons hc [] t

/-- A line with its references to `imux` renamed. -/
def Line.onGic (l : Line) : Line where
  text := replaceAll imux gic l.text
  isLine := isLine_onGic l.isLine
  noBrace := by
    constructor
    · apply notMem_onGic (by decide) l.noBrace.1
    · apply notMem_onGic (by decide) l.noBrace.2
  closed := by
    obtain h | ⟨u, w, hw, htext⟩ := l.closed_cases
    · rw [onGic_blank h]
      apply l.closed
    · right
      rw [htext, onGic_append_cons (by decide), onGic_blank hw, List.append_cons, rstrip_blank hw,
        rstrip, List.rdropWhile_concat_neg]
      · rw [List.getLast?_concat]
      · decide

/-- A header with its references to `imux` renamed. -/
def Header.onGic (h : Header) : Header where
  text := replaceAll imux gic h.text
  isLine := isLine_onGic h.isLine
  noBrace := by
    constructor
    · apply notMem_onGic (by decide) h.noBrace.1
    · apply notMem_onGic (by decide) h.noBrace.2
  noEq := notMem_onGic (by decide) h.noEq

/-- The references to `imux` renamed in every line. -/
def Body.onGic : Body → Body
  | nil => nil
  | line l rest => line l.onGic rest.onGic
  | node h b i rest => node h.onGic b.onGic i rest.onGic

/-- A node with all its references to `imux` renamed. -/
def Node.onGic (n : Node) : Node where
  header := n.header.onGic
  body := n.body.onGic
  indent := n.indent

theorem Body.text_onGic (b : Body) (t : Str) :
  replaceAll imux gic (b.text ++ t) = b.onGic.text ++ replaceAll imux gic t
  := by
  induction b generalizing t with
  | nil => rfl
  | line l rest ih =>
      rw [text, List.append_assoc, List.cons_append, onGic_append_cons (by decide), ih, onGic, text]
      simp [Line.onGic]
  | node h b i rest ihb ih =>
      have htext : (Body.node h b i rest).text ++ t
          = h.text ++ '{' :: '\n' :: (b.text ++ (i.text ++ '}' :: ';' :: '\n' :: (rest.text ++ t)))
          := by
        simp [text]
      rw [htext, onGic_append_cons (by decide), onGic_cons (by decide), ihb,
        onGic_append_cons (by decide), onGic_cons (by decide), onGic_cons (by decide), ih,
        onGic_blank i.blank, onGic, text]
      simp [Header.onGic]

/-- Renaming in the text of a node renames in its lines. -/
theorem Node.text_onGic (n : Node) :
  replaceAll imux gic n.text = n.onGic.text
  := by
  rw [text, onGic_append_cons (by decide), onGic_cons (by decide), Body.text_onGic,
    onGic_append_cons (by decide), onGic_blank n.indent.blank]
  rfl

end Overlay
