import Folio.Paragraph.Segmenter

/-!
# Delivering paragraphs

A segmenter together with whoever takes its paragraphs in. The taker has a state of its own and may
refuse any paragraph, going by that state; the segmenter counts the refusal and goes on.
-/

namespace Folio

/-- A segmenter, the state of whoever takes its paragraphs in, and the paragraphs offered so far. -/
structure Delivery (α τ : Type) where
  segmenter : Segmenter α
  taker : τ
  offered : List (Paragraph α) := []

namespace Delivery

variable {α τ : Type}

/-- The state of the taker after it has been offered paragraphs one after the other. -/
def takeAll (take : Paragraph α → Act τ Unit) (ps : List (Paragraph α)) (t : τ) : τ :=
  ps.foldl (fun t p => ((take p).run t).2) t

/-- Offers the paragraph that the segmenter hands out, if it does. -/
def offer (take : Paragraph α → Act τ Unit) (d : Delivery α τ) :
    Option (Paragraph α) → Delivery α τ
  | none => d
  | some p =>
    let d' := { d with taker := ((take p).run d.taker).2, offered := d.offered ++ [p] }
    match ((take p).run d.taker).1 with
    | .ok _ => d'
    | .error _ => { d' with segmenter := d.segmenter.noteFailure }

theorem takeAll_append (take : Paragraph α → Act τ Unit) (ps qs : List (Paragraph α)) (t : τ) :
    takeAll take (ps ++ qs) t = takeAll take qs (takeAll take ps t) :=
  List.foldl_append

/-- A refusal changes nothing about the segmenter but the count. -/
theorem segmenter_offer (take : Paragraph α → Act τ Unit) (d : Delivery α τ)
    (out : Option (Paragraph α)) :
    (d.offer take out).segmenter = d.segmenter
      ∨ (d.offer take out).segmenter = d.segmenter.noteFailure := by
  cases out with
  | none => exact .inl rfl
  | some p =>
    rw [offer]
    split
    · exact .inl rfl
    · exact .inr rfl

theorem offered_offer (take : Paragraph α → Act τ Unit) (d : Delivery α τ)
    (out : Option (Paragraph α)) : (d.offer take out).offered = d.offered ++ out.toList := by
  cases out with
  | none => rw [offer, Option.toList_none, List.append_nil]
  | some p =>
    rw [offer]
    split <;> rfl

theorem taker_offer (take : Paragraph α → Act τ Unit) (d : Delivery α τ)
    (out : Option (Paragraph α)) : (d.offer take out).taker = takeAll take out.toList d.taker := by
  cases out with
  | none => rfl
  | some p =>
    rw [offer]
    split <;> rfl

variable [Scalar α]

def feed (take : Paragraph α → Act τ Unit) (fonts : FontTable α) (d : Delivery α τ)
    (glyph : Glyph α) : Except Fault (Delivery α τ) := do
  let (segmenter, out) ← d.segmenter.feed fonts glyph
  return { d with segmenter := segmenter }.offer take out

/-- Begins a page, feeds glyphs and ends the page. -/
def page (take : Paragraph α → Act τ Unit) (fonts : FontTable α) (width : Option α)
    (glyphs : List (Glyph α)) (d : Delivery α τ) : Except Fault (Delivery α τ) := do
  let d ← glyphs.foldlM (feed take fonts) { d with segmenter := d.segmenter.beginPage width }
  let (segmenter, out) := d.segmenter.endPage
  return { d with segmenter := segmenter }.offer take out

end Delivery

end Folio
