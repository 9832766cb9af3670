import Folio.Font.Catalog
import Folio.Geometry.Page
import Folio.Log
import Folio.Paragraph.Glyph
import Folio.Pdf.Graph

/-!
# Page events

What happens on the pages of a document, in order: the document begins, then for each page the page
begins, its resources are known, glyphs and operators follow and the page ends, and at last the
document ends. A `Listener` takes the events; it may fail at any of them.
-/

namespace Folio

/-- An operator of the content that draws paths or external objects. -/
structure Operator (α : Type) where
  name : Text
  operands : List (Pdf.Object α)
  /-- The objects that the operands refer to. -/
  graph : Pdf.Graph α
  /-- The map from the operator's user space to that of the page. -/
  ctm : Affine α
  lineWidth : α
  /-- The resources that names among the operands stand for. -/
  resources : Option (Resources α)

/-- What happens on the pages of a document. -/
inductive Event (α : Type)
  | documentBegin (title : Option Text)
  | pageBegin (number : Nat) (crop : CropBox α) (rotation : Int)
  | resources (catalog : Catalog α) (index : Nat)
  | glyph (glyph : Glyph α)
  | operator (operator : Operator α)
  | pageEnd
  | documentEnd

/-- Something that follows a document, with a state `σ` of its own. -/
structure Listener (α σ : Type) where
  /-- Takes an event. -/
  receive : Event α → Act σ Unit
  /-- Hears how many of the pages are done. -/
  progress : Nat → Nat → Act σ Unit
  /-- Takes down a report. -/
  report : LogRecord → σ → σ

end Folio
