import Folio.Geometry.Affine

/-!
# Boxes

What layout puts on a page: paragraphs, rules and pictures, each at an absolute position, and the
counters that tally them.
-/

namespace Folio

/-- How a paragraph's font looks: its family label and whether it is bold and italic. -/
structure Face where
  family : Text
  bold : Bool
  italic : Bool
  deriving DecidableEq, Repr

namespace Face

/-- The style sheet's word for the weight. -/
def weight (face : Face) : Text := Text.lit (if face.bold then "bold" else "normal")

/-- The style sheet's word for the slant. -/
def slant (face : Face) : Text := Text.lit (if face.italic then "italic" else "normal")

end Face

/-- A paragraph with its marked-up content. -/
structure Paragraph (α : Type) where
  left : α
  top : α
  width : α
  lineHeight : α
  content : Text
  fontSize : α
  family : Text
  weight : Text
  slant : Text

/-- The side of a box that is drawn as a rule. -/
inductive Side
  | bottom
  | right
  deriving DecidableEq, Repr

/-- The style sheet's name of the border at that side. -/
def Side.border : Side → Text
  | bottom => Text.lit "border-bottom"
  | right => Text.lit "border-right"

/-- A stroked segment as a box of which one border shows. `angle` is in degrees. -/
structure Rule (α : Type) where
  left : α
  top : α
  width : α
  height : α
  border : Text
  stroke : α
  angle : α

/-- A picture by its address and extent. -/
structure Picture (α : Type) where
  source : Text
  extent : Extent α

/-- What has been laid out so far. -/
structure Tally where
  pages : Nat := 0
  paragraphs : Nat := 0
  rules : Nat := 0
  pictures : Nat := 0
  skippedPictures : Nat := 0
  unsupportedFonts : Nat := 0
  failures : Nat := 0
  deriving DecidableEq, Repr

end Folio
