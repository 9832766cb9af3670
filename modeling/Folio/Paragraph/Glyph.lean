import Folio.Font.Basic

/-!
# Glyphs

One decoded character on the page. Its origin lies on the baseline, and `y` grows downward; the
scales are the font size along each axis as it appears on the page.
-/

namespace Folio

/-- A positioned character. -/
structure Glyph (α : Type) where
  text : Text
  x : α
  y : α
  width : α
  height : α
  font : Option (Font α)
  fontSize : α
  xScale : α
  yScale : α

namespace Glyph

variable {α : Type} [Scalar α]

/-- Where the glyph ends. -/
def right (glyph : Glyph α) : α := glyph.x + glyph.width

/-- One glyph for each character of the glyph's text, each a width further on. -/
def spread (glyph : Glyph α) : List (Glyph α) :=
  glyph.text.zipIdx.map fun (c, i) =>
    { glyph with text := [c], x := glyph.x + Scalar.ofNat i * glyph.width }

/-- How far the glyph's font reaches above the baseline. -/
def ascent (glyph : Glyph α) : α :=
  match glyph.font with
  | none => 0
  | some font => Scalar.perMille font.ascent * glyph.yScale

/-- How far the glyph's font reaches below the baseline, never above it. -/
def descent (glyph : Glyph α) : α :=
  match glyph.font with
  | none => 0
  | some font =>
    let descent := Scalar.perMille font.descent * glyph.yScale
    if 0 < descent then -descent else descent

/-- How far the font's box reaches above the baseline. -/
def boxAscent (glyph : Glyph α) : α :=
  match glyph.font.bind (·.box) with
  | none => 0
  | some box => Scalar.perMille box.top * glyph.yScale

/-- How far the font's box reaches below the baseline. -/
def boxDescent (glyph : Glyph α) : α :=
  match glyph.font.bind (·.box) with
  | none => 0
  | some box => Scalar.perMille box.bottom * glyph.yScale

end Glyph

end Folio
