import Folio.Paragraph.Glyph

/-!
# Paragraph metrics

The running geometry of the paragraph being assembled. `x` is its anchor, `baseline` that of its
first line and `width` the reach of its widest line from `x`. Once the paragraph has a second line,
`height` holds the line spacing instead of the glyph height.
-/

namespace Folio

/-- The geometry of a paragraph so far; `last` is its latest glyph. -/
structure Metrics (α : Type) where
  x : α
  baseline : α
  width : α
  height : α
  ascent : α
  descent : α
  glyphHeight : α
  last : Glyph α
  manyLines : Bool

namespace Metrics

variable {α : Type} [Scalar α]

/-- The geometry of a paragraph of one glyph. -/
def start (glyph : Glyph α) : Metrics α where
  x := glyph.x
  baseline := glyph.y
  width := glyph.width
  height := glyph.height
  ascent := glyph.ascent
  descent := glyph.descent
  glyphHeight := glyph.height
  last := glyph
  manyLines := false

/-- Adds a glyph to the latest line. -/
def append (m : Metrics α) (glyph : Glyph α) : Metrics α :=
  { m with
    width :=
      if m.manyLines then Scalar.greater m.width (glyph.x + glyph.width - m.x)
      else m.width + (glyph.width + (glyph.x - m.last.x - m.last.width))
    height := if m.manyLines then m.height else Scalar.greater m.height glyph.height
    glyphHeight := Scalar.greater m.glyphHeight glyph.height
    ascent := Scalar.greater m.ascent glyph.ascent
    descent := Scalar.lesser m.descent glyph.descent
    last := glyph }

/-- Starts a further line at `glyph`, after the line that ends with `previous`. -/
def nextLine (m : Metrics α) (glyph previous : Glyph α) (spacing : α) : Metrics α :=
  let right := Scalar.greater (m.x + m.width) (previous.x + previous.width)
  let x := Scalar.lesser m.x glyph.x
  { m with x := x, width := right - x, manyLines := true, height := spacing }

/-- How much further right the paragraph starts than a line that starts at `glyph`. -/
def indent (m : Metrics α) (glyph : Glyph α) : α := Scalar.greater 0 (m.x - glyph.x)

/-- The upper edge: by the ascent of the fonts, or of the last font's box, or the glyph height. -/
def top (m : Metrics α) : α :=
  if m.ascent != 0 then m.baseline - m.ascent
  else if m.last.boxAscent != 0 then m.baseline - m.last.boxAscent
  else m.baseline - m.glyphHeight

/-- The lower edge: by the descent of the fonts, or of the last font's box. -/
def bottom (m : Metrics α) : α :=
  if m.descent != 0 then m.baseline - m.descent else m.baseline - m.last.boxDescent

def lineHeight (m : Metrics α) : α := if m.manyLines then m.height else m.bottom - m.top

end Metrics

end Folio
