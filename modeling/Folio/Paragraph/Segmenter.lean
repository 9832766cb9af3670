import Folio.Font.Table
import Folio.Options
import Folio.Paragraph.Buffer

/-!
# From glyphs to paragraphs

The segmenter sees one glyph at a time and compares it with the one before.

* On the same line a gap becomes blanks, or ends the paragraph when it is too wide.
* A further line belongs to the paragraph when its spacing is that of the line before, both start
  near each other and the margins at the end of the one and the start of the other agree.
* Anything else starts a new paragraph.

`feed` and `flush` hand out the paragraph that is finished, if one is; whoever takes it in reports
back with `noteFailure` when that fails. Handing out never changes what happens to later glyphs.
-/

namespace Folio

/-- The state between two glyphs. A margin that nothing has narrowed yet is absent. -/
structure Segmenter (α : Type) where
  options : Options α
  buffer : ParagraphBuffer α
  previous : Option (Glyph α) := none
  lineStart : Option (Glyph α) := none
  lastLineStart : Option (Glyph α) := none
  spacing : Option α := none
  pageWidth : α
  leftMargin : Option α := none
  rightMargin : Option α := none
  failures : Nat := 0

namespace Segmenter

variable {α : Type} [Scalar α]

def new (options : Options α) : Segmenter α :=
  { options := options, buffer := .empty, pageWidth := 0 }

/-- Forgets everything about the page. -/
def reset (s : Segmenter α) : Segmenter α :=
  { s with
    buffer := .empty, previous := none, lineStart := none, lastLineStart := none, spacing := none,
    leftMargin := none, rightMargin := none }

/-- Starts a page; one without a width counts as having none. -/
def beginPage (s : Segmenter α) (width : Option α) : Segmenter α :=
  { s.reset with pageWidth := width.getD 0 }

/-- Counts a paragraph that was handed out and could not be taken in. -/
def noteFailure (s : Segmenter α) : Segmenter α := { s with failures := s.failures + 1 }

/-- What is reported when a paragraph that was handed out could not be taken in. -/
def failureReport : Text := Text.lit "Failed to emit paragraph, dropping it"

def paragraph (fallback : Text) (b : ParagraphBuffer α) (m : Metrics α) : Paragraph α :=
  let face := b.face.getD ⟨fallback, false, false⟩
  { left := m.x
    top := m.top
    -- The last glyph's width more, so that the text does not wrap early.
    width := m.width + m.last.width
    lineHeight := m.lineHeight
    content := b.markup
    fontSize := b.fontSize
    family := face.family
    weight := face.weight
    slant := face.slant }

/-- Hands out the paragraph being assembled, unless it is blank, and starts afresh. -/
def flush (s : Segmenter α) : Segmenter α × Option (Paragraph α) :=
  let idle := { s with spacing := none, lastLineStart := none, lineStart := none }
  if s.buffer.isEmpty then (idle, none)
  else
    let out :=
      -- A blank paragraph is dropped with its buffer.
      if s.buffer.isBlank then none
      else s.buffer.metrics.map (paragraph s.options.fallbackFamily s.buffer)
    ({ idle with buffer := .empty }, out)

def endPage (s : Segmenter α) : Segmenter α × Option (Paragraph α) :=
  let (s, out) := s.flush
  (s.reset, out)

/-- Ends the paragraph so that `glyph` starts the next one. -/
def breakBefore (s : Segmenter α) (glyph : Glyph α) : Segmenter α × Option (Paragraph α) :=
  let (s, out) := s.flush
  ({ s with lineStart := some glyph }, out)

/-- The gap between two glyphs of a line, in average glyph widths; glyphs without width make every
gap boundless. -/
def gap? (previous glyph : Glyph α) : Option α :=
  let gap := Scalar.abs (glyph.x - (previous.x + previous.width))
  let average := Scalar.half (previous.width + glyph.width)
  if 0 < average then some (gap / average)
  else if gap == 0 then some 0
  else none

/-- What the segmenter makes of a gap. -/
inductive Gap
  /-- The paragraph ends. -/
  | split
  /-- The gap is that many blanks. -/
  | blanks (count : Int)

/-- Judges a gap by the tolerance; a gap that no number of blanks fills is a fault. -/
def judge (tolerance : α) : Option α → Except Fault Gap
  | none => if Scalar.isBelowInfinity tolerance then .ok .split else .error .infiniteWhole
  | some gap => if tolerance < gap then .ok .split else (Scalar.truncate gap).map .blanks

/-- Goes on with a glyph on the same line. -/
def sameLine (s : Segmenter α) (previous glyph : Glyph α) :
    Except Fault (Segmenter α × Option (Paragraph α)) := do
  match ← judge s.options.wordGapTolerance (gap? previous glyph) with
  | .split => return s.breakBefore glyph
  | .blanks count =>
    let buffer ← s.buffer.appendBlanks s.options.machine.room count s.options.placeholder
    return ({ s with buffer := buffer }, none)

/-- Narrows a margin; a value that is not below infinity leaves an absent margin absent. -/
def narrow (margin : Option α) (value : α) : Option α :=
  match margin with
  | none => if Scalar.isBelowInfinity value then some value else none
  | some m => some (Scalar.lesser m value)

/-- Whether two lines start near each other. -/
def startsAligned (options : Options α) (last current : Option (Glyph α)) : Bool :=
  match last, current with
  | some a, some b =>
    Scalar.abs (a.x - b.x) < Scalar.greater a.width b.width * options.alignmentFactor
  | _, _ => false

/-- Whether the space left at the end of one line and at the start of the next agree. -/
def marginsAgree (s : Segmenter α) (previous glyph : Glyph α) : Bool :=
  match s.leftMargin, s.rightMargin with
  | some left, some right =>
    let rightSpace := s.pageWidth - (previous.x + previous.width) - right
    let leftSpace := glyph.x - left
    Scalar.abs (rightSpace - leftSpace)
      < Scalar.greater previous.width glyph.width * s.options.marginFactor
  | _, _ => false

/-- Takes the line that starts at `glyph` into the paragraph. -/
def mergeLine (s : Segmenter α) (previous glyph : Glyph α) (spacing : α) : Segmenter α :=
  let b := s.buffer
  let metrics := b.metrics.getD (.start glyph)
  let indent := metrics.indent glyph
  let b := { b with metrics := some (metrics.nextLine glyph previous spacing) }
  let b :=
    -- The second line settles the indent, even if it asks for no spacer.
    if s.options.correctsIndent && !b.indentApplied then
      { (if 0 < indent then b.insertIndent indent s.options.unit else b) with
        indentApplied := true }
    else b
  { s with buffer := b }

/-- Whether the spacing of a further line differs from that of the line before. -/
def spacingChanged (s : Segmenter α) (spacing : α) : Bool :=
  match s.spacing with
  | none => false
  | some last => s.options.lineSpacingTolerance < Scalar.abs (spacing - last)

/-- Goes on with a glyph on a further line. -/
def newLine (s : Segmenter α) (previous glyph : Glyph α) (spacing : α) :
    Segmenter α × Option (Paragraph α) :=
  -- The margins take in the line that has ended, even if the paragraph ends with it.
  let s :=
    { s with
      rightMargin := narrow s.rightMargin (s.pageWidth - (previous.x + previous.width))
      leftMargin := narrow s.leftMargin glyph.x }
  if !s.options.mergesLines || s.spacingChanged spacing then s.breakBefore glyph
  else
    let s :=
      { s with spacing := some spacing, lastLineStart := s.lineStart, lineStart := some glyph }
    if previous.text != Text.lit " " && startsAligned s.options s.lastLineStart s.lineStart
        && s.marginsAgree previous glyph then
      (s.mergeLine previous glyph spacing, none)
    else s.breakBefore glyph

/-- Puts the glyph into the paragraph. -/
def append (s : Segmenter α) (fonts : FontTable α) (glyph : Glyph α) : Segmenter α :=
  let shown :=
    if s.options.spacesQuotes && s.options.quotes.contains glyph.text then
      Text.lit " " ++ glyph.text ++ Text.lit " "
    else glyph.text
  let metrics :=
    match s.buffer.metrics with
    | none => .start glyph
    | some m => m.append glyph
  let b :=
    { s.buffer with
      metrics := some metrics, face := some (fonts.face glyph.font), fontSize := glyph.xScale }
  { s with
    buffer := b.appendText shown.escape glyph.text (s.options.terminators.contains glyph.text)
    previous := some glyph }

/-- Makes room for a glyph: blanks, a merged line or a new paragraph. -/
def advance (s : Segmenter α) (glyph : Glyph α) :
    Except Fault (Segmenter α × Option (Paragraph α)) :=
  match s.previous with
  | none =>
    .ok ({ s with lineStart := some glyph, lastLineStart := none, leftMargin := some glyph.x },
      none)
  | some previous =>
    let spacing := Scalar.abs (previous.y - glyph.y)
    if Scalar.greater previous.height glyph.height < spacing then
      .ok (s.newLine previous glyph spacing)
    else s.sameLine previous glyph

/-- Takes one glyph. A fault leaves the segmenter as it was. -/
def feed (s : Segmenter α) (fonts : FontTable α) (glyph : Glyph α) :
    Except Fault (Segmenter α × Option (Paragraph α)) := do
  let (s, out) ← s.advance glyph
  return (s.append fonts glyph, out)

end Segmenter

end Folio
