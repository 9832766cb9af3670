import Folio.Paragraph.Metrics
import Folio.Text.Blank
import Folio.Text.Escape

/-!
# Paragraph buffers

The marked-up text of the paragraph being assembled. Sentences stand in spans of their own, which
open with the first text after the last terminator; `plain` is the text without the markup, by
which a paragraph is judged blank.
-/

namespace Folio

/-- A paragraph under construction. -/
structure ParagraphBuffer (α : Type) where
  /-- The pieces of the marked-up text, last first. -/
  parts : List Text := []
  /-- The pieces of the text without markup, last first. -/
  plain : List Text := []
  metrics : Option (Metrics α) := none
  face : Option Face := none
  fontSize : α
  sentenceOpen : Bool := false
  indentApplied : Bool := false

namespace ParagraphBuffer

def sentenceStart : Text := Text.lit "<span class=\"seq\">"

def sentenceEnd : Text := Text.lit "</span>"

variable {α : Type} [Scalar α]

def empty : ParagraphBuffer α := { fontSize := 0 }

/-- Whether nothing has been put in, not even markup. -/
def isEmpty (b : ParagraphBuffer α) : Bool := b.parts.isEmpty

/-- Whether the text is blank throughout. -/
def isBlank (b : ParagraphBuffer α) : Bool := (Text.join b.plain.reverse).isBlank

/-- The largest index of a text. -/
def maxIndex : Nat := Nat.pow 2 63 - 1

/-- The placeholder `count` times over, as far as a text can be that long and there is room for
it. -/
def blanks (room count : Nat) (placeholder : Text) : Except Fault Text :=
  if maxIndex < count then .error .countTooLarge
  else if placeholder.isEmpty then .ok []
  else if maxIndex < count * placeholder.length then .error .textTooLong
  else if room < count * placeholder.length then .error .outOfMemory
  else .ok (Text.replicate count placeholder)

/-- Puts `count` blanks in; a count below one puts nothing in. -/
def appendBlanks (b : ParagraphBuffer α) (room : Nat) (count : Int) (placeholder : Text) :
    Except Fault (ParagraphBuffer α) :=
  if count ≤ 0 then .ok b
  else (blanks room count.toNat placeholder).map fun t =>
    { b with parts := t :: b.parts, plain := t :: b.plain }

/-- Puts marked-up text in; `raw` is the same without markup. A terminator ends its sentence. -/
def appendText (b : ParagraphBuffer α) (markup raw : Text) (terminator : Bool) :
    ParagraphBuffer α :=
  let opened := if b.sentenceOpen then b.parts else sentenceStart :: b.parts
  { b with
    parts := if terminator then sentenceEnd :: markup :: opened else markup :: opened
    plain := raw :: b.plain
    sentenceOpen := !terminator }

/-- The spacer that sets the first line off. -/
def spacer (width : α) (unit : Text) : Text :=
  Text.lit "<span style=\"display:inline-block;width:" ++ Scalar.thousandths width ++ unit
    ++ Text.lit ";\"></span>"

/-- Puts a spacer in front of everything. -/
def insertIndent (b : ParagraphBuffer α) (width : α) (unit : Text) : ParagraphBuffer α :=
  { b with parts := b.parts ++ [spacer width unit] }

/-- The marked-up text, with a sentence still open closed. -/
def markup (b : ParagraphBuffer α) : Text :=
  Text.join b.parts.reverse ++ (if b.sentenceOpen then sentenceEnd else [])

end ParagraphBuffer

end Folio
