import Folio.Files
import Folio.Scalar

/-!
# Layout options

Everything a caller may choose about layout, and the machine that it is done on. `Options.check`
refuses values that make no sense together; it tries the numbers first and the picture settings
last.
-/

namespace Folio

/-- Where pictures go. -/
inductive Emission
  /-- Into the page itself. -/
  | inline
  /-- Into files beside it. -/
  | files
  /-- An unknown word was given. -/
  | unknown (word : Text)
  deriving DecidableEq, Repr

namespace Emission

/-- The emission that a word names. -/
def ofText (word : Text) : Emission :=
  if word = Text.lit "inline" then inline
  else if word = Text.lit "file" then files
  else unknown word

/-- Whether pictures go into files; an unknown word is refused. -/
def wantsFiles : Emission → Except Fault Bool
  | inline => .ok false
  | files => .ok true
  | unknown word => .error (.badValue (word ++ Text.lit " is not a valid image emission"))

end Emission

/-- What layout is done on. -/
structure Machine where
  /-- The process and the thread at work, in a word that tells them from others. -/
  word : Text
  /-- The longest text that there is memory for. -/
  room : Nat
  noSlash : CodePoint.ofChar '/' ∉ word := by decide

/-- A machine on which nothing else runs. -/
def Machine.usual : Machine := { word := Text.lit "ctx", room := Nat.pow 2 34 }

/-- What a caller chooses. The tolerances are measured in average glyph widths, in page units and
in glyph widths. -/
structure Options (α : Type) where
  /-- A sentence ends with one of these. -/
  terminators : List Text
  /-- A wider gap splits a line. -/
  wordGapTolerance : α
  /-- A larger change of line spacing ends a paragraph. -/
  lineSpacingTolerance : α
  /-- How far apart the starts of a paragraph's lines may be. -/
  alignmentFactor : α
  /-- How much the margins of a paragraph's lines may differ. -/
  marginFactor : α
  /-- Stands for one average glyph of gap. -/
  placeholder : Text
  emission : Emission
  /-- The directory of picture files. -/
  imageDir : Option FilePath
  /-- The address of that directory in the page. -/
  imagePrefix : Text
  /-- Starts the names of picture files; without one, or with an empty one, the word of the thread
  does. -/
  contextId : Option Text
  /-- Whether a first line that starts further right gets a spacer. -/
  correctsIndent : Bool
  /-- Whether quotes are set off by spaces. -/
  spacesQuotes : Bool
  /-- Whether lines are merged into paragraphs. -/
  mergesLines : Bool
  fallbackFamily : Text
  /-- The unit of every length in the page. -/
  unit : Text
  minStroke : α
  quotes : List Text
  /-- Not chosen, but found. -/
  machine : Machine := .usual

namespace Options

variable {α : Type} [Scalar α]

/-- The options used when nothing is chosen. -/
def standard : Options α where
  terminators := [Text.lit "!", Text.lit "?", Text.lit "。", Text.lit ";", Text.lit "；"]
  wordGapTolerance := Scalar.ofNat 2
  lineSpacingTolerance := 1
  alignmentFactor := Scalar.ofNat 4
  marginFactor := Scalar.ratio 11 10
  placeholder := Text.lit "    "
  emission := .inline
  imageDir := none
  imagePrefix := Text.lit "./image"
  contextId := none
  correctsIndent := true
  spacesQuotes := false
  mergesLines := true
  fallbackFamily := Text.lit "serif"
  unit := Text.lit "pt"
  minStroke := Scalar.half 1
  quotes := [Text.lit "“", Text.lit "”"]

/-- The word that starts the names of picture files. -/
def context (options : Options α) : Text :=
  match options.contextId with
  | none | some [] => options.machine.word
  | some word => word

/-- Refuses options that make no sense. -/
def check (options : Options α) : Except Fault Unit := do
  if options.wordGapTolerance ≤ 0 then
    throw (.refused (Text.lit "word_gap_tolerance must be positive"))
  if options.lineSpacingTolerance < 0 then
    throw (.refused (Text.lit "line_spacing_tolerance must not be negative"))
  if options.alignmentFactor ≤ 0 ∨ options.marginFactor ≤ 0 then
    throw (.refused (Text.lit "alignment_factor and margin_factor must be positive"))
  if options.minStroke < 0 then
    throw (.refused (Text.lit "min_stroke_width must not be negative"))
  if (← options.emission.wantsFiles) && options.imageDir.isNone then
    throw (.refused (Text.lit "image_dir is required when images are written to files"))

end Options

end Folio
