import Folio.Box
import Folio.Text.Case

/-!
# Fonts

A font as a document describes it. Two subsets of one face often share a name, so fonts are told
apart by `key` alone: two descriptions with the same key are the same font.

Bold and italic are judged from the name; which kind of font program there is decides whether the
font table takes the font at all.
-/

namespace Folio

/-- The box that holds every glyph of a font, in thousandths of the font size. -/
structure FontBox (α : Type) where
  left : α
  bottom : α
  right : α
  top : α
  deriving DecidableEq, Repr

/-- A font of a document. Heights are in thousandths of the font size. -/
structure Font (α : Type) where
  key : Nat
  name : Text
  baseFont : Option Text
  subtype : Option Text
  descendantSubtype : Option Text
  fontFile : Option Text
  ascent : α
  descent : α
  capHeight : α
  box : Option (FontBox α)
  flags : Int

namespace Font

/-- The kinds of font programs a page can refer to, and the rest. -/
inductive Kind
  | trueType
  | cidTrueType
  | type1c
  | unsupported
  deriving DecidableEq, Repr

namespace Kind

def text : Kind → Text
  | trueType => Text.lit "truetype"
  | cidTrueType => Text.lit "cid-truetype"
  | type1c => Text.lit "type1c"
  | unsupported => Text.lit "unsupported"

end Kind

variable {α : Type}

/-- A name without the slash that marks it as one. -/
def bare (name : Text) : Text := Text.dropOne (CodePoint.ofChar '/') name

/-- The kind of the font's program. -/
def kind (font : Font α) : Kind :=
  let subtype := font.subtype.map bare
  if subtype = some (Text.lit "TrueType") then .trueType
  else if subtype = some (Text.lit "Type0") then
    if font.descendantSubtype.map bare = some (Text.lit "CIDFontType2") then .cidTrueType
    else .unsupported
  else if subtype = some (Text.lit "Type1")
      ∧ font.fontFile.map bare = some (Text.lit "FontFile3") then .type1c
  else .unsupported

/-- The first of the texts that is not empty, and the last one for none. -/
def firstNonempty : List Text → Text
  | [] => []
  | [t] => t
  | t :: rest => if t.isEmpty then firstNonempty rest else t

/-- The name the font goes by: its base name, or else the name it has as a resource. -/
def title (font : Font α) : Text := firstNonempty [font.baseFont.getD [], font.name]

/-- Whether the font's name holds a word, whatever its capitals. -/
def namedFor (font : Font α) (word : String) : Bool :=
  Text.mentions (Text.lit word) (Text.lower font.title)

/-- Whether the font is bold, going by its name. -/
def isBold (font : Font α) : Bool := font.namedFor "bold"

/-- Whether the font is italic, going by its name. -/
def isItalic (font : Font α) : Bool := font.namedFor "italic"

/-- The six capitals and the plus sign that mark a subset of a face. -/
def hasSubsetTag (name : Text) : Bool :=
  (name.take 6).length == 6 && (name.take 6).all CodePoint.isAsciiUpper
    && name[6]? == some (CodePoint.ofChar '+')

/-- The name without a subset's tag. -/
def withoutSubsetTag (name : Text) : Text := if hasSubsetTag name then name.drop 7 else name

/-- The code points that a family label keeps. -/
def isLabelPart (c : CodePoint) : Bool :=
  c.isAsciiUpper || c.isAsciiLower || c.isAsciiDigit || c = CodePoint.ofChar '_'
    || c = CodePoint.ofChar '-'

/-- Every run of code points that no label keeps becomes one underscore. `inRun` tells whether such
a run is being passed. -/
def replaceRuns : Bool → Text → Text
  | _, [] => []
  | inRun, c :: rest =>
    if isLabelPart c then c :: replaceRuns false rest
    else if inRun then replaceRuns true rest
    else CodePoint.ofChar '_' :: replaceRuns true rest

/-- The label that the font's name suggests for its family. -/
def label (font : Font α) : Text :=
  let raw := firstNonempty [(font.baseFont.map bare).getD [], bare font.name, Text.lit "font"]
  let kept := Text.trimWhile (· = CodePoint.ofChar '_') (replaceRuns false (withoutSubsetTag raw))
  firstNonempty [kept, Text.lit "font"]

end Font

end Folio
