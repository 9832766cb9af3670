import Folio.Font.Basic
import Folio.Pdf.Widths
import Folio.Text.Codec
import Folio.Text.Printable

/-!
# Decoding shown strings

A font splits a shown string into codes of one or two bytes. Each code has a text and a width: the
text comes from the font's map, or from its table, or is the code itself if that can be shown. The
encoding that the table names may be one that fails; then the code has no text at all.
-/

namespace Folio.Pdf

/-- A code of a shown string. Its width is in thousandths of the font size. -/
structure ShownCode (α : Type) where
  code : Bytes
  text : Text
  width : α

/-- How a font turns bytes into text. -/
structure Decoder (α : Type) where
  /-- Whether codes have two bytes. -/
  isWide : Bool
  texts : List (Text × Text)
  table : CodeTable α
  lexicon : Lexicon
  widths : List (WidthRun α)
  defaultWidth : α
  /-- The height of a glyph of size one. -/
  heightRatio : α

namespace Decoder

variable {α : Type} [Scalar α]

def codeLength (decoder : Decoder α) : Nat := if decoder.isWide then 2 else 1

/-- The number that the bytes of a code write. -/
def codeNumber (code : Bytes) : Nat := code.foldl (fun n b => n * 256 + b.toNat) 0

def width (decoder : Decoder α) (code : Bytes) : α :=
  (WidthRun.lookup? decoder.widths (codeNumber code)).getD decoder.defaultWidth

/-- The code as text, a wide one as one unit of UTF-16. -/
def ownText (code : Bytes) : Text :=
  match code with
  | [a, b] => [CodePoint.ofNat (a.toNat * 256 + b.toNat)]
  | _ => Text.ofLatin1 code

/-- The text that the map gives a code. -/
def mapped? (decoder : Decoder α) (code : Bytes) : Option Text :=
  match decoder.texts.lookup (ownText code) with
  | some t => some t
  | none => if code.length = 2 then decoder.texts.lookup (Text.ofLatin1 code) else none

/-- The text that the table gives a code of one byte. -/
def tabled? (decoder : Decoder α) (code : Bytes) : Except Fault (Option Text) :=
  match code with
  | [byte] =>
    match decoder.table with
    | .none => .ok none
    | .encoding name => decoder.lexicon.decode name byte
    | .glyphs names =>
      match names.lookup (byte.toNat : Int) with
      | some (.text glyph _) => .ok (some (decoder.lexicon.textOfGlyph glyph))
      | _ => .ok none
  | _ => .ok none

def text (decoder : Decoder α) (code : Bytes) : Except Fault Text :=
  match decoder.mapped? code with
  | some t => .ok t
  | none => (decoder.tabled? code).map fun tabled =>
    tabled.getD ((ownText code).filter CodePoint.isPrintable)

/-- A code with its text and width. -/
def shown (decoder : Decoder α) (code : Bytes) : Except Fault (ShownCode α) :=
  (decoder.text code).map fun t => ⟨code, t, decoder.width code⟩

/-- The codes of a string; a byte that is left over at the end is none. -/
def split (decoder : Decoder α) : Bytes → List Bytes
  | [] => []
  | a :: rest =>
    if decoder.isWide then
      match rest with
      | [] => []
      | b :: more => [a, b] :: decoder.split more
    else [a] :: decoder.split rest

/-- The text that a value in a font's map gives. -/
def mapText (graph : Graph α) (value : Object α) : Except Fault Text :=
  match value with
  | .bytes b => .ok ((Text.ofUtf16? b).getD (Text.ofLatin1 b))
  | o => graph.text o

/-- The map of a font, in plain texts. -/
def mapTexts (graph : Graph α) (codes : Option (CodeMap α)) :
    Except Fault (List (Text × Text)) :=
  ((codes.map (·.texts)).getD []).mapM fun (key, value) => do return (key, ← mapText graph value)

/-- The height of a glyph of size one: by the font's capitals, its ascent or its box, or seven
tenths. -/
def ratio (font : Font α) : α :=
  let height :=
    if font.capHeight != 0 then font.capHeight
    else if font.ascent != 0 then font.ascent
    else match font.box with
      | some box => box.top
      | none => 0
  if 0 < height then Scalar.perMille height else Scalar.ratio 7 10

/-- The width of the codes that a simple font lists no width for. -/
def missingWidth (graph : Graph α) (font : Nat) : Except Fault α := do
  let missing ←
    match graph.node? (graph.entry font "/FontDescriptor") with
    | some descriptor => graph.numberOr 0 (graph.entry descriptor "/MissingWidth")
    | none => pure 0
  return if missing == 0 then Scalar.ofNat 500 else missing

/-- The decoder of a font, given its node and that of its descendant. -/
def ofFont (graph : Graph α) (font : Nat) (descendant : Option Nat) (resource : Font α) :
    Except Fault (Decoder α) := do
  let codes := (graph.nodes[font]?).bind (·.codes)
  let texts ← mapTexts graph codes
  let (widths, defaultWidth) ←
    match descendant with
    | some d => do
      let widths ← WidthRun.ofDescendant graph d
      pure (widths, ← graph.numberOr (Scalar.ofNat 1000) (graph.entry d "/DW"))
    | none => do
      let widths ← WidthRun.ofSimple graph font
      pure (widths, ← missingWidth graph font)
  return {
    isWide := descendant.isSome
    texts := texts
    table := (codes.map (·.table)).getD .none
    lexicon := graph.lexicon
    widths := widths
    defaultWidth := defaultWidth
    heightRatio := ratio resource }

end Decoder

end Folio.Pdf
