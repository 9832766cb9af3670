import Folio.Fault

/-!
# Lexicons

What is known by name when the codes of a font are read: encodings of single bytes, and glyphs. The
names are those that documents use, and which of them mean anything is up to whoever reads the
document.
-/

namespace Folio

/-- What encodings and glyphs mean. -/
structure Lexicon where
  /-- The text of a byte in an encoding. There is none where the encoding is not known or lacks the
  byte; whatever else is wrong with the encoding is a fault. -/
  decode : Text → UInt8 → Except Fault (Option Text) := fun _ _ => .ok none
  /-- The text of a glyph by its name, slash included. -/
  glyph? : Text → Option Text := fun _ => none

/-- The text of a glyph. A name without its slash is the text itself, and so is the name of a glyph
that is not known. -/
def Lexicon.textOfGlyph (lexicon : Lexicon) (name : Text) : Text :=
  match name with
  | slash :: first :: rest =>
    if slash = CodePoint.ofChar '/' then
      match lexicon.glyph? name with
      | none | some [] => first :: rest
      | some t => t
    else name
  | _ => name

end Folio
