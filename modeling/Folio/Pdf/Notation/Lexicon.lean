import Folio.Font.Lexicon
import Folio.Text.Codec

/-!
# Encodings and glyphs of the notation

The few encodings and glyph names that fonts of documents in JSON use.
-/

namespace Folio.Pdf.Notation

/-- The code points of 0x80 to 0x9F in Windows-1252; zero stands for none. -/
def windows1252 : Array Nat := #[
  0x20AC, 0, 0x201A, 0x0192, 0x201E, 0x2026, 0x2020, 0x2021, 0x02C6, 0x2030, 0x0160, 0x2039, 0x0152,
  0, 0x017D, 0, 0, 0x2018, 0x2019, 0x201C, 0x201D, 0x2022, 0x2013, 0x2014, 0x02DC, 0x2122, 0x0161,
  0x203A, 0x0153, 0, 0x017E, 0x0178]

/-- The name that an encoding is looked up by: its letters, digits and points, with an underscore for
whatever stands between them. -/
def lookupName (encoding : Text) : Text :=
  let isPart (c : CodePoint) : Bool :=
    c.isAsciiDigit || c.isAsciiUpper || c.isAsciiLower || c = CodePoint.ofChar '.'
  let add : Text × Bool → CodePoint → Text × Bool := fun (name, apart) c =>
    if !isPart c then (name, true)
    else if apart && !name.isEmpty then (name ++ [CodePoint.ofChar '_', c.asciiLower], false)
    else (name ++ [c.asciiLower], false)
  (encoding.foldl add ([], false)).1

/-- One byte in the encoding that is looked up; nothing where the encoding has no single byte of that
value, or is not known. -/
def ofByte? (name : Text) (byte : UInt8) : Option CodePoint :=
  let n := byte.toNat
  let is (s : String) : Bool := name = Text.lit s
  if is "latin_1" || is "charmap" then some (CodePoint.ofNat n)
  else if is "ascii" || is "utf_8" then if n < 0x80 then some (CodePoint.ofNat n) else none
  else if is "cp1252" then
    if n < 0x80 ∨ 0xA0 ≤ n then some (CodePoint.ofNat n)
    else match windows1252.getD (n - 0x80) 0 with
      | 0 => none
      | c => some (CodePoint.ofNat c)
  else none

/-- One byte in an encoding. The encoding `undefined` is there to fail, and a name with a surrogate
or a null character cannot be looked up. -/
def decode (encoding : Text) (byte : UInt8) : Except Fault (Option Text) :=
  if encoding.any CodePoint.isSurrogate then .error (.unencodable encoding)
  else if encoding.any (·.val = 0) then .error (.badValue (Text.lit "embedded null character"))
  else
    let name := lookupName encoding
    if name = Text.lit "undefined" then .error (.badValue (Text.lit "undefined encoding"))
    else .ok ((ofByte? name byte).map ([·]))

/-- Names of glyphs with their characters. -/
def glyphNames : List (String × Nat) := [
  ("/A", 0x41), ("/space", 0x20), ("/exclam", 0x21), ("/question", 0x3F), ("/semicolon", 0x3B),
  ("/less", 0x3C), ("/ampersand", 0x26), ("/quotedblleft", 0x201C), ("/quotedblright", 0x201D),
  ("/eacute", 0xE9), ("/fi", 0xFB01), ("/Euro", 0x20AC), ("/bullet", 0x2022), ("/nbspace", 0xA0)]

def lexicon : Lexicon where
  decode := decode
  glyph? name := (glyphNames.find? fun g => Text.lit g.1 = name).map fun g => [CodePoint.ofNat g.2]

end Folio.Pdf.Notation
