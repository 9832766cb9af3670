import Folio.Bytes

/-!
# Byte encodings

Reading bytes as text: UTF-8, UTF-16 with surrogates let through, and Latin-1. `latin1` goes the other
way, with a question mark for what Latin-1 lacks.
-/

namespace Folio.Text

/-- The text that bytes write in UTF-8. -/
def ofUtf8? (bytes : Bytes) : Option Text := (String.fromUTF8? ⟨bytes.toArray⟩).map lit

/-- A code point of which some bytes of its UTF-8 form have been read. -/
structure Utf8Part where
  /-- How many bytes there are to come. -/
  missing : Nat
  /-- The bits so far. -/
  value : Nat
  /-- The least and the greatest value of the next byte. -/
  least : Nat := 0x80
  greatest : Nat := 0xBF

/-- What stands for bytes that are no UTF-8. -/
def replacement : CodePoint := CodePoint.ofNat 0xFFFD

/-- The first byte of a code point, as far as it goes. The form has to be the shortest and that of
no surrogate, which the byte after it shows. -/
def startUtf8 (b : Nat) : Text × Option Utf8Part :=
  if b < 0x80 then ([CodePoint.ofNat b], none)
  else if b < 0xC2 ∨ 0xF4 < b then ([replacement], none)
  else if b < 0xE0 then ([], some { missing := 1, value := b - 0xC0 })
  else if b = 0xE0 then ([], some { missing := 2, value := 0, least := 0xA0 })
  else if b = 0xED then ([], some { missing := 2, value := 0xD, greatest := 0x9F })
  else if b < 0xF0 then ([], some { missing := 2, value := b - 0xE0 })
  else if b = 0xF0 then ([], some { missing := 3, value := 0, least := 0x90 })
  else if b = 0xF4 then ([], some { missing := 3, value := 4, greatest := 0x8F })
  else ([], some { missing := 3, value := b - 0xF0 })

/-- One byte more. A code point that it cannot go on with is replaced, and the byte starts the
next. -/
def stepUtf8 (part : Option Utf8Part) (b : Nat) : Text × Option Utf8Part :=
  match part with
  | none => startUtf8 b
  | some p =>
    if p.least ≤ b ∧ b ≤ p.greatest then
      let value := 64 * p.value + (b - 0x80)
      if p.missing ≤ 1 then ([CodePoint.ofNat value], none)
      else ([], some { missing := p.missing - 1, value := value })
    else
      let (t, next) := startUtf8 b
      (replacement :: t, next)

/-- The text of bytes in UTF-8 behind a part of a code point. -/
def ofUtf8From (part : Option Utf8Part) : Bytes → Text
  | [] => if part.isSome then [replacement] else []
  | b :: rest =>
    let (t, next) := stepUtf8 part b.toNat
    t ++ ofUtf8From next rest

/-- The text of bytes in UTF-8, with a replacement for every part that is none. -/
def ofUtf8 (bytes : Bytes) : Text := ofUtf8From none bytes

/-- Bytes as Latin-1, one code point a byte. -/
def ofLatin1 (bytes : Bytes) : Text := bytes.map fun b => CodePoint.ofNat b.toNat

def latin1 (t : Text) : Bytes := t.map fun c => UInt8.ofNat (if c.val < 0x100 then c.val else 0x3F)

/-- Pairs of bytes as code units, the larger part first; nothing for an odd number of bytes. -/
def units? : Bytes → Option (List Nat)
  | [] => some []
  | a :: b :: rest => (units? rest).map fun units => (a.toNat * 256 + b.toNat) :: units
  | [_] => none

/-- Code units as code points; half a pair stands for itself. -/
def ofUnits : List Nat → Text
  | [] => []
  | [u] => [CodePoint.ofNat u]
  | u :: v :: rest =>
    if 0xD800 ≤ u ∧ u < 0xDC00 ∧ 0xDC00 ≤ v ∧ v < 0xE000 then
      CodePoint.ofNat (0x10000 + (u - 0xD800) * 0x400 + (v - 0xDC00)) :: ofUnits rest
    else CodePoint.ofNat u :: ofUnits (v :: rest)

/-- Bytes as UTF-16, the larger byte of each unit first. -/
def ofUtf16? (bytes : Bytes) : Option Text := (units? bytes).map ofUnits

end Folio.Text
