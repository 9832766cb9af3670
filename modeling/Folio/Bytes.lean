import Folio.Text.Basic

/-!
# Bytes

Byte strings, and the three texts of them that documents and pages use: hexadecimal digits, base 64
and the UTF-8 form of a text. A surrogate has no UTF-8 form.
-/

namespace Folio

/-- A byte string. -/
abbrev Bytes := List UInt8

namespace Bytes

/-- The bytes of an ASCII string constant. -/
def lit (s : String) : Bytes := s.toList.map fun c => UInt8.ofNat c.toNat

/-- The digit of a hexadecimal value. -/
def hexDigit (n : Nat) : CodePoint := CodePoint.ofNat (if n < 10 then 0x30 + n else 0x57 + n)

/-- Two hexadecimal digits a byte. -/
def hex (bytes : Bytes) : Text :=
  bytes.flatMap fun b => [hexDigit (b.toNat / 16), hexDigit (b.toNat % 16)]

/-- The four hexadecimal digits of a 16-bit unit. -/
def hexOfUnit (n : Nat) : Text :=
  [hexDigit (n / 4096 % 16), hexDigit (n / 256 % 16), hexDigit (n / 16 % 16), hexDigit (n % 16)]

/-- The value of a hexadecimal digit. -/
def hexValue? (c : CodePoint) : Option Nat :=
  if c.isAsciiDigit then some (c.val - 0x30)
  else if 0x61 ≤ c.val ∧ c.val ≤ 0x66 then some (c.val - 0x57)
  else if 0x41 ≤ c.val ∧ c.val ≤ 0x46 then some (c.val - 0x37)
  else none

/-- The bytes that hexadecimal digits write. -/
def ofHex? : Text → Option Bytes
  | [] => some []
  | a :: b :: rest =>
    match hexValue? a, hexValue? b, ofHex? rest with
    | some x, some y, some bytes => some (UInt8.ofNat (16 * x + y) :: bytes)
    | _, _, _ => none
  | [_] => none

/-- The digit of a base 64 value. -/
def base64Digit (n : Nat) : CodePoint :=
  CodePoint.ofNat <|
    if n < 26 then 0x41 + n
    else if n < 52 then 0x61 + (n - 26)
    else if n < 62 then 0x30 + (n - 52)
    else if n = 62 then 0x2B
    else 0x2F

/-- Four digits for three bytes, the last group filled up with `=`. -/
def base64 : Bytes → Text
  | [] => []
  | [a] =>
    let n := a.toNat * 16
    [base64Digit (n / 64), base64Digit (n % 64), '=', '=']
  | [a, b] =>
    let n := (a.toNat * 256 + b.toNat) * 4
    [base64Digit (n / 4096), base64Digit (n / 64 % 64), base64Digit (n % 64), '=']
  | a :: b :: c :: rest =>
    let n := a.toNat * 65536 + b.toNat * 256 + c.toNat
    base64Digit (n / 262144) :: base64Digit (n / 4096 % 64) :: base64Digit (n / 64 % 64)
      :: base64Digit (n % 64) :: base64 rest

end Bytes

namespace CodePoint

/-- The UTF-8 form of a code point that is no surrogate. -/
def utf8? (c : CodePoint) : Option Bytes :=
  let n := c.val
  let tail (shift : Nat) : UInt8 := UInt8.ofNat (0x80 + n / Nat.pow 2 shift % 64)
  if c.isSurrogate then none
  else if n < 0x80 then some [UInt8.ofNat n]
  else if n < 0x800 then some [UInt8.ofNat (0xC0 + n / 64), tail 0]
  else if n < 0x10000 then some [UInt8.ofNat (0xE0 + n / 4096), tail 6, tail 0]
  else some [UInt8.ofNat (0xF0 + n / 262144), tail 12, tail 6, tail 0]

end CodePoint

namespace Text

/-- The UTF-8 form of a text without surrogates. -/
def utf8? (t : Text) : Option Bytes := (t.mapM CodePoint.utf8?).map List.flatten

end Text

end Folio
