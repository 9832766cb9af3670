import Folio.Bytes
import Folio.Text.Printable

/-!
# Quoted texts

How a text or a byte string looks inside a list that is written out: in single quotes, or in double
ones when it holds single quotes only, with everything that cannot be shown escaped.
-/

namespace Folio.Text

/-- The quote that surrounds a text. -/
def quoteFor (t : Text) : CodePoint :=
  let single := CodePoint.ofNat 0x27
  let double := CodePoint.ofNat 0x22
  if t.contains single && !(t.contains double) then double else single

/-- The last `places` hexadecimal digits of a number. -/
def hexDigits (n : Nat) : Nat → Text
  | 0 => []
  | places + 1 => hexDigits (n / 16) places ++ [Bytes.hexDigit (n % 16)]

/-- One code point inside the quotes; `shown` tells which can be shown. -/
def quoteOne (quote : CodePoint) (shown : CodePoint → Bool) (c : CodePoint) : Text :=
  if c = quote ∨ c.val = 0x5C then [CodePoint.ofNat 0x5C, c]
  else if c.val = 0x09 then lit "\\t"
  else if c.val = 0x0A then lit "\\n"
  else if c.val = 0x0D then lit "\\r"
  else if shown c then [c]
  else if c.val < 0x100 then lit "\\x" ++ hexDigits c.val 2
  else if c.val < 0x10000 then lit "\\u" ++ hexDigits c.val 4
  else lit "\\U" ++ hexDigits c.val 8

def quoted (t : Text) : Text :=
  let quote := quoteFor t
  [quote] ++ t.flatMap (quoteOne quote CodePoint.isPrintable) ++ [quote]

/-- Bytes in quotes, as ASCII. -/
def quotedBytes (bytes : Bytes) : Text :=
  let t := bytes.map fun b => CodePoint.ofNat b.toNat
  let quote := quoteFor t
  lit "b" ++ [quote] ++ t.flatMap (quoteOne quote fun c => 0x20 ≤ c.val && c.val < 0x7F) ++ [quote]

end Folio.Text
