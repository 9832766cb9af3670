import Folio.Decimal.Exact

/-!
# Decimals with fixed places

A value rounded to a number of decimal places, a tie going to the even neighbour. `fixed` writes
all the places; `thousandths` writes a length, three places at most and none without need, and
zero without a sign.
-/

namespace Folio.Decimal

/-- The last `places` decimal digits of `n`, the leading one first. -/
def lastDigits (n : Nat) : Nat → List Nat
  | 0 => []
  | places + 1 => lastDigits (n / 10) places ++ [n % 10]

/-- The texts of what is no finite number. -/
def infinityText (negative : Bool) : Text := Text.lit (if negative then "-inf" else "inf")

/-- The text of an undefined number. -/
def undefinedText : Text := Text.lit "nan"

/-- The minus sign of negative values. -/
def sign (negative : Bool) : Text := if negative then Text.lit "-" else []

/-- The digits without the zeros at their end. -/
def trimZeros (digits : List Nat) : List Nat := (digits.reverse.dropWhile (· == 0)).reverse

/-- A fraction's digits after the point; no digits, no point. -/
def fraction (digits : List Nat) : Text :=
  if digits.isEmpty then [] else Text.lit "." ++ digits.map Text.ofDigit

/-- The value with exactly `places` decimals; a negative one that rounds to zero keeps its sign. -/
def fixed (places : Nat) : Exact → Text
  | .finite negative num den _ =>
    let n := Exact.roundHalfEven (num * Nat.pow 10 places) den
    sign negative ++ Text.ofNat (n / Nat.pow 10 places) ++ fraction (lastDigits n places)
  | .infinite negative => infinityText negative
  | .undefined => undefinedText

/-- The value to the nearest thousandth, without needless zeros. -/
def thousandths : Exact → Text
  | .finite negative num den _ =>
    let n := Exact.roundHalfEven (num * 1000) den
    sign (negative && n != 0) ++ Text.ofNat (n / 1000) ++ fraction (trimZeros (lastDigits n 3))
  | .infinite negative => infinityText negative
  | .undefined => undefinedText

end Folio.Decimal
