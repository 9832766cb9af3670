import Folio.Decimal.Shortest

/-!
# Decimals of significant digits

A value rounded to a number of significant digits, a tie going to the even neighbour, without
needless zeros. Small and large values take an exponent; zero has no sign.
-/

namespace Folio.Decimal.Significant

/-- `num / den` in units of `10 ^ place`, rounded. -/
def inUnits (num den : Nat) (place : Int) : Nat :=
  if place < 0 then Exact.roundHalfEven (num * Nat.pow 10 (-place).toNat) den
  else Exact.roundHalfEven num (den * Nat.pow 10 place.toNat)

/-- The decimal of `count` digits nearest to the positive `num / den`. -/
def decimal (count num den : Nat) : Shortest.Digits :=
  let point := Shortest.pointOf num den
  let n := inUnits num den (point - count)
  -- Rounding up may carry into one more digit.
  let point := if n = Nat.pow 10 count then point + 1 else point
  { digits := trimZeros (Text.digits n), point := point }

/-- The digits laid out without an exponent, and without a point if none follow it. -/
def positional (d : Shortest.Digits) : Text :=
  let shown := Shortest.positional d
  if (d.digits.length : Int) ≤ d.point then shown.take (shown.length - 2) else shown

/-- The value with at most `count` digits. It is positional from `1e-4` up to below
`10 ^ count`. -/
def text (count : Nat) : Exact → Text
  | .infinite negative => infinityText negative
  | .undefined => undefinedText
  | .finite negative num den _ =>
    if num = 0 then Text.lit "0"
    else
      let d := decimal count num den
      sign negative ++
        (if -4 < d.point ∧ d.point ≤ count then positional d else Shortest.scientific d)

end Folio.Decimal.Significant
