import Folio.Decimal.Exact

/-!
# Binary64 numbers and their exact values

A double-precision number is `m * 2 ^ q`. This module takes one apart into that form and finds the
number nearest to a quotient, ties going to the even neighbour, so that values computed exactly
come back with a single rounding.
-/

namespace Folio.Binary64

/-- A magnitude `mantissa * 2 ^ exponent`. -/
structure Parts where
  mantissa : Nat
  exponent : Int
  deriving Repr

/-- Whether the sign bit is set. -/
def isNegative (x : Float) : Bool := Nat.pow 2 63 ≤ x.toBits.toNat

/-- The magnitude of a finite number. -/
def parts? (x : Float) : Option Parts :=
  let bits : Nat := x.toBits.toNat
  let biased : Nat := bits / Nat.pow 2 52 % Nat.pow 2 11
  let field : Nat := bits % Nat.pow 2 52
  if biased = 2047 then none
  else if biased = 0 then some ⟨field, -1074⟩
  else some ⟨field + Nat.pow 2 52, (biased : Int) - 1075⟩

/-- The exact value of a number. -/
def exact (x : Float) : Exact :=
  match parts? x with
  | some p => Exact.ofScaled (isNegative x) p.mantissa p.exponent
  | none => if x.toBits.toNat % Nat.pow 2 52 = 0 then .infinite (isNegative x) else .undefined

/-- The bit pattern of infinity, the first that stands for no finite number. -/
def infinityBits : Nat := 2047 * Nat.pow 2 52

/-- The magnitude bits of the number nearest to `num / den`. -/
def nearestBits (num den : Nat) : Nat :=
  if num = 0 then 0
  else
    -- `exponent` makes the quotient fall between `2 ^ 52` and `2 ^ 54`.
    let estimate : Int := (Nat.log2 num : Int) - Nat.log2 den - 53
    let exponent := max estimate (-1074)
    let scaled (e : Int) : Nat × Nat :=
      if e < 0 then (num * Nat.pow 2 (-e).toNat, den) else (num, den * Nat.pow 2 e.toNat)
    let wide := scaled exponent
    let exponent := if Nat.pow 2 53 ≤ wide.1 / wide.2 then exponent + 1 else exponent
    let narrow := scaled exponent
    let mantissa := Exact.roundHalfEven narrow.1 narrow.2
    min ((exponent + 1074).toNat * Nat.pow 2 52 + mantissa) infinityBits

/-- The number nearest to `num / den` with that sign; beyond the largest it is infinite. -/
def nearest (negative : Bool) (num den : Nat) : Float :=
  Float.ofBits (UInt64.ofNat (nearestBits num den + if negative then Nat.pow 2 63 else 0))

/-- The number nearest to a whole one, if it is finite. -/
def ofInt? (n : Int) : Option Float :=
  if nearestBits n.natAbs 1 < infinityBits then some (nearest (n < 0) n.natAbs 1) else none

/-- The number nearest to the length of the vector `(x, y)`. -/
def hypot (x y : Float) : Float :=
  match parts? x, parts? y with
  | some p, some q =>
    let low := min p.exponent q.exponent
    let a := p.mantissa * Nat.pow 2 (p.exponent - low).toNat
    let b := q.mantissa * Nat.pow 2 (q.exponent - low).toNat
    let square := a * a + b * b
    -- Enough digits of the root that only an exact one can fall on a tie.
    let shift := 64 - Nat.log2 square / 2
    let root := Nat.sqrt (square * Nat.pow 4 shift)
    let sticky := if root * root = square * Nat.pow 4 shift then 0 else 1
    let num := 2 * root + sticky
    let scale := low - shift - 1
    if scale < 0 then nearest false num (Nat.pow 2 (-scale).toNat)
    else nearest false (num * Nat.pow 2 scale.toNat) 1
  | _, _ =>
    if x.isInf || y.isInf then 1.0 / 0.0 else 0.0 / 0.0

end Folio.Binary64
