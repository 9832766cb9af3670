import Folio.Scalar
import Mathlib

/-!
# Exact coordinates

The rational numbers as coordinates: every sum, product, quotient and comparison is exact, and there
are no infinities. A root that is not rational is rounded down, and a direction is that of an axis.
-/

namespace Folio

/-- The direction of the axis that a vector lies along, in degrees; zero off the axes. -/
def Scalar.axisDirection (y x : ℚ) : ℚ :=
  if y = 0 then (if x < 0 then 180 else 0)
  else if x = 0 then (if y < 0 then -90 else 90)
  else 0

/-- The exact value of a rational number. -/
def Scalar.exactOfRat (q : ℚ) : Exact := .finite (decide (q < 0)) q.num.natAbs q.den q.pos

/-- The number that a numeral writes; what writes no finite number counts as zero. -/
def Scalar.ratOfNumeral : Decimal.Numeral → ℚ
  | .decimal negative mantissa exponent =>
    (if negative then -1 else 1) * mantissa * (10 : ℚ) ^ exponent
  | _ => 0

instance : Scalar ℚ where
  ofNat n := n
  decLt := inferInstance
  decLe := inferInstance
  abs x := |x|
  hypot x y := Rat.sqrt (x * x + y * y)
  sqrt := Rat.sqrt
  direction := Scalar.axisDirection
  exact := Scalar.exactOfRat
  ofInt? n := some n
  ofNumeral := Scalar.ratOfNumeral
  text q := Decimal.thousandths (Scalar.exactOfRat q)

namespace Scalar

theorem greater_eq_max (a b : ℚ) : greater a b = max a b := by
  unfold greater
  split
  next h => exact (max_eq_right h.le).symm
  next h => exact (max_eq_left (not_lt.mp h)).symm

theorem lesser_eq_min (a b : ℚ) : lesser a b = min a b := by
  unfold lesser
  split
  next h => exact (min_eq_right h.le).symm
  next h => exact (min_eq_left (not_lt.mp h)).symm

end Scalar

end Folio
