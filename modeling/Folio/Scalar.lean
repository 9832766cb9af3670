import Folio.Decimal.Numeral
import Folio.Decimal.Shortest

/-!
# Coordinates

What layout needs of a number. All geometry is written over `Scalar`, so that it runs on
double-precision numbers and can be reasoned about over exact ones. An order comparison may be
false both ways, as it is for an undefined number; `lesser` and `greater` therefore say which
operand they keep.
-/

namespace Folio

/-- A type of coordinates. -/
class Scalar (α : Type) extends Zero α, One α, Add α, Sub α, Mul α, Div α, Neg α, LT α, LE α,
    BEq α where
  /-- The coordinate of a natural number. -/
  ofNat : Nat → α
  /-- Whether one coordinate is below another. -/
  decLt : DecidableRel (α := α) (· < ·)
  /-- Whether one coordinate is at most another. -/
  decLe : DecidableRel (α := α) (· ≤ ·)
  /-- The magnitude of a coordinate. -/
  abs : α → α
  /-- The length of a vector. -/
  hypot : α → α → α
  /-- The square root of a coordinate that is not negative. -/
  sqrt : α → α
  /-- The direction of the vector `(x, y)`, given as `direction y x`, in degrees. -/
  direction : α → α → α
  /-- The exact value. -/
  exact : α → Exact
  /-- The coordinate of a whole number, if it is in range. -/
  ofInt? : Int → Option α
  /-- The coordinate nearest to a numeral. -/
  ofNumeral : Decimal.Numeral → α
  /-- A text that reads back as the coordinate. -/
  text : α → Text

namespace Scalar

variable {α : Type} [Scalar α]

instance : DecidableRel (α := α) (· < ·) := Scalar.decLt

instance : DecidableRel (α := α) (· ≤ ·) := Scalar.decLe

/-- The first operand unless the second is strictly smaller. -/
def lesser (a b : α) : α := if b < a then b else a

/-- The first operand unless the second is strictly greater. -/
def greater (a b : α) : α := if a < b then b else a

/-- A fraction of two natural numbers. -/
def ratio (num den : Nat) : α := ofNat num / ofNat den

/-- A number of thousandths, as fonts measure. -/
def perMille (a : α) : α := a / ofNat 1000

def half (a : α) : α := a / ofNat 2

/-- The coordinate of a whole number; one beyond all coordinates is refused. -/
def ofWhole (n : Int) : Except Fault α :=
  match ofInt? n with
  | some x => .ok x
  | none => .error .wholeTooLarge

/-- The coordinate in text, to the nearest thousandth. -/
def thousandths (a : α) : Text := Decimal.thousandths (exact a)

/-- The part of a coordinate before the point. -/
def truncate (a : α) : Except Fault Int := (exact a).truncate

/-- Whether the coordinate is below infinity; an undefined one is not. -/
def isBelowInfinity (a : α) : Bool :=
  match exact a with
  | .finite .. => true
  | .infinite negative => negative
  | .undefined => false

end Scalar

instance : Scalar Float where
  zero := 0.0
  one := 1.0
  ofNat := Float.ofNat
  decLt a b := Float.decLt a b
  decLe a b := Float.decLe a b
  abs := Float.abs
  hypot := Binary64.hypot
  sqrt := Float.sqrt
  direction y x := Float.atan2 y x * (180.0 / 3.141592653589793)
  exact := Binary64.exact
  ofInt? := Binary64.ofInt?
  ofNumeral := Decimal.Numeral.nearest
  text := Decimal.Shortest.text

end Folio
