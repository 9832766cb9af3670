import Folio.Fault

/-!
# Exact values

A coordinate is read as what it exactly is: a signed quotient of two natural numbers, an infinity,
or no number at all. Rounding, truncation and every printed digit are decided on this value, never
on an approximation. `roundHalfEven` is the only rounding rule here.
-/

namespace Folio

/-- The exact value of a coordinate. -/
inductive Exact
  /-- The value of that sign and magnitude; zero has both signs. -/
  | finite (negative : Bool) (num den : Nat) (den_pos : 0 < den)
  /-- An infinity. -/
  | infinite (negative : Bool)
  /-- No number. -/
  | undefined
  deriving DecidableEq

namespace Exact

/-- The nearest whole number to `num / den`; of two, the even one. -/
def roundHalfEven (num den : Nat) : Nat :=
  let whole := num / den
  let rest := num % den
  if 2 * rest < den then whole
  else if den < 2 * rest then whole + 1
  else whole + whole % 2

/-- Two to an integer power, times `m`. -/
def ofScaled (negative : Bool) (m : Nat) (exponent : Int) : Exact :=
  if exponent < 0 then finite negative m (Nat.pow 2 (-exponent).toNat) (Nat.pow_pos (by decide))
  else finite negative (m * Nat.pow 2 exponent.toNat) 1 (by decide)

/-- The value of a whole number. -/
def ofInt (n : Int) : Exact := finite (n < 0) n.natAbs 1 (by decide)

/-- The part before the point; what is no finite number has none. -/
def truncate : Exact → Except Fault Int
  | finite negative num den _ =>
    .ok (if negative then -((num / den : Nat) : Int) else ((num / den : Nat) : Int))
  | infinite _ => .error .infiniteWhole
  | undefined => .error .undefinedWhole

/-- Whether one value is below another. An undefined one is neither below nor above any. -/
def below : Exact → Exact → Bool
  | undefined, _ | _, undefined => false
  | infinite negative, infinite negative' => negative && !negative'
  | infinite negative, finite .. => negative
  | finite .., infinite negative => !negative
  | finite negative num den _, finite negative' num' den' _ =>
    let signed (negative : Bool) (n : Nat) : Int := if negative then -n else n
    signed negative (num * den') < signed negative' (num' * den)

/-- Whether the value is at most a whole number. -/
def isAtMost (x : Exact) (n : Int) : Bool := x != undefined && !(ofInt n).below x

/-- Whether the value is more than a whole number. -/
def exceeds (x : Exact) (n : Int) : Bool := (ofInt n).below x

end Exact

end Folio
