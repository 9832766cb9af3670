import Folio.Decimal.Binary64
import Folio.Decimal.Places

/-!
# The shortest decimal that reads back

Among the decimals that round to a number, `digits` finds the fewest digits and, of those, the
nearest. It looks at the two neighbours of the value on the grid of one digit, two digits, and so
on up to seventeen, which always suffice. `text` lays the digits out: positional from `1e-4` up to
below `1e16`, with an exponent outside.
-/

namespace Folio.Decimal.Shortest

/-- A positive decimal `0.d₁d₂… * 10 ^ point`. -/
structure Digits where
  digits : List Nat
  point : Int
  deriving Repr

/-- The interval of reals that round to a number, on a grid of a quarter of its last place. -/
structure Interval where
  low : Nat
  value : Nat
  high : Nat
  closed : Bool

/-- The interval of `m * 2 ^ q`, in units of `2 ^ (q - 2)`. -/
def interval (p : Binary64.Parts) : Interval :=
  let m := p.mantissa
  let narrow := m = Nat.pow 2 52 ∧ -1074 < p.exponent
  { low := 4 * m - (if narrow then 1 else 2), value := 4 * m, high := 4 * m + 2,
    closed := m % 2 = 0 }

/-- Whether `n` steps of `step / den` lie in the interval, all over the same denominator. -/
def Interval.holds (i : Interval) (n : Nat) : Bool :=
  if i.closed then i.low ≤ n && n ≤ i.high else i.low < n && n < i.high

/-- Whether `num / den` is at least `10 ^ e`. -/
def atLeast (num den : Nat) (e : Int) : Bool :=
  if e < 0 then den ≤ num * Nat.pow 10 (-e).toNat else den * Nat.pow 10 e.toNat ≤ num

/-- The decimal point of `num / den`: the `e` with `10 ^ (e - 1) ≤ num / den < 10 ^ e`. It is found
among the neighbours of what the binary logarithms promise. -/
def pointOf (num den : Nat) : Int :=
  let estimate := (((Nat.log2 num : Int) - Nat.log2 den) * 30103) / 100000
  let candidates := [estimate + 2, estimate + 1, estimate, estimate - 1]
  (candidates.find? fun e => atLeast num den (e - 1)).getD estimate

/-- The decimal of `count` digits that reads back as the number, if there is one. -/
def ofCount? (p : Binary64.Parts) (point : Int) (count : Nat) : Option Digits :=
  let i := interval p
  let exponent := p.exponent - 2
  -- Everything over one denominator: a step of the grid is `step`, a unit of the interval `unit`.
  let place := point - count
  let step := Nat.pow 10 place.toNat * Nat.pow 2 (-exponent).toNat
  let unit := Nat.pow 2 exponent.toNat * Nat.pow 10 (-place).toNat
  let scaled : Interval :=
    { low := i.low * unit, value := i.value * unit, high := i.high * unit, closed := i.closed }
  let below := scaled.value / step
  let above := below + 1
  let gapBelow := scaled.value - below * step
  let gapAbove := above * step - scaled.value
  let fits (n : Nat) : Bool := scaled.holds (n * step)
  let pick :=
    match fits below, fits above with
    | true, true =>
      some (if gapBelow < gapAbove then below
        else if gapAbove < gapBelow then above
        else below + below % 2)
    | true, false => some below
    | false, true => some above
    | false, false => none
  pick.map fun n =>
    let ds := Text.digits n
    { digits := ds, point := point + (ds.length - count : Nat) }

/-- The shortest decimal of a positive number. -/
def decimal (p : Binary64.Parts) : Digits :=
  let point :=
    if p.exponent < 0 then pointOf p.mantissa (Nat.pow 2 (-p.exponent).toNat)
    else pointOf (p.mantissa * Nat.pow 2 p.exponent.toNat) 1
  ((List.range 17).findSome? fun k => ofCount? p point (k + 1)).getD ⟨[0], 1⟩

/-- The digits laid out without an exponent. -/
def positional (d : Digits) : Text :=
  let ds := trimZeros d.digits
  if d.point ≤ 0 then
    Text.lit "0." ++ Text.replicate (-d.point).toNat (Text.lit "0") ++ ds.map Text.ofDigit
  else
    let n := d.point.toNat
    let whole := ds.take n ++ List.replicate (n - ds.length) 0
    let rest := ds.drop n
    whole.map Text.ofDigit ++ Text.lit "." ++ (if rest.isEmpty then [0] else rest).map Text.ofDigit

/-- The digits laid out with an exponent of at least two digits. -/
def scientific (d : Digits) : Text :=
  let ds := trimZeros d.digits
  let e := d.point - 1
  let size := Text.ofNat e.natAbs
  (ds.take 1).map Text.ofDigit ++ fraction (ds.drop 1)
    ++ Text.lit (if e < 0 then "e-" else "e+")
    ++ (if size.length < 2 then Text.lit "0" else []) ++ size

/-- The shortest text that reads back as the number. -/
def text (x : Float) : Text :=
  match Binary64.parts? x with
  | none =>
    match Binary64.exact x with
    | .infinite negative => infinityText negative
    | _ => undefinedText
  | some p =>
    let sign := sign (Binary64.isNegative x)
    if p.mantissa = 0 then sign ++ Text.lit "0.0"
    else
      let d := decimal p
      sign ++ (if -4 < d.point ∧ d.point ≤ 16 then positional d else scientific d)

end Folio.Decimal.Shortest
