import Folio.Bytes
import Folio.Decimal.Binary64
import Folio.Text.Blank
import Folio.Text.Digit

/-!
# Reading numbers

A numeral is an optional sign and either digits with an optional point and exponent, or one of the
words `inf`, `infinity` and `nan` in any case. Digits of every script count, an underscore may
stand between two digits, and blanks around the numeral are ignored.
-/

namespace Folio.Decimal

/-- What a numeral writes: a sign and `mantissa * 10 ^ exponent`, an infinity, or no number. -/
inductive Numeral
  | decimal (negative : Bool) (mantissa : Nat) (exponent : Int)
  | infinite (negative : Bool)
  | undefined
  deriving DecidableEq, Repr

namespace Numeral

/-- The blanks of ASCII that may stand around a numeral. -/
def isAsciiBlank (c : CodePoint) : Bool := (0x09 ≤ c.val && c.val ≤ 0x0D) || c.val == 0x20

/-- A code point as the ASCII one that means the same in a numeral; others stay. -/
def normalise (c : CodePoint) : CodePoint :=
  if c.val < 0x7F then c
  else if c.isBlank then CodePoint.ofChar ' '
  else match c.digit? with
    | some d => Text.ofDigit d
    | none => c

/-- Removes the underscores between digits; an underscore elsewhere makes the text no numeral.
`afterDigit` tells what stands before. -/
def dropUnderscores : Bool → Text → Option Text
  | _, [] => some []
  | afterDigit, c :: rest =>
    if c = CodePoint.ofChar '_' then
      match rest with
      | d :: _ => if afterDigit && d.isAsciiDigit then dropUnderscores false rest else none
      | [] => none
    else (dropUnderscores c.isAsciiDigit rest).map (c :: ·)

/-- The number that decimal digits write. -/
def valueOf (digits : Text) : Nat := digits.foldl (fun n d => 10 * n + (d.val - 0x30)) 0

/-- An optional sign in front: whether it is a minus, and what follows. -/
def splitSign : Text → Bool × Text
  | [] => (false, [])
  | c :: rest =>
    if c = CodePoint.ofChar '-' then (true, rest)
    else if c = CodePoint.ofChar '+' then (false, rest)
    else (false, c :: rest)

/-- An exponent part: its value, or none when something else stands there. -/
def exponent? : Text → Option Int
  | [] => some 0
  | c :: rest =>
    if c.asciiLower = CodePoint.ofChar 'e' then
      let (negative, digits) := splitSign rest
      if digits.isEmpty || !digits.all CodePoint.isAsciiDigit then none
      else some (if negative then -(valueOf digits : Int) else valueOf digits)
    else none

/-- An unsigned decimal with an optional point and exponent. -/
def unsigned? (negative : Bool) (t : Text) : Option Numeral :=
  let whole := t.takeWhile CodePoint.isAsciiDigit
  let rest := t.dropWhile CodePoint.isAsciiDigit
  let (fraction, rest) :=
    match rest with
    | c :: more =>
      if c = CodePoint.ofChar '.' then
        (more.takeWhile CodePoint.isAsciiDigit, more.dropWhile CodePoint.isAsciiDigit)
      else ([], rest)
    | [] => ([], [])
  if whole.isEmpty && fraction.isEmpty then none
  else
    (exponent? rest).map fun e =>
      .decimal negative (valueOf (whole ++ fraction)) (e - fraction.length)

/-- The numeral that ASCII text without blanks around it is. -/
def plain? (t : Text) : Option Numeral :=
  let (negative, body) := splitSign t
  let word := Text.asciiLower body
  if word = Text.lit "inf" || word = Text.lit "infinity" then
    some (.infinite negative)
  else if word = Text.lit "nan" then some .undefined
  else unsigned? negative body

/-- The numeral that a text is. -/
def read? (t : Text) : Option Numeral :=
  (dropUnderscores false (Text.trimWhile isAsciiBlank (t.map normalise))).bind plain?

/-- Why a text is no whole number. -/
inductive NotWhole
  /-- It is not written in digits alone. -/
  | malformed
  /-- It starts with that many digits, which is more than are read. -/
  | tooLong (digits : Nat)
  deriving DecidableEq, Repr

/-- The most digits that a whole number may be written in, zeros in front included. -/
def digitLimit : Nat := 4300

/-- The whole number that a text is, written in digits alone. The digits are counted before it is
looked at what follows them. -/
def whole (t : Text) : Except NotWhole Int :=
  let (negative, body) := splitSign (Text.trimWhile isAsciiBlank (t.map normalise))
  let isPart (c : CodePoint) : Bool := c.isAsciiDigit || c = CodePoint.ofChar '_'
  match dropUnderscores false (body.takeWhile isPart) with
  | none => .error .malformed
  | some digits =>
    if digitLimit < digits.length then .error (.tooLong digits.length)
    else if digits.isEmpty || !(body.dropWhile isPart).isEmpty then .error .malformed
    else .ok (if negative then -(valueOf digits : Int) else valueOf digits)

/-- The numeral that bytes are as ASCII text. -/
def readBytes? (bytes : Bytes) : Option Numeral :=
  let t := bytes.map fun b => CodePoint.ofNat b.toNat
  (dropUnderscores false (Text.trimWhile isAsciiBlank t)).bind plain?

end Numeral

/-- The number nearest to a numeral. Far outside the range of numbers the power of ten is not
computed. -/
def Numeral.nearest : Numeral → Float
  | .decimal negative mantissa exponent =>
    let size := exponent + (Text.digits mantissa).length
    if mantissa = 0 ∨ size < -400 then Binary64.nearest negative 0 1
    else if 400 < size then Binary64.nearest negative (Nat.pow 2 1024) 1
    else if exponent < 0 then Binary64.nearest negative mantissa (Nat.pow 10 (-exponent).toNat)
    else Binary64.nearest negative (mantissa * Nat.pow 10 exponent.toNat) 1
  | .infinite negative => if negative then -(1.0 / 0.0) else 1.0 / 0.0
  | .undefined => 0.0 / 0.0

end Folio.Decimal
