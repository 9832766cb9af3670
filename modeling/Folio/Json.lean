import Folio.Bytes
import Folio.Decimal.Numeral
import Folio.Decimal.Shortest

/-!
# JSON values

JSON with its distinctions kept: whole numbers stay apart from other numbers and have any size,
objects keep the order of their members, an escaped surrogate without its partner is a code point
like any other, and words stand for the numbers that have no digits. `read?` and `render` are total.
-/

namespace Folio

/-- A JSON value. -/
inductive Json
  | null
  | bool (value : Bool)
  | whole (value : Int)
  | real (value : Float)
  | text (value : Text)
  | array (items : List Json)
  | object (members : List (Text × Json))

namespace Json

instance : Inhabited Json := ⟨null⟩

/-- The members with one put in; a name that is there keeps its place and takes the new value. -/
def putMember (members : List (Text × Json)) (name : Text) (value : Json) : List (Text × Json) :=
  if members.any (·.1 == name) then
    members.map fun m => if m.1 == name then (name, value) else m
  else members ++ [(name, value)]

/-- Blanks between tokens. -/
def isGap (c : CodePoint) : Bool := c.val == 0x20 || c.val == 0x09 || c.val == 0x0A || c.val == 0x0D

/-- The text from the next token on. -/
def skipGaps (t : Text) : Text := t.dropWhile isGap

/-- The value of four hexadecimal digits in front. -/
def hex4? (t : Text) : Option (Nat × Text) :=
  match t with
  | a :: b :: c :: d :: rest =>
    match Bytes.hexValue? a, Bytes.hexValue? b, Bytes.hexValue? c, Bytes.hexValue? d with
    | some a, some b, some c, some d => some (((a * 16 + b) * 16 + c) * 16 + d, rest)
    | _, _, _, _ => none
  | _ => none

/-- The code points that the letters after a backslash stand for. -/
def simpleEscape? (c : CodePoint) : Option CodePoint :=
  match c.val with
  | 0x22 => some (CodePoint.ofNat 0x22)
  | 0x5C => some (CodePoint.ofNat 0x5C)
  | 0x2F => some (CodePoint.ofNat 0x2F)
  | 0x62 => some (CodePoint.ofNat 0x08)
  | 0x66 => some (CodePoint.ofNat 0x0C)
  | 0x6E => some (CodePoint.ofNat 0x0A)
  | 0x72 => some (CodePoint.ofNat 0x0D)
  | 0x74 => some (CodePoint.ofNat 0x09)
  | _ => none

/-- An escaped code unit, joined with the second half of its pair if that follows. -/
def escapedUnit? (t : Text) : Option (CodePoint × Text) :=
  match hex4? t with
  | none => none
  | some (high, rest) =>
    if 0xD800 ≤ high ∧ high < 0xDC00 then
      match rest with
      | backslash :: u :: more =>
        if backslash.val = 0x5C ∧ u.val = 0x75 then
          match hex4? more with
          | some (low, after) =>
            if 0xDC00 ≤ low ∧ low < 0xE000 then
              some (CodePoint.ofNat (0x10000 + (high - 0xD800) * 0x400 + (low - 0xDC00)), after)
            else some (CodePoint.ofNat high, rest)
          | none => none
        else some (CodePoint.ofNat high, rest)
      | _ => some (CodePoint.ofNat high, rest)
    else some (CodePoint.ofNat high, rest)

/-- The rest of a string after its opening quote: what it holds, last code point first on top of
`done`, and what follows. Every step takes at least one code point of the `fuel` in the text. -/
def stringBody? : Nat → Text → Text → Option (Text × Text)
  | 0, _, _ => none
  | _ + 1, _, [] => none
  | fuel + 1, done, c :: rest =>
    if c.val = 0x22 then some (done.reverse, rest)
    else if c.val = 0x5C then
      match rest with
      | [] => none
      | u :: more =>
        if u.val = 0x75 then
          match escapedUnit? more with
          | some (unit, after) => stringBody? fuel (unit :: done) after
          | none => none
        else
          match simpleEscape? u with
          | some escaped => stringBody? fuel (escaped :: done) more
          | none => none
    else stringBody? fuel (c :: done) rest

/-- Whether the code point can be part of a number. -/
def isNumberPart (c : CodePoint) : Bool :=
  c.isAsciiDigit || c.val == 0x2B || c.val == 0x2D || c.val == 0x2E || c.val == 0x45
    || c.val == 0x65

/-- The number that a token writes; without point and exponent it is whole. -/
def number? (token : Text) : Option Json :=
  let (negative, body) := Decimal.Numeral.splitSign token
  if body.isEmpty then none
  else if body.all CodePoint.isAsciiDigit then
    let n : Int := Decimal.Numeral.valueOf body
    some (whole (if negative then -n else n))
  else (Decimal.Numeral.plain? token).map fun n => real n.nearest

/-- Takes a word off the front. -/
def word? (word : String) (value : Json) (t : Text) : Option (Json × Text) :=
  let w := Text.lit word
  if w.isPrefixOf t then some (value, t.drop w.length) else none

/-- Takes the word for a number without digits off the front. -/
def boundless? (t : Text) : Option (Json × Text) :=
  (word? "Infinity" (real (1.0 / 0.0)) t).or <|
    (word? "-Infinity" (real (-1.0 / 0.0)) t).or (word? "NaN" (real (0.0 / 0.0)) t)

mutual

/-- The value in front, and what follows. -/
def value? : Nat → Text → Option (Json × Text)
  | 0, _ => none
  | fuel + 1, t =>
    match skipGaps t with
    | [] => none
    | c :: rest =>
      if c.val = 0x22 then (stringBody? (fuel + 1) [] rest).map fun (s, after) => (text s, after)
      else if c.val = 0x5B then
        match skipGaps rest with
        | [] => none
        | d :: more =>
          if d.val = 0x5D then some (array [], more)
          else (items? fuel (d :: more)).map fun (items, after) => (array items, after)
      else if c.val = 0x7B then
        match skipGaps rest with
        | [] => none
        | d :: more =>
          if d.val = 0x7D then some (object [], more) else members? fuel [] (d :: more)
      else if c.val = 0x6E then word? "null" null (c :: rest)
      else if c.val = 0x74 then word? "true" (bool true) (c :: rest)
      else if c.val = 0x66 then word? "false" (bool false) (c :: rest)
      else match boundless? (c :: rest) with
        | some found => some found
        | none =>
          let token := (c :: rest).takeWhile isNumberPart
          (number? token).map fun n => (n, (c :: rest).dropWhile isNumberPart)

/-- The items of an array up to its closing bracket. -/
def items? : Nat → Text → Option (List Json × Text)
  | 0, _ => none
  | fuel + 1, t =>
    match value? fuel t with
    | none => none
    | some (item, after) =>
      match skipGaps after with
      | [] => none
      | c :: rest =>
        if c.val = 0x5D then some ([item], rest)
        else if c.val = 0x2C then
          (items? fuel rest).map fun (items, after) => (item :: items, after)
        else none

/-- The members of an object up to its closing brace. -/
def members? : Nat → List (Text × Json) → Text → Option (Json × Text)
  | 0, _, _ => none
  | fuel + 1, done, t =>
    match value? fuel t with
    | some (text name, after) =>
      match skipGaps after with
      | [] => none
      | colon :: rest =>
        if colon.val = 0x3A then
          match value? fuel rest with
          | none => none
          | some (value, after) =>
            let done := putMember done name value
            match skipGaps after with
            | [] => none
            | c :: rest =>
              if c.val = 0x7D then some (object done, rest)
              else if c.val = 0x2C then members? fuel done rest
              else none
        else none
    | _ => none

end

/-- The value that a text writes. -/
def read? (t : Text) : Option Json :=
  match value? (t.length + 1) t with
  | some (value, rest) => if (skipGaps rest).isEmpty then some value else none
  | none => none

/-- A code unit as an escape. -/
def unitEscape (n : Nat) : Text := Text.lit "\\u" ++ Bytes.hexOfUnit n

/-- A code point of a string, in ASCII. -/
def renderOne (c : CodePoint) : Text :=
  let n := c.val
  if n = 0x22 ∨ n = 0x5C then [CodePoint.ofNat 0x5C, c]
  else if 0x20 ≤ n ∧ n < 0x7F then [c]
  else if n < 0x10000 then unitEscape n
  else unitEscape (0xD800 + (n - 0x10000) / 0x400) ++ unitEscape (0xDC00 + (n - 0x10000) % 0x400)

/-- A number that is not whole; one without digits is a word. -/
def renderReal (x : Float) : Text :=
  if x.isNaN then Text.lit "NaN"
  else if x.isInf then Text.lit (if x < 0 then "-Infinity" else "Infinity")
  else Decimal.Shortest.text x

def renderText (t : Text) : Text := Text.lit "\"" ++ t.flatMap renderOne ++ Text.lit "\""

mutual

/-- The value in ASCII text. -/
def render : Json → Text
  | null => Text.lit "null"
  | bool true => Text.lit "true"
  | bool false => Text.lit "false"
  | whole n => Text.ofInt n
  | real x => renderReal x
  | text t => renderText t
  | array items => Text.lit "[" ++ renderItems items ++ Text.lit "]"
  | object members => Text.lit "\x7b" ++ renderMembers members ++ Text.lit "\x7d"

def renderItems : List Json → Text
  | [] => []
  | [item] => render item
  | item :: rest => render item ++ Text.lit "," ++ renderItems rest

def renderMembers : List (Text × Json) → Text
  | [] => []
  | [(name, value)] => renderText name ++ Text.lit ":" ++ render value
  | (name, value) :: rest =>
    renderText name ++ Text.lit ":" ++ render value ++ Text.lit "," ++ renderMembers rest

end

end Json

end Folio
