/-!
# Text as code points

Text read from a font's tables may hold a surrogate without its partner, which no `Char` stands
for, so text here is a list of Unicode code points with the surrogates included. Everything that
is drawn, escaped, logged or written is a `Text`; `lit` brings a string constant in.
-/

namespace Folio

/-- A Unicode code point; unlike a `Char` it may be a surrogate. -/
structure CodePoint where
  val : Nat
  val_lt : val < 0x110000
  deriving DecidableEq, Repr

namespace CodePoint

/-- Every character is a code point. -/
def ofChar (c : Char) : CodePoint :=
  ⟨c.toNat, by
    have h := c.valid
    simp only [UInt32.isValidChar, Nat.isValidChar] at h
    have : c.toNat = c.val.toNat := rfl
    omega⟩

/-- The code point of that number, and U+FFFD beyond the last one. -/
def ofNat (n : Nat) : CodePoint :=
  if h : n < 0x110000 then ⟨n, h⟩ else ⟨0xFFFD, by decide⟩

instance : Coe Char CodePoint := ⟨ofChar⟩

instance : Inhabited CodePoint := ⟨ofNat 0⟩

/-- The code points that stand for half of a UTF-16 pair and for nothing else. -/
def isSurrogate (c : CodePoint) : Bool := 0xD800 ≤ c.val && c.val < 0xE000

/-- Whether the code point is the ASCII digit of some value. -/
def isAsciiDigit (c : CodePoint) : Bool := 0x30 ≤ c.val && c.val ≤ 0x39

/-- Whether the code point is an ASCII capital. -/
def isAsciiUpper (c : CodePoint) : Bool := 0x41 ≤ c.val && c.val ≤ 0x5A

/-- Whether the code point is a small ASCII letter. -/
def isAsciiLower (c : CodePoint) : Bool := 0x61 ≤ c.val && c.val ≤ 0x7A

/-- An ASCII capital as its small letter, anything else as it is. -/
def asciiLower (c : CodePoint) : CodePoint :=
  if c.isAsciiUpper then ofNat (c.val + 0x20) else c

/-- The order of code points by number. -/
def before (a b : CodePoint) : Bool := a.val < b.val

end CodePoint

/-- A text: any list of code points. -/
abbrev Text := List CodePoint

namespace Text

/-- A string constant as text. -/
def lit (s : String) : Text := s.toList.map CodePoint.ofChar

def join (pieces : List Text) : Text := pieces.flatten

/-- Pieces with a separator between any two. -/
def joinWith (separator : Text) : List Text → Text
  | [] => []
  | [piece] => piece
  | piece :: rest => piece ++ separator ++ joinWith separator rest

def replicate (count : Nat) (t : Text) : Text := join (List.replicate count t)

/-- Whether `needle` stands somewhere in the text. -/
def mentions (needle : Text) : Text → Bool
  | [] => needle.isEmpty
  | c :: rest => needle.isPrefixOf (c :: rest) || mentions needle rest

def asciiLower (t : Text) : Text := t.map CodePoint.asciiLower

/-- The text without the code points `p` holds of at its end. -/
def trimEndWhile (p : CodePoint → Bool) (t : Text) : Text :=
  (t.reverse.dropWhile p).reverse

/-- The text without the code points `p` holds of at either end. -/
def trimWhile (p : CodePoint → Bool) (t : Text) : Text :=
  trimEndWhile p (t.dropWhile p)

/-- The text without one leading `c`. -/
def dropOne (c : CodePoint) : Text → Text
  | [] => []
  | d :: rest => if d = c then rest else d :: rest

/-- The order of texts, code point by code point. -/
def le : Text → Text → Bool
  | [], _ => true
  | _ :: _, [] => false
  | a :: s, b :: t => if a.val < b.val then true else if b.val < a.val then false else le s t

/-- The decimal digits of a number, the leading one first; zero is the single digit `0`. -/
def digits (n : Nat) : List Nat :=
  if n < 10 then [n] else digits (n / 10) ++ [n % 10]
termination_by n
decreasing_by omega

/-- The code point of a decimal digit. -/
def ofDigit (d : Nat) : CodePoint := CodePoint.ofNat (0x30 + d)

def ofNat (n : Nat) : Text := (digits n).map ofDigit

/-- A whole number in decimal, with a minus sign below zero. -/
def ofInt : Int → Text
  | .ofNat n => ofNat n
  | .negSucc n => lit "-" ++ ofNat (n + 1)

/-- The text as a string; a surrogate shows as U+FFFD. -/
def toString (t : Text) : String :=
  String.ofList (t.map fun c => if c.isSurrogate then Char.ofNat 0xFFFD else Char.ofNat c.val)

end Text

end Folio
