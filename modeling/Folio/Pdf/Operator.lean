import Folio.Text.Basic

/-!
# Content operators

The operators of a content stream that have an effect here. Path operators are passed on as they
are; every other operator is ignored.
-/

namespace Folio.Pdf

/-- What an operator does. -/
inductive Verb
  | save
  | restore
  | concatenate
  | lineWidth
  | beginText
  | selectFont
  | charSpacing
  | wordSpacing
  | scaling
  | leading
  | rise
  | moveText
  /-- Moves and sets the leading. -/
  | moveTextLeading
  | textMatrix
  | nextLine
  | show
  | showArray
  | nextLineShow
  /-- Sets the spacings, moves to the next line and shows. -/
  | spacedShow
  | path
  | drawObject
  deriving DecidableEq, Repr

namespace Verb

/-- The operators that construct and paint paths. -/
def pathOperators : List String := [
  "m", "l", "c", "v", "y", "re", "h", "S", "s", "f", "F", "f*", "B", "B*", "b", "b*", "n"]

/-- The other operators by their names. -/
def named : List (String × Verb) := [
  ("q", .save), ("Q", .restore), ("cm", .concatenate), ("w", .lineWidth), ("BT", .beginText),
  ("Tf", .selectFont), ("Tc", .charSpacing), ("Tw", .wordSpacing), ("Tz", .scaling),
  ("TL", .leading), ("Ts", .rise), ("Td", .moveText), ("TD", .moveTextLeading),
  ("Tm", .textMatrix), ("T*", .nextLine), ("Tj", .show), ("TJ", .showArray),
  ("\x27", .nextLineShow), ("\"", .spacedShow), ("Do", .drawObject)]

/-- What the operator of that name does; nothing for one that is ignored. -/
def ofName? (name : Text) : Option Verb :=
  match named.find? fun v => Text.lit v.1 = name with
  | some v => some v.2
  | none => if pathOperators.any fun p => Text.lit p = name then some .path else none

end Verb

end Folio.Pdf
