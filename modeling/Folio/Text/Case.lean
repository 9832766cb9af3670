import Folio.Text.Case.Letters
import Folio.Text.Case.Mapping

/-!
# Texts in small letters and in capitals

Each code point goes its own way, but for the capital sigma: at the end of a word it becomes the
final small one, which takes a letter somewhere before it and none behind it.
-/

namespace Folio.Text

/-- Whether a text starts with a letter that has case, past what case ignores. -/
def startsCased : Text → Bool
  | [] => false
  | c :: rest => if c.isCaseIgnorable then startsCased rest else c.isCased

/-- The small letters of the code point between `before`, which is given backwards, and `after`. -/
def lowerBetween (before : Text) (c : CodePoint) (after : Text) : Text :=
  if c.val = 0x03A3 then
    if startsCased before && !startsCased after then [CodePoint.ofNat 0x03C2]
    else [CodePoint.ofNat 0x03C3]
  else c.lower

/-- The text in small letters; `before` is what stands in front of it, backwards. -/
def lowerAfter (before : Text) : Text → Text
  | [] => []
  | c :: rest => lowerBetween before c rest ++ lowerAfter (c :: before) rest

def lower (t : Text) : Text := lowerAfter [] t

def upper (t : Text) : Text := t.flatMap CodePoint.upper

end Folio.Text
