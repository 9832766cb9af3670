import Folio.Text.Basic

/-!
# Blank code points

Which code points count as blank when a paragraph is judged empty. A paragraph of blanks alone is
not worth a box.
-/

namespace Folio

/-- White space and the separators, line and information ones included. -/
def CodePoint.isBlank (c : CodePoint) : Bool :=
  let n := c.val
  (0x09 ≤ n && n ≤ 0x0D) || (0x1C ≤ n && n ≤ 0x20) || n == 0x85 || n == 0xA0 || n == 0x1680
    || (0x2000 ≤ n && n ≤ 0x200A) || n == 0x2028 || n == 0x2029 || n == 0x202F || n == 0x205F
    || n == 0x3000

/-- Whether nothing but blanks is in the text. -/
def Text.isBlank (t : Text) : Bool := t.all CodePoint.isBlank

end Folio
