import Folio.Text.Basic

/-!
# Escaped text

The references that let a text stand inside markup. Element content needs three of them; a text
that stands in an attribute needs the two quotes as well.
-/

namespace Folio.Text

/-- A code point as element content. -/
def escapeOne (c : CodePoint) : Text :=
  if c = CodePoint.ofChar '&' then lit "&amp;"
  else if c = CodePoint.ofChar '<' then lit "&lt;"
  else if c = CodePoint.ofChar '>' then lit "&gt;"
  else [c]

/-- A code point as part of a quoted attribute. -/
def escapeQuotedOne (c : CodePoint) : Text :=
  if c = CodePoint.ofChar '"' then lit "&quot;"
  else if c = CodePoint.ofNat 39 then lit "&#x27;"
  else escapeOne c

def escape (t : Text) : Text := t.flatMap escapeOne

/-- The text as the value of a quoted attribute. -/
def escapeQuoted (t : Text) : Text := t.flatMap escapeQuotedOne

end Folio.Text
