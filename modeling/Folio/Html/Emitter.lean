import Folio.Html
import Folio.Output

/-!
# Writing a document

The emitter writes pages and boxes to an output and remembers whether a page is open, so that the
end of the document can close it. A page counts as opened or closed only once that has been
written.
-/

namespace Folio

/-- An output in the middle of a document. -/
structure Emitter where
  output : Output
  unit : Text
  pageOpen : Bool := false

namespace Emitter

def write (t : Text) : Act Emitter Unit :=
  (Output.write t).onPart (·.output) fun output e => { e with output := output }

/-- Writes everything before the first page. -/
def documentStart (title : Text) : Act Emitter Unit := write (Html.documentStart title)

def pageEnd : Act Emitter Unit := do
  write Html.pageEnd
  modify fun e => { e with pageOpen := false }

/-- Writes everything after the last page, which is closed first if it is open. -/
def documentEnd : Act Emitter Unit := do
  if (← get).pageOpen then pageEnd
  write Html.documentEnd

variable {α : Type} [Scalar α]

def pageStart (page : Page.Frame α) : Act Emitter Unit := do
  write (Html.pageStart (← get).unit page)
  modify fun e => { e with pageOpen := true }

def paragraph (fallback : Text) (p : Paragraph α) : Act Emitter Unit := do
  write (Html.paragraph (← get).unit fallback p)

def rule (r : Rule α) : Act Emitter Unit := do
  write (Html.rule (← get).unit r)

def picture (p : Picture α) : Act Emitter Unit := do
  write (Html.picture (← get).unit p)

end Emitter

end Folio
