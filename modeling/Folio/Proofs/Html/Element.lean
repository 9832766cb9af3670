import Folio.Html

/-!
# Elements by how they start

What is written at once is told by its first characters: a paragraph, a rule, a picture or the end of
a page. Whatever else is written starts otherwise, so the elements in a list of writes can be counted
and picked out without reading on.
-/

namespace Folio

open Text (lit)

/-- What pages and their boxes are told by. -/
inductive Element
  | paragraph
  | rule
  | picture
  | pageEnd
  deriving DecidableEq, Repr

namespace Element

/-- How the element starts. -/
def mark : Element → Text
  | paragraph => lit "<div class=\"p\""
  | rule => lit "<div class=\"l\""
  | picture => lit "<img "
  | pageEnd => lit "</div>"

/-- Whether that is an element of the kind. -/
def marks (e : Element) (t : Text) : Bool := e.mark.isPrefixOf t

/-- How many of those are elements of the kind. -/
def among (e : Element) (pieces : List Text) : Nat := pieces.countP e.marks

theorem among_cons (e : Element) (t : Text) (pieces : List Text) :
    e.among (t :: pieces) = e.among pieces + if e.marks t then 1 else 0 := List.countP_cons

variable {α : Type} [Scalar α] (e : Element)

@[simp] theorem marks_documentStart (title : Text) :
    e.marks (Html.documentStart title) = false := by
  cases e <;> rfl

@[simp] theorem marks_documentEnd : e.marks Html.documentEnd = false := by
  cases e <;> rfl

@[simp] theorem marks_pageStart (unit : Text) (page : Page.Frame α) :
    e.marks (Html.pageStart unit page) = false := by
  cases e <;> rfl

@[simp] theorem marks_pageEnd : e.marks Html.pageEnd = decide (e = pageEnd) := by
  cases e <;> rfl

@[simp] theorem marks_paragraph (unit fallback : Text) (p : Paragraph α) :
    e.marks (Html.paragraph unit fallback p) = decide (e = paragraph) := by
  cases e <;> rfl

@[simp] theorem marks_rule (unit : Text) (r : Rule α) :
    e.marks (Html.rule unit r) = decide (e = rule) := by
  cases e <;> rfl

@[simp] theorem marks_picture (unit : Text) (p : Picture α) :
    e.marks (Html.picture unit p) = decide (e = picture) := by
  cases e <;> rfl

end Element

end Folio
