import Folio.Box
import Folio.Geometry.Page
import Folio.Text.Escape

/-!
# Pages in HTML

The text of a document, its pages and its boxes. Nothing is decided here: every box comes with its
position, and only numbers, labels and references are spelled out.
-/

namespace Folio.Html

open Text (lit join)

/-- The style sheet of every document. -/
def styleSheet : Text := lit <|
  ".page\x7bposition:relative;margin:0.5em;"
    ++ "box-shadow: 5px 5px 10px rgba(0, 0, 0, 0.2), 10px 10px 20px rgba(0, 0, 0, 0.2),"
    ++ "15px 15px 30px rgba(0, 0, 0, 0.2);"
    ++ "margin-bottom:16px;\x7d\n"
    ++ ".p\x7bposition:absolute;white-space:pre-wrap;border:1px solid blue;border-radius:3px;\x7d\n"
    ++ ".l\x7bposition:absolute;\x7d\n"
    ++ ".seq\x7bbackground-color:rgba(255,127,80,0.5);margin-left:3px;margin-right:3px;\x7d\n"

/-- Everything before the first page. -/
def documentStart (title : Text) : Text := join [
  lit "<!DOCTYPE html>\n<html><head><meta charset=\"utf-8\">\n<title>", title.escapeQuoted,
  lit "</title>\n<style type=\"text/css\">\n", styleSheet, lit "</style>\n</head>\n<body>\n"]

/-- Everything after the last page. -/
def documentEnd : Text := lit "\n</body></html>"

def pageEnd : Text := lit "</div>\n"

variable {α : Type} [Scalar α]

/-- A length in the document's unit. -/
def length (unit : Text) (a : α) : Text := Scalar.thousandths a ++ unit

def declaration (property value : Text) : Text := join [property, lit ":", value, lit ";"]

def pageStart (unit : Text) (page : Page.Frame α) : Text :=
  let size :=
    match page.width, page.height with
    | some width, some height =>
      join [lit "width:", length unit width, lit "; height:", length unit height, lit ";"]
    | _, _ => []
  join [lit "<div class=\"page\" id=\"page_", Text.ofInt page.number, lit "\" style=\"", size,
    lit "overflow:hidden;\">\n"]

/-- The declarations that place a box. -/
def placement (unit : Text) (left top width : α) : Text := join [
  declaration (lit "left") (length unit left),
  declaration (lit "top") (length unit top),
  declaration (lit "width") (length unit width)]

/-- The style of a paragraph; one without a family takes the fallback. -/
def paragraphStyle (unit fallback : Text) (p : Paragraph α) : Text := join [
  placement unit p.left p.top p.width,
  declaration (lit "line-height") (length unit p.lineHeight),
  declaration (lit "font-size") (length unit p.fontSize),
  declaration (lit "font-family") (if p.family.isEmpty then fallback else p.family),
  declaration (lit "font-weight") p.weight,
  declaration (lit "font-style") p.slant]

def paragraph (unit fallback : Text) (p : Paragraph α) : Text := join [
  lit "<div class=\"p\" style=\"", paragraphStyle unit fallback p, lit "\">", p.content,
  lit "</div>"]

/-- The style of a rule; it is turned only when it has an angle. -/
def ruleStyle (unit : Text) (r : Rule α) : Text := join [
  placement unit r.left r.top r.width,
  declaration (lit "height") (length unit r.height),
  declaration r.border (length unit r.stroke ++ lit " solid #000000"),
  if r.angle != 0 then
    declaration (lit "transform") (join [lit "rotate(", Scalar.thousandths r.angle, lit "deg)"])
  else []]

def rule (unit : Text) (r : Rule α) : Text := join [
  lit "<div class=\"l\" style=\"", ruleStyle unit r, lit "\">&nbsp;</div>"]

def pictureStyle (unit : Text) (e : Extent α) : Text := join [
  lit "position:absolute;",
  placement unit e.left e.top e.width,
  declaration (lit "height") (length unit e.height)]

def picture (unit : Text) (p : Picture α) : Text := join [
  lit "<img src=\"", p.source.escapeQuoted, lit "\" style=\"", pictureStyle unit p.extent,
  lit "\"/>"]

end Folio.Html
