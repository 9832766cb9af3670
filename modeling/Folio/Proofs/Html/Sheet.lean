import Folio.Html
import Folio.Path
import Folio.Proofs.Html.Reader
import Folio.Proofs.Paragraph.Run

/-!
# Sheets

What stands in a document, as data: a sheet is a page with its boxes in the order they were drawn,
and a box knows the run, the segment or the picture it was drawn from. Each of them has its text and
its tags, and the text is read as just those tags (`reads_box`, `reads_sheet`, `reads_document`):

* a document is its head, its sheets one after the other, and its tail;
* a sheet is one division around its boxes;
* a box is a division or a single picture, and only that of a run has tags inside, which are those
  of one spacer at most and of its sentences, one closed before the next one opens.

A unit, a fallback family and a placeholder have to be plain for that; everything else may be any
text whatever.
-/

namespace Folio

open Text (lit join)

variable {α : Type} [Scalar α]

/-! ## Runs -/

namespace Run

/-- How many sentences begin behind a glyph. -/
def sentencesAfter (options : Options α) : Glyph α → List (Glyph α) → Nat
  | _, [] => 0
  | previous, glyph :: rest =>
    sentencesAfter options glyph rest + if endsSentence options previous then 1 else 0

/-- How many sentences the run has. -/
def sentences (options : Options α) (r : Run α) : Nat := sentencesAfter options r.first r.rest + 1

def sentenceTags : List Html.Tag :=
  [.opening (lit "span") [(lit "class", lit "seq")], .closing (lit "span")]

/-- The tags of so many sentences, one after the other. -/
def sentencesTags (count : Nat) : List Html.Tag := (List.replicate count sentenceTags).flatten

theorem sentencesTags_succ (count : Nat) :
    sentencesTags (count + 1) = sentenceTags ++ sentencesTags count := by
  rw [sentencesTags, List.replicate_succ, List.flatten_cons]
  rfl

def spacerStyle (unit : Text) (width : α) : Text :=
  lit "display:inline-block;width:" ++ Scalar.thousandths width ++ unit ++ lit ";"

/-- The tags of the spacer in front of the run, if it has one. -/
def leadTags (options : Options α) (r : Run α) : List Html.Tag :=
  match r.indent? options with
  | none => []
  | some width =>
    [.opening (lit "span") [(lit "style", spacerStyle options.unit width)], .closing (lit "span")]

/-- The tags within the paragraph of the run. -/
def tags (options : Options α) (r : Run α) : List Html.Tag :=
  r.leadTags options ++ sentencesTags (r.sentences options)

end Run

namespace Html

theorem reads_sentenceStart :
    Reads ParagraphBuffer.sentenceStart [.opening (lit "span") [(lit "class", lit "seq")]] :=
  .of_lit ⟨by decide, by decide⟩

theorem reads_sentenceEnd : Reads ParagraphBuffer.sentenceEnd [.closing (lit "span")] :=
  .of_lit ⟨by decide, by decide⟩

theorem reads_spacer {unit : Text} (hunit : unit.IsPlain) (width : α) :
    Reads (ParagraphBuffer.spacer width unit)
      [.opening (lit "span") [(lit "style", Run.spacerStyle unit width)],
        .closing (lit "span")] := by
  have hstyle : (Run.spacerStyle unit width).IsPlain := by
    simp only [Run.spacerStyle, Text.isPlain_append]
    exact ⟨⟨⟨by decide, Decimal.isPlain_thousandths _⟩, hunit⟩, by decide⟩
  have hspacer : ParagraphBuffer.spacer width unit
      = startTag (lit "span") [(lit "style", Run.spacerStyle unit width)] (lit ">")
        ++ lit "</span>" := by
    simp only [ParagraphBuffer.spacer, Run.spacerStyle, startTag, field, List.flatMap_cons,
      List.flatMap_nil, List.append_assoc, List.append_nil]
    rfl
  rw [hspacer]
  have hattributes : ∀ a ∈ [(lit "style", Run.spacerStyle unit width)],
      IsWord a.1 ∧ a.2.IsPlain := by
    intro a ha
    rw [List.mem_singleton.mp ha]
    exact ⟨isWord_style, hstyle⟩
  exact (Reads.startTag (by decide) hattributes (.inl rfl)).append reads_sentenceEnd

theorem reads_lead {options : Options α} (hunit : options.unit.IsPlain) (r : Run α) :
    Reads (r.lead options) (r.leadTags options) := by
  unfold Run.lead Run.leadTags
  cases r.indent? options with
  | none => exact .nil
  | some width => exact reads_spacer hunit width

omit [Scalar α] in
/-- One glyph opens its sentence if none is open, and closes it if it is the last one. -/
theorem reads_piece {options : Options α} (hplaceholder : options.placeholder.HasNoAngle)
    (count : Nat) (isOpen : Bool) (glyph : Glyph α) :
    Reads (Run.piece options count isOpen glyph)
      ((if isOpen then [] else [.opening (lit "span") [(lit "class", lit "seq")]])
        ++ if Run.endsSentence options glyph then [.closing (lit "span")] else []) := by
  have hblanks := Reads.of_hasNoAngle (Text.hasNoAngle_replicate hplaceholder count)
  have hshown := Reads.of_hasNoAngle (Text.hasNoAngle_escape (Run.shown options glyph))
  have hstart : Reads (if isOpen then [] else ParagraphBuffer.sentenceStart)
      (if isOpen then [] else [.opening (lit "span") [(lit "class", lit "seq")]]) := by
    split
    · exact .nil
    · exact reads_sentenceStart
  have hend : Reads (if Run.endsSentence options glyph then ParagraphBuffer.sentenceEnd else [])
      (if Run.endsSentence options glyph then [.closing (lit "span")] else []) := by
    split
    · exact reads_sentenceEnd
    · exact .nil
  have hpiece := ((hblanks.append hstart).append hshown).append hend
  rw [List.nil_append, List.append_nil] at hpiece
  exact hpiece

/-- Behind a glyph whose sentence is still open the next tag closes it, and whole sentences follow;
`isOpen` says whether it is. -/
theorem reads_following {options : Options α} (hplaceholder : options.placeholder.HasNoAngle)
    (gs : List (Glyph α)) : ∀ (previous : Glyph α),
    Reads (Run.following options previous gs
        ++ if Run.endsSentence options (gs.getLastD previous) then []
          else ParagraphBuffer.sentenceEnd)
      ((if Run.endsSentence options previous then [] else [.closing (lit "span")])
        ++ Run.sentencesTags (Run.sentencesAfter options previous gs)) := by
  induction gs with
  | nil =>
    intro previous
    rw [Run.following, List.getLastD_nil]
    by_cases hends : Run.endsSentence options previous = true
    · rw [if_pos hends, if_pos hends]
      exact .nil
    · rw [if_neg hends, if_neg hends]
      exact reads_sentenceEnd
  | cons glyph gs ih =>
    intro previous
    have hpiece := reads_piece hplaceholder (Run.blanksBetween previous glyph)
      (!Run.endsSentence options previous) glyph
    have hboth := hpiece.append (ih glyph)
    rw [Run.following, List.getLastD_cons, List.append_assoc]
    refine (congrArg (Reads _) ?_).mpr hboth
    -- Whether or not the next glyph ends its sentence, the two tags of it come out as one pair.
    rw [Run.sentencesAfter]
    by_cases hprevious : Run.endsSentence options previous = true <;>
      by_cases hglyph : Run.endsSentence options glyph = true <;>
        simp [hprevious, hglyph, Run.sentencesTags_succ, Run.sentenceTags]

/-- Within a paragraph there are the tags of one spacer at most and of sentences that are closed one
by one. -/
theorem reads_content {options : Options α} (hunit : options.unit.IsPlain)
    (hplaceholder : options.placeholder.HasNoAngle) (r : Run α) :
    Reads (r.content options) (r.tags options) := by
  have hfirst := reads_piece hplaceholder 0 false r.first
  have hrest := reads_following hplaceholder r.rest r.first
  have hcontent := (reads_lead hunit r).append (hfirst.append hrest)
  have htext : r.content options = r.lead options
      ++ (Run.piece options 0 false r.first
        ++ (Run.following options r.first r.rest
          ++ if Run.endsSentence options (r.rest.getLastD r.first) then []
            else ParagraphBuffer.sentenceEnd)) := by
    simp only [Run.content, Run.text, Run.last, List.append_assoc]
    rfl
  rw [htext]
  refine (congrArg (Reads _) ?_).mpr hcontent
  rw [Run.tags, Run.sentences, Run.sentencesTags_succ]
  by_cases hends : Run.endsSentence options r.first = true <;> simp [hends, Run.sentenceTags]

/-! ## Styles -/

theorem isPlain_length {unit : Text} (hunit : unit.IsPlain) (a : α) : (length unit a).IsPlain :=
  Text.isPlain_append.mpr ⟨Decimal.isPlain_thousandths _, hunit⟩

theorem isPlain_declaration {property value : Text} (hproperty : property.IsPlain)
    (hvalue : value.IsPlain) : (declaration property value).IsPlain := by
  simp only [declaration, Text.isPlain_join_cons, Text.isPlain_join_nil]
  exact ⟨hproperty, by decide, hvalue, by decide, trivial⟩

theorem isPlain_placement {unit : Text} (hunit : unit.IsPlain) (left top width : α) :
    (placement unit left top width).IsPlain := by
  simp only [placement, Text.isPlain_join_cons, Text.isPlain_join_nil]
  exact ⟨isPlain_declaration (by decide) (isPlain_length hunit _),
    isPlain_declaration (by decide) (isPlain_length hunit _),
    isPlain_declaration (by decide) (isPlain_length hunit _), trivial⟩

theorem isPlain_weight (face : Face) : face.weight.IsPlain := by
  unfold Face.weight
  split <;> decide

theorem isPlain_slant (face : Face) : face.slant.IsPlain := by
  unfold Face.slant
  split <;> decide

theorem isPlain_paragraphStyle {unit fallback : Text} (hunit : unit.IsPlain)
    (hfallback : fallback.IsPlain) {face : Face} (hface : face.family.IsPlain)
    (options : Options α) (r : Run α) :
    (paragraphStyle unit fallback (r.paragraph options face)).IsPlain := by
  have hfamily : (if face.family.isEmpty then fallback else face.family).IsPlain := by
    split
    · exact hfallback
    · exact hface
  simp only [paragraphStyle, Text.isPlain_join_cons, Text.isPlain_join_nil]
  exact ⟨isPlain_placement hunit _ _ _, isPlain_declaration (by decide) (isPlain_length hunit _),
    isPlain_declaration (by decide) (isPlain_length hunit _),
    isPlain_declaration (by decide) hfamily,
    isPlain_declaration (by decide) (isPlain_weight face),
    isPlain_declaration (by decide) (isPlain_slant face), trivial⟩

theorem isPlain_ruleStyle {unit : Text} (hunit : unit.IsPlain) (s : Segment α) (stroke : α) :
    (ruleStyle unit (s.rule stroke)).IsPlain := by
  have hborder : ∀ side : Side, side.border.IsPlain := by
    intro side
    cases side <;> decide
  have hsolid : (length unit stroke ++ lit " solid #000000").IsPlain :=
    Text.isPlain_append.mpr ⟨isPlain_length hunit _, by decide⟩
  simp only [ruleStyle, Text.isPlain_join_cons, Text.isPlain_join_nil]
  refine ⟨isPlain_placement hunit _ _ _, isPlain_declaration (by decide) (isPlain_length hunit _),
    isPlain_declaration (hborder _) hsolid, ?_, trivial⟩
  split
  · refine isPlain_declaration (by decide) ?_
    simp only [Text.isPlain_join_cons, Text.isPlain_join_nil]
    exact ⟨by decide, Decimal.isPlain_thousandths _, by decide, trivial⟩
  · exact Text.isPlain_nil

theorem isPlain_pictureStyle {unit : Text} (hunit : unit.IsPlain) (e : Extent α) :
    (pictureStyle unit e).IsPlain := by
  simp only [pictureStyle, Text.isPlain_join_cons, Text.isPlain_join_nil]
  exact ⟨by decide, isPlain_placement hunit _ _ _,
    isPlain_declaration (by decide) (isPlain_length hunit _), trivial⟩

end Html

/-! ## Boxes -/

/-- A box by what it was drawn from. -/
inductive Box (α : Type)
  | paragraph (run : Run α) (face : Face) (plain : face.family.IsPlain)
  | rule (segment : Segment α) (stroke : α)
  | picture (picture : Picture α)

namespace Box

def html (options : Options α) : Box α → Text
  | paragraph run face _ =>
    Html.paragraph options.unit options.fallbackFamily (run.paragraph options face)
  | rule segment stroke => Html.rule options.unit (segment.rule stroke)
  | picture p => Html.picture options.unit p

def tags (options : Options α) : Box α → List Html.Tag
  | paragraph run face _ =>
    [.opening (lit "div") [(lit "class", lit "p"), (lit "style",
        Html.paragraphStyle options.unit options.fallbackFamily (run.paragraph options face))]]
      ++ run.tags options ++ [.closing (lit "div")]
  | rule segment stroke =>
    [.opening (lit "div") [(lit "class", lit "l"),
        (lit "style", Html.ruleStyle options.unit (segment.rule stroke))],
      .closing (lit "div")]
  | picture p =>
    [.opening (lit "img") [(lit "src", p.source.escapeQuoted),
      (lit "style", Html.pictureStyle options.unit p.extent)]]

end Box

/-! ## Pages and documents -/

/-- A page with its boxes. -/
structure Sheet (α : Type) where
  frame : Page.Frame α
  boxes : List (Box α) := []

namespace Sheet

def style (unit : Text) (frame : Page.Frame α) : Text :=
  (match frame.width, frame.height with
    | some width, some height => join [lit "width:", Html.length unit width, lit "; height:",
        Html.length unit height, lit ";"]
    | _, _ => [])
  ++ lit "overflow:hidden;"

/-- The text of the page while it is open. -/
def opened (options : Options α) (sheet : Sheet α) : Text :=
  Html.pageStart options.unit sheet.frame ++ sheet.boxes.flatMap (Box.html options)

def html (options : Options α) (sheet : Sheet α) : Text := sheet.opened options ++ Html.pageEnd

def tags (options : Options α) (sheet : Sheet α) : List Html.Tag :=
  [.opening (lit "div") [(lit "class", lit "page"),
      (lit "id", lit "page_" ++ Text.ofInt sheet.frame.number),
      (lit "style", style options.unit sheet.frame)]]
    ++ sheet.boxes.flatMap (Box.tags options) ++ [.closing (lit "div")]

/-- The page with one more box. -/
def add (sheet : Sheet α) (box : Box α) : Sheet α := { sheet with boxes := sheet.boxes ++ [box] }

theorem opened_add (options : Options α) (sheet : Sheet α) (box : Box α) :
    (sheet.add box).opened options = sheet.opened options ++ box.html options := by
  simp [opened, add]

end Sheet

namespace Html

/-- The text of a document with those pages. -/
def document (options : Options α) (title : Text) (sheets : List (Sheet α)) : Text :=
  documentStart title ++ sheets.flatMap (Sheet.html options) ++ documentEnd

/-- The tags before the first page. -/
def headTags : List Tag := [
  .opening (lit "!DOCTYPE") [(lit "html", [])], .opening (lit "html") [],
  .opening (lit "head") [], .opening (lit "meta") [(lit "charset", lit "utf-8")],
  .opening (lit "title") [], .closing (lit "title"),
  .opening (lit "style") [(lit "type", lit "text/css")], .closing (lit "style"),
  .closing (lit "head"), .opening (lit "body") []]

/-- The tags after the last page. -/
def tailTags : List Tag := [.closing (lit "body"), .closing (lit "html")]

theorem hasNoAngle_styleSheet : styleSheet.HasNoAngle := by
  unfold styleSheet
  simp only [Text.lit_append, Text.hasNoAngle_append]
  refine ⟨⟨⟨⟨⟨⟨?_, ?_⟩, ?_⟩, ?_⟩, ?_⟩, ?_⟩, ?_⟩
  all_goals exact Text.hasNoAngle_lit (by decide)

theorem reads_documentStart (title : Text) : Reads (documentStart title) headTags := by
  have h₁ : Reads (lit "<!DOCTYPE html>\n<html><head><meta charset=\"utf-8\">\n<title>")
      (headTags.take 5) := .of_lit ⟨by decide, by decide⟩
  have h₂ := Reads.of_hasNoAngle (Text.isPlain_escapeQuoted title).hasNoAngle
  have h₃ : Reads (lit "</title>\n<style type=\"text/css\">\n") ((headTags.drop 5).take 2) :=
    .of_lit ⟨by decide, by decide⟩
  have h₄ : Reads styleSheet [] := .of_hasNoAngle hasNoAngle_styleSheet
  have h₅ : Reads (lit "</style>\n</head>\n<body>\n") (headTags.drop 7) :=
    .of_lit ⟨by decide, by decide⟩
  exact h₁.append (h₂.append (h₃.append (h₄.append (h₅.append .nil))))

theorem reads_documentEnd : Reads documentEnd tailTags := .of_lit ⟨by decide, by decide⟩

theorem reads_pageEnd : Reads pageEnd [.closing (lit "div")] := .of_lit ⟨by decide, by decide⟩

/-- A box is read as its own tags, whatever texts it shows. -/
theorem reads_box {options : Options α} (hunit : options.unit.IsPlain)
    (hfallback : options.fallbackFamily.IsPlain) (hplaceholder : options.placeholder.HasNoAngle)
    (box : Box α) : Reads (box.html options) (box.tags options) := by
  have hword : ∀ {style : Text}, style.IsPlain → ∀ {name value : Text}, IsWord name →
      value.IsPlain → ∀ a ∈ [(name, value), (lit "style", style)], IsWord a.1 ∧ a.2.IsPlain := by
    intro style hstyle name value hname hvalue a ha
    rw [List.mem_cons, List.mem_singleton] at ha
    rcases ha with rfl | rfl
    · exact ⟨hname, hvalue⟩
    · exact ⟨isWord_style, hstyle⟩
  have hclose : Reads (lit "</div>") [.closing (lit "div")] := .of_lit ⟨by decide, by decide⟩
  cases box with
  | paragraph run face hface =>
    have hstyle := isPlain_paragraphStyle hunit hfallback hface options run
    have hopen := Reads.startTag (by decide : IsWord (lit "div"))
      (hword hstyle (by decide : IsWord (lit "class")) (by decide : (lit "p").IsPlain)) (.inl rfl)
    have hbox := (hopen.append (reads_content hunit hplaceholder run)).append hclose
    refine (congrArg (Reads · _) ?_).mpr hbox
    simp only [Box.html, paragraph, startTag, field, join, List.flatMap_cons, List.flatMap_nil,
      List.flatten_cons, List.flatten_nil, List.append_assoc, List.append_nil]
    rfl
  | rule segment stroke =>
    have hopen := Reads.startTag (by decide : IsWord (lit "div"))
      (hword (isPlain_ruleStyle hunit segment stroke) (by decide : IsWord (lit "class"))
        (by decide : (lit "l").IsPlain)) (.inl rfl)
    have hblank : Reads (lit "&nbsp;") [] := .of_lit ⟨by decide, by decide⟩
    refine (congrArg (Reads · _) ?_).mpr (hopen.append (hblank.append hclose))
    simp only [Box.html, rule, startTag, field, join, List.flatMap_cons, List.flatMap_nil,
      List.flatten_cons, List.flatten_nil, List.append_assoc, List.append_nil]
    rfl
  | picture p =>
    have himage := Reads.startTag (by decide : IsWord (lit "img"))
      (hword (isPlain_pictureStyle hunit p.extent) (by decide : IsWord (lit "src"))
        (Text.isPlain_escapeQuoted p.source)) (.inr rfl)
    refine (congrArg (Reads · _) ?_).mpr himage
    simp only [Box.html, Html.picture, startTag, field, join, List.flatMap_cons, List.flatMap_nil,
      List.flatten_cons, List.flatten_nil, List.append_assoc, List.append_nil]
    rfl

theorem reads_pageStart {unit : Text} (hunit : unit.IsPlain) (frame : Page.Frame α) :
    Reads (pageStart unit frame) [.opening (lit "div") [(lit "class", lit "page"),
      (lit "id", lit "page_" ++ Text.ofInt frame.number),
      (lit "style", Sheet.style unit frame)]] := by
  have hstyle : (Sheet.style unit frame).IsPlain := by
    refine Text.isPlain_append.mpr ⟨?_, by decide⟩
    split
    · simp only [Text.isPlain_join_cons, Text.isPlain_join_nil]
      exact ⟨by decide, isPlain_length hunit _, by decide, isPlain_length hunit _, by decide,
        trivial⟩
    · exact Text.isPlain_nil
  have hnumber : (lit "page_" ++ Text.ofInt frame.number).IsPlain :=
    Text.isPlain_append.mpr ⟨by decide, Text.isPlain_ofInt _⟩
  have hattributes : ∀ a ∈ [(lit "class", lit "page"),
      (lit "id", lit "page_" ++ Text.ofInt frame.number), (lit "style", Sheet.style unit frame)],
      IsWord a.1 ∧ a.2.IsPlain := by
    intro a ha
    simp only [List.mem_cons, List.not_mem_nil, or_false] at ha
    rcases ha with rfl | rfl | rfl
    · exact ⟨by decide, by decide⟩
    · exact ⟨(by decide : IsWord (lit "id")), hnumber⟩
    · exact ⟨isWord_style, hstyle⟩
  have hopen := Reads.startTag (by decide : IsWord (lit "div")) hattributes (.inl rfl)
  have hbreak : Reads (lit "\n") [] := .of_lit ⟨by decide, by decide⟩
  refine (congrArg (Reads · _) ?_).mpr (hopen.append hbreak)
  unfold pageStart Sheet.style
  simp only [startTag, field, join, List.flatMap_cons, List.flatMap_nil, List.flatten_cons,
    List.flatten_nil, List.append_assoc, List.append_nil]
  rfl

theorem reads_sheet {options : Options α} (hunit : options.unit.IsPlain)
    (hfallback : options.fallbackFamily.IsPlain) (hplaceholder : options.placeholder.HasNoAngle)
    (sheet : Sheet α) : Reads (sheet.html options) (sheet.tags options) :=
  ((reads_pageStart hunit sheet.frame).append
    (.flatMap fun box _ => reads_box hunit hfallback hplaceholder box)).append reads_pageEnd

/-- A document is read as its head, its pages one after the other and its tail. -/
theorem reads_document {options : Options α} (hunit : options.unit.IsPlain)
    (hfallback : options.fallbackFamily.IsPlain) (hplaceholder : options.placeholder.HasNoAngle)
    (title : Text) (sheets : List (Sheet α)) :
    Reads (document options title sheets)
      (headTags ++ sheets.flatMap (Sheet.tags options) ++ tailTags) :=
  ((reads_documentStart title).append
    (.flatMap fun sheet _ => reads_sheet hunit hfallback hplaceholder sheet)).append
    reads_documentEnd

end Html

end Folio
