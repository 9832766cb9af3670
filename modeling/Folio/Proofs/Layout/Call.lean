import Folio.Layout
import Folio.Proofs.Act
import Folio.Proofs.Path.Steps

/-!
# Driving a layout

What writing does: with an output that takes everything, whatever is written goes to the end of the
text, and nothing but the output and its file changes.

What an operator is put together from is said once (`Parts`, `PictureParts`), so that a property which
passes from steps to what is put together from them holds of every operator when it holds of those
parts. So what an operator keeps follows from what its boxes keep (`SurvivesOperators`).

Then what a caller may do with a layout between the beginning and the end of its document: calls in
any order, each of which may fail. A failed call leaves the layout in the state that it reached, and
the caller goes on from there.
-/

namespace Folio

namespace Output

/-- The output after it has taken a text. -/
def taken (t : Text) (o : Output) : Output := add t { o with attempts := o.attempts + 1 }

/-- The output takes everything. -/
def TakesAll (o : Output) : Prop := ∀ n t, o.refuses n t = none

theorem run_write {o : Output} (h : o.TakesAll) (t : Text) :
    (write t).run o = (.ok (), o.taken t) := by
  rw [write, Act.run_bind_ok (Act.run_get o), Act.run_bind_ok (Act.run_set _ _)]
  simp only [h o.attempts t]
  rfl

@[simp] theorem text_taken (t : Text) (o : Output) : (o.taken t).text = o.text ++ t := by
  simp [taken, text, add, Text.join]

theorem takesAll_taken {o : Output} (h : o.TakesAll) (t : Text) : (o.taken t).TakesAll := h

/-- Settling moves bytes from the output to its file, and no more. -/
theorem settle_eq (o : Output) (tree : FileTree) :
    ∃ file, (o.settle tree).1 = { o with file := file } := by
  unfold settle onFile
  split
  · exact ⟨o.file, rfl⟩
  · exact ⟨_, rfl⟩

@[simp] theorem text_settle (o : Output) (tree : FileTree) : (o.settle tree).1.text = o.text := by
  obtain ⟨file, h⟩ := settle_eq o tree
  rw [h]
  rfl

theorem takesAll_settle {o : Output} (h : o.TakesAll) (tree : FileTree) :
    (o.settle tree).1.TakesAll := by
  obtain ⟨file, hsettle⟩ := settle_eq o tree
  rw [hsettle]
  exact h

end Output

namespace Emitter

theorem run_write {e : Emitter} (h : e.output.TakesAll) (t : Text) :
    (write t).run e = (.ok (), { e with output := e.output.taken t }) := by
  rw [write, Act.run_onPart, Output.run_write h]

theorem run_documentStart {e : Emitter} (h : e.output.TakesAll) (title : Text) :
    (documentStart title).run e
      = (.ok (), { e with output := e.output.taken (Html.documentStart title) }) :=
  run_write h _

theorem run_pageEnd {e : Emitter} (h : e.output.TakesAll) :
    pageEnd.run e
      = (.ok (), { e with output := e.output.taken Html.pageEnd, pageOpen := false }) := by
  rw [pageEnd, Act.run_bind_ok (run_write h _)]
  rfl

/-- With its last page closed, a document needs nothing but its end. -/
theorem run_documentEnd {e : Emitter} (h : e.output.TakesAll) (hclosed : e.pageOpen = false) :
    documentEnd.run e = (.ok (), { e with output := e.output.taken Html.documentEnd }) := by
  obtain ⟨output, unit, pageOpen⟩ := e
  cases hclosed
  rw [documentEnd, Act.run_bind_ok (Act.run_get _)]
  exact run_write h _

variable {α : Type} [Scalar α]

theorem run_pageStart {e : Emitter} (h : e.output.TakesAll) (page : Page.Frame α) :
    (pageStart page).run e
      = (.ok (), { e with output := e.output.taken (Html.pageStart e.unit page),
                          pageOpen := true }) := by
  rw [pageStart, Act.run_bind_ok (Act.run_get e), Act.run_bind_ok (run_write h _)]
  rfl

theorem run_paragraph {e : Emitter} (h : e.output.TakesAll) (fallback : Text) (p : Paragraph α) :
    (paragraph fallback p).run e
      = (.ok (), { e with output := e.output.taken (Html.paragraph e.unit fallback p) }) := by
  rw [paragraph, Act.run_bind_ok (Act.run_get e)]
  exact run_write h _

theorem run_rule {e : Emitter} (h : e.output.TakesAll) (r : Rule α) :
    (rule r).run e = (.ok (), { e with output := e.output.taken (Html.rule e.unit r) }) := by
  rw [rule, Act.run_bind_ok (Act.run_get e)]
  exact run_write h _

theorem run_picture {e : Emitter} (h : e.output.TakesAll) (p : Picture α) :
    (picture p).run e = (.ok (), { e with output := e.output.taken (Html.picture e.unit p) }) := by
  rw [picture, Act.run_bind_ok (Act.run_get e)]
  exact run_write h _

end Emitter

namespace Layout

variable {α : Type}

/-! ## Writing -/

/-- The layout after it has written a text, with a page open or not. -/
def wrote (t : Text) (isOpen : Bool) (l : Layout α) : Layout α :=
  bring Output.settle { l.emitter with output := l.emitter.output.taken t, pageOpen := isOpen } l

section

variable (t : Text) (isOpen : Bool) (l : Layout α)

@[simp] theorem wrote_options : (l.wrote t isOpen).options = l.options := rfl

@[simp] theorem wrote_fonts : (l.wrote t isOpen).fonts = l.fonts := rfl

@[simp] theorem wrote_path : (l.wrote t isOpen).path = l.path := rfl

@[simp] theorem wrote_segmenter : (l.wrote t isOpen).segmenter = l.segmenter := rfl

@[simp] theorem wrote_page : (l.wrote t isOpen).page = l.page := rfl

@[simp] theorem wrote_unit : (l.wrote t isOpen).emitter.unit = l.emitter.unit := rfl

@[simp] theorem wrote_pageOpen : (l.wrote t isOpen).emitter.pageOpen = isOpen := rfl

@[simp] theorem wrote_text :
    (l.wrote t isOpen).emitter.output.text = l.emitter.output.text ++ t := by
  show ((l.emitter.output.taken t).settle l.placer.files).1.text = _
  rw [Output.text_settle, Output.text_taken]

theorem wrote_takesAll (h : l.emitter.output.TakesAll) :
    (l.wrote t isOpen).emitter.output.TakesAll :=
  Output.takesAll_settle (Output.takesAll_taken h t) _

end

theorem run_report (log : Log) (l : Layout α) :
    (report log).run l = (.ok (), { l with log := l.log ++ log }) := rfl

theorem run_emit {act : Act Emitter Unit} {l : Layout α} {t : Text} {isOpen : Bool}
    (h : act.run l.emitter
      = (.ok (), { l.emitter with output := l.emitter.output.taken t, pageOpen := isOpen })) :
    (emit act).run l = (.ok (), l.wrote t isOpen) := by
  rw [emit, Act.run_onPart, h]
  rfl

variable [Scalar α]

theorem run_emit_pageStart {l : Layout α} (h : l.emitter.output.TakesAll) (page : Page.Frame α) :
    (emit (Emitter.pageStart page)).run l
      = (.ok (), l.wrote (Html.pageStart l.emitter.unit page) true) :=
  run_emit (Emitter.run_pageStart h page)

/-- A paragraph that an output takes is written and counted. -/
theorem run_takeParagraph_some {l : Layout α} (h : l.emitter.output.TakesAll) (p : Paragraph α) :
    (takeParagraph (some p)).run l
      = (.ok (),
        { l.wrote (Html.paragraph l.emitter.unit l.options.fallbackFamily p) l.emitter.pageOpen with
          tally := { l.tally with paragraphs := l.tally.paragraphs + 1 } }) := by
  have hemit : (emit (Emitter.paragraph l.options.fallbackFamily p)).run l
      = (.ok (), l.wrote (Html.paragraph l.emitter.unit l.options.fallbackFamily p)
          l.emitter.pageOpen) := run_emit (Emitter.run_paragraph h _ p)
  simp only [takeParagraph, Act.run_tryCatch]
  rw [Act.run_bind_ok (Act.run_get l), Act.run_bind_ok hemit]
  rfl

end Layout

namespace Layout

variable {α : Type} [Scalar α]

/-! ## Operators

What holds of the parts of an operator holds of the whole, if it passes from steps to what is put
together from them. Which parts those are is said once, for whatever is shown of operators. -/

/-- The property holds of what operators do on their way, and of what is put together from steps
that have it. -/
structure Parts (Q : {β : Type} → Act (Layout α) β → Prop) : Prop extends Act.Composes Q where
  /-- Which step comes next may depend on the page. -/
  page : ∀ {β : Type} {g : Layout α → Act (Layout α) β},
    (∀ l m, l.page = m.page → g l = g m) → (∀ l, Q (g l)) → Q (get >>= g)
  report : ∀ log, Q (report log)

/-- The property holds of all that a picture may lead to. -/
structure PictureParts (Q : {β : Type} → Act (Layout α) β → Prop) : Prop extends Parts Q where
  place : ∀ raster page user, Q (place raster page user)
  emit : ∀ p : Picture α, Q (emit (Emitter.picture p))
  drawn : Q (count fun t => { t with pictures := t.pictures + 1 })
  skipped : Q (count fun t => { t with skippedPictures := t.skippedPictures + 1 })
  failed : Q (count fun t => { t with failures := t.failures + 1 })

section

variable {Q : {β : Type} → Act (Layout α) β → Prop}

theorem PictureParts.addPicture (h : PictureParts Q) (raster : Raster) (user : Affine α) :
    Q (addPicture raster user) := by
  refine h.page (fun l m hpage => by rw [hpage]) fun l => ?_
  split
  · exact h.pure _
  · refine h.bind (h.tryCatch (h.map _ (h.place _ _ _)) fun fault => ?_) fun placed => ?_
    · split
      · exact h.bind (h.report _) fun _ => h.bind h.failed fun _ => h.pure _
      · exact h.throw _
    · split
      · exact h.skipped
      · exact h.skipped
      · exact h.bind (h.emit _) fun _ => h.drawn

theorem PictureParts.drawObject (h : PictureParts Q) (op : Operator α) : Q (drawObject op) := by
  refine h.bind (h.ofExcept _) fun found => ?_
  split
  · exact h.pure _
  · split
    · exact h.addPicture _ _
    · exact h.bind (h.report _) fun _ => h.skipped
    · exact h.bind (h.report _) fun _ => h.skipped

/-- Drawing leaves the least stroke as it is. -/
theorem Parts.drawPath (h : Parts Q)
    (hdraw : ∀ f : Path α → Path α, (∀ path, (f path).minStroke = path.minStroke) → Q (draw f))
    {op : Operator α} (hstroke : Q (stroke op)) (page : Page.Frame α) (verb : PathVerb) :
    Q (drawPath page op verb) := by
  cases verb with
  | move | line | curve n | rectangle =>
    refine h.bind (h.ofExcept _) fun values => ?_
    repeat' split
    all_goals first | exact hdraw _ fun path => by simp | exact h.pure _
  | close => exact hdraw _ Path.minStroke_close
  | stroke => exact hstroke
  | closeAndStroke => exact h.bind (hdraw _ Path.minStroke_close) fun _ => hstroke
  | discard => exact hdraw _ Path.minStroke_discard

/-- An operator is a path operator or not, whatever the page. -/
theorem Parts.addOperator (h : Parts Q) {op : Operator α}
    (hpath : ∀ page verb, PathVerb.ofName? op.name = some verb → Q (Layout.drawPath page op verb))
    (hobject : PathVerb.ofName? op.name = none → Q (Layout.drawObject op)) :
    Q (Layout.addOperator op) := by
  refine h.page (fun l m hpage => by rw [hpage]) fun l => ?_
  split
  · exact h.pure _
  · split
    next verb hverb => exact hpath _ verb hverb
    next hverb =>
      split
      · exact hobject hverb
      · exact h.pure _

end

/-! What an operator keeps, whether it succeeds or fails: a property that looks at nothing which
drawing changes, if rules and pictures keep it when they are written. -/

/-- What operators change besides what they write is the path, the placer, the counters and the log;
the least stroke and the count of unsupported fonts stay. -/
structure Drawn (l l' : Layout α) : Prop where
  options : l'.options = l.options
  emitter : l'.emitter = l.emitter
  fonts : l'.fonts = l.fonts
  segmenter : l'.segmenter = l.segmenter
  page : l'.page = l.page
  minStroke : l'.path.minStroke = l.path.minStroke
  unsupportedFonts : l'.tally.unsupportedFonts = l.tally.unsupportedFonts
  placerLog : l.placer.log = [] → l'.placer.log = []

/-- The property is kept by everything that an operator can do but write boxes, and by that too. -/
structure SurvivesOperators (P : Layout α → Prop) : Prop where
  of_drawn : ∀ l l', P l → Drawn l l' → P l'
  rule : ∀ (s : Segment α) width, (emit (Emitter.rule (s.rule width))).Keeps P
  picture : ∀ p : Picture α, (emit (Emitter.picture p)).Keeps P

namespace SurvivesOperators

variable {P : Layout α → Prop}

theorem report (h : SurvivesOperators P) (log : Log) : (Layout.report log).Keeps P :=
  .modify fun _ hl => h.of_drawn _ _ hl ⟨rfl, rfl, rfl, rfl, rfl, rfl, rfl, id⟩

theorem count (h : SurvivesOperators P) {f : Tally → Tally}
    (hf : ∀ t, (f t).unsupportedFonts = t.unsupportedFonts) : (Layout.count f).Keeps P :=
  .modify fun _ hl => h.of_drawn _ _ hl ⟨rfl, rfl, rfl, rfl, rfl, rfl, hf _, id⟩

theorem draw (h : SurvivesOperators P) {f : Path α → Path α}
    (hf : ∀ path, (f path).minStroke = path.minStroke) : (Layout.draw f).Keeps P :=
  .modify fun _ hl => h.of_drawn _ _ hl ⟨rfl, rfl, rfl, rfl, rfl, hf _, rfl, id⟩

theorem takeRules (h : SurvivesOperators P) (width : α) (segments : List (Segment α)) :
    (Layout.takeRules (segments.map (·.rule width))).Keeps P := by
  induction segments with
  | nil => exact .pure _
  | cons s segments ih =>
    rw [List.map_cons, Layout.takeRules]
    -- A rule that is not taken is counted, and the others follow all the same.
    refine Act.Keeps.bind (.tryCatch (.bind (h.rule s width) fun _ => h.count fun _ => rfl)
      fun _ => ?_) fun _ => ih
    exact .bind (h.report _) fun _ => h.count fun _ => rfl

theorem place (h : SurvivesOperators P) (raster : Raster) (page user : Affine α) :
    (Layout.place raster page user).Keeps P :=
  .bind .get fun _ _ hl => h.of_drawn _ _ hl ⟨rfl, rfl, rfl, rfl, rfl, rfl, rfl, fun _ => rfl⟩

theorem stroke (h : SurvivesOperators P) (op : Operator α) : (Layout.stroke op).Keeps P := by
  intro l hl
  rw [Layout.stroke, Act.run_bind_ok (Act.run_get l)]
  simp only [Act.run_bind_ok (Act.run_modify _ l)]
  exact h.takeRules _ l.path.segments _ (h.of_drawn _ _ hl ⟨rfl, rfl, rfl, rfl, rfl, rfl, rfl, id⟩)

theorem pictureParts (h : SurvivesOperators P) : PictureParts fun {_} x => x.Keeps P where
  toComposes := Act.Keeps.composes P
  page _ hg := .bind .get hg
  report := h.report
  place := h.place
  emit := h.picture
  drawn := h.count fun _ => rfl
  skipped := h.count fun _ => rfl
  failed := h.count fun _ => rfl

theorem addPicture (h : SurvivesOperators P) (raster : Raster) (user : Affine α) :
    (Layout.addPicture raster user).Keeps P :=
  h.pictureParts.addPicture raster user

theorem addOperator (h : SurvivesOperators P) (op : Operator α) :
    (Layout.addOperator op).Keeps P :=
  h.pictureParts.addOperator
    (fun page verb _ => h.pictureParts.drawPath (fun _ hf => h.draw hf) (h.stroke op) page verb)
    fun _ => h.pictureParts.drawObject op

end SurvivesOperators

/-! ## Calls -/

/-- What a caller may do between the beginning and the end of the document. -/
inductive Call (α : Type)
  | pageBegin (number : Int) (crop : Option (CropBox α)) (rotation : Angle α)
  | pageEnd
  | resources (found : Option (Catalog α × Nat))
  | glyph (glyph : Glyph α)
  | operator (op : Operator α)
  | picture (raster : Raster) (user : Affine α)

def Call.perform : Call α → Act (Layout α) Unit
  | pageBegin number crop rotation => beginPage number crop rotation
  | pageEnd => endPage
  | resources found => addFonts found
  | glyph g => addGlyph g
  | operator op => addOperator op
  | picture raster user => addPicture raster user

/-- The layout after calls, whichever of them fail. -/
def calls (cs : List (Call α)) (l : Layout α) : Layout α :=
  cs.foldl (fun l c => (c.perform.run l).2) l

/-- The layout after a whole document: its beginning, calls, and its end. -/
def document (title : Option Text) (cs : List (Call α)) (l : Layout α) : Layout α :=
  (endDocument.run (calls cs ((beginDocument title).run l).2)).2

end Layout

end Folio
