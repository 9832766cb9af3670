import Folio.Proofs.Layout.Attempt
import Folio.Proofs.Layout.Passing

/-!
# Histories

Everything that can be asked of a layout, in any order: the beginning and the end of the document as
well as the calls between them. A layout that some history leads to is `Reachable`, whichever of its
requests fail and whichever of its writes are refused.

`Coherent` is what every history keeps. The parts that have taken over some option still hold it, the
count of unsupported fonts is that of the font table, and no page is open in the text without being
open in the layout.
-/

namespace Folio.Layout

variable {α : Type} [Scalar α]

/-- What can be asked of a layout. -/
inductive Request (α : Type)
  | documentBegin (title : Option Text)
  | documentEnd
  | call (c : Call α)

def Request.perform : Request α → Act (Layout α) Unit
  | documentBegin title => beginDocument title
  | documentEnd => endDocument
  | call c => c.perform

/-- The layout after requests, whichever of them fail. -/
def requests (rs : List (Request α)) (l : Layout α) : Layout α :=
  rs.foldl (fun l r => (r.perform.run l).2) l

/-- Some history leads there, with some output and some files to begin with. -/
def Reachable (l : Layout α) : Prop :=
  ∃ options output files first rs, new options output files = .ok first ∧ l = requests rs first

/-- What the parts of a layout have in common between requests. -/
structure Coherent (l : Layout α) : Prop where
  unit : l.emitter.unit = l.options.unit
  minStroke : l.path.minStroke = l.options.minStroke
  segmenter : l.segmenter.options = l.options
  unsupportedFonts : l.tally.unsupportedFonts = l.fonts.unsupportedCount
  placerLog : l.placer.log = []
  pageOpen : l.emitter.pageOpen = true → l.page.isSome = true

theorem coherent_start (options : Options α) (output : Output) (files : FileTree) :
    Coherent (start options output files) :=
  ⟨rfl, rfl, rfl, rfl, rfl, fun h => by cases h⟩

namespace Coherent

variable {l : Layout α}

omit [Scalar α] in
theorem attempted (h : l.Coherent) (t : Text) (isOpen : Bool)
    (hopen : isOpen = true → l.page.isSome = true) : (l.attempted t isOpen).Coherent where
  unit := h.unit
  minStroke := h.minStroke
  segmenter := h.segmenter
  unsupportedFonts := h.unsupportedFonts
  placerLog := h.placerLog
  pageOpen := by
    rw [attempted_pageOpen]
    split
    · exact hopen
    · exact h.pageOpen

omit [Scalar α] in
/-- Only the segmenter's options matter, and the counters but that of unsupported fonts do not. -/
theorem of_eq {l' : Layout α} (h : l.Coherent) (hoptions : l'.options = l.options)
    (hemitter : l'.emitter = l.emitter) (hfonts : l'.fonts = l.fonts)
    (hstroke : l'.path.minStroke = l.path.minStroke)
    (hsegmenter : l'.segmenter.options = l.segmenter.options)
    (hunsupported : l'.tally.unsupportedFonts = l.tally.unsupportedFonts)
    (hlog : l'.placer.log = []) (hpage : l'.page = l.page) : l'.Coherent where
  unit := by rw [hemitter, hoptions, h.unit]
  minStroke := by rw [hstroke, hoptions, h.minStroke]
  segmenter := by rw [hsegmenter, hoptions, h.segmenter]
  unsupportedFonts := by rw [hunsupported, hfonts, h.unsupportedFonts]
  placerLog := hlog
  pageOpen := by
    rw [hemitter, hpage]
    exact h.pageOpen

theorem survivesOperators : SurvivesOperators (Coherent (α := α)) where
  of_drawn _ _ h d := h.of_eq d.options d.emitter d.fonts d.minStroke
    (congrArg Segmenter.options d.segmenter) d.unsupportedFonts (d.placerLog h.placerLog) d.page
  rule := by
    intro s width l h
    rw [run_emit_rule]
    exact h.attempted _ _ h.pageOpen
  picture := by
    intro p l h
    rw [run_emit_picture]
    exact h.attempted _ _ h.pageOpen

theorem tookParagraph (h : l.Coherent) (p : Paragraph α) : (l.tookParagraph p).Coherent := by
  have hwritten := h.attempted (l.paragraphHtml p) _ h.pageOpen
  refine hwritten.of_eq rfl rfl rfl rfl ?_ rfl hwritten.placerLog rfl
  exact (apply_ite Segmenter.options _ _ _).trans (ite_self _)

theorem keeps_takeParagraph (out : Option (Paragraph α)) :
    (takeParagraph out).Keeps (Coherent (α := α)) := by
  intro l h
  rw [run_takeParagraph]
  cases out with
  | none => exact h
  | some p => exact h.tookParagraph p

omit [Scalar α] in
theorem keeps_finishPage : (finishPage : Act (Layout α) Unit).Keeps Coherent := by
  intro l h
  have hdiscarded : ({ l with path := l.path.discard } : Layout α).Coherent :=
    h.of_eq rfl rfl rfl rfl rfl rfl h.placerLog rfl
  rw [run_finishPage]
  cases hanswer : l.emitter.output.answer Html.pageEnd with
  | error e => exact hdiscarded.attempted _ _ fun hopen => by cases hopen
  | ok =>
    -- The page is no longer open in the text either.
    have haccepted := Output.answer_eq_ok_iff.mp hanswer
    have hwritten := hdiscarded.attempted Html.pageEnd false fun hopen => by cases hopen
    refine ⟨hwritten.unit, hwritten.minStroke, hwritten.segmenter, hwritten.unsupportedFonts,
      hwritten.placerLog, fun hopen => ?_⟩
    have hclosed : l.finished.emitter.pageOpen = false := by
      show (if l.emitter.output.accepts Html.pageEnd then false else _) = false
      rw [if_pos haccepted]
    rw [hclosed] at hopen
    cases hopen

theorem keeps_endPage : (endPage : Act (Layout α) Unit).Keeps Coherent := by
  intro l h
  cases hpage : l.page with
  | none =>
    rw [run_endPage_of_none hpage]
    exact h
  | some page =>
    rw [run_endPage_of_page hpage]
    have hheld : ({ l with segmenter := l.segmenter.endPage.1 } : Layout α).Coherent :=
      h.of_eq rfl rfl rfl rfl (Segmenter.options_flush l.segmenter) rfl h.placerLog rfl
    exact keeps_finishPage _ (keeps_takeParagraph _ _ hheld)

end Coherent

/-- A page that has been ended is no longer there. -/
theorem page_of_run_endPage {l l' : Layout α} (h : endPage.run l = (.ok (), l')) :
    l'.page = none := by
  cases hpage : l.page with
  | none =>
    rw [run_endPage_of_none hpage] at h
    cases h
    exact hpage
  | some page =>
    rw [run_endPage_of_page hpage, run_finishPage] at h
    split at h
    · cases h
      rfl
    · cases h

theorem page_of_run_endForgottenPage {l l' : Layout α} {number : Int}
    (h : (endForgottenPage number).run l = (.ok (), l')) : l'.page = none := by
  rw [endForgottenPage, Act.run_bind_ok (Act.run_get l)] at h
  cases hpage : l.page with
  | none =>
    rw [hpage] at h
    cases h
    exact hpage
  | some page =>
    rw [hpage] at h
    simp only [Act.run_bind_ok (run_report _ l)] at h
    exact page_of_run_endPage h

/-! ## Beginning a page -/

/-- The layout on a page that has just begun, before its start has been written. -/
def onto (page : Page.Frame α) (l : Layout α) : Layout α :=
  { l with
    page := some page
    path := l.path.reset page.transform
    segmenter := l.segmenter.beginPage page.width }

/-- Without a page before it, a page begins unless its rotation is refused. -/
theorem run_beginPage_of_none {l : Layout α} (hpage : l.page = none) (number : Int)
    (crop : Option (CropBox α)) (rotation : Angle α) :
    (beginPage number crop rotation).run l = match rotation.rotation with
      | .error e => (.error e, l)
      | .ok (turn, warning) =>
        (emit (Emitter.pageStart (Page.frame number crop turn))).run
          (onto (Page.frame number crop turn)
            { l with log := l.log ++ (warning.map Log.warning).getD [] }) := by
  have hended : (endForgottenPage number).run l = (.ok (), l) := by
    rw [endForgottenPage, Act.run_bind_ok (Act.run_get l), hpage]
    rfl
  rw [beginPage, Act.run_bind_ok hended, Act.run_bind, Act.run_ofExcept]
  cases rotation.rotation with
  | error e => rfl
  | ok turn => rfl

/-- A page begins with the end of the page before it. -/
theorem run_beginPage (number : Int) (crop : Option (CropBox α)) (rotation : Angle α)
    (l : Layout α) :
    (beginPage number crop rotation).run l = match (endForgottenPage number).run l with
      | (.error e, l') => (.error e, l')
      | (.ok _, l') => (beginPage number crop rotation).run l' := by
  rcases hended : (endForgottenPage number).run l with ⟨e | _, l'⟩
  · rw [beginPage, Act.run_bind_error hended]
  · have hpage := page_of_run_endForgottenPage hended
    have hidle : (endForgottenPage number).run l' = (.ok (), l') := by
      rw [endForgottenPage, Act.run_bind_ok (Act.run_get l'), hpage]
      rfl
    show (beginPage number crop rotation).run l = (beginPage number crop rotation).run l'
    rw [beginPage, Act.run_bind_ok hended, Act.run_bind_ok hidle]

/-- What is kept by reports, by the end of a page and by its beginning without one is kept by every
beginning. -/
theorem keeps_beginPage_of {P : Layout α → Prop} (hreport : ∀ log, (report log).Keeps P)
    (hend : endPage.Keeps P) (number : Int) (crop : Option (CropBox α)) (rotation : Angle α)
    (hbegin : ∀ page l, P l → l.page = none →
      P ((emit (Emitter.pageStart page)).run (onto page l)).2) :
    (beginPage number crop rotation).Keeps P := by
  have hforgotten : (endForgottenPage number).Keeps P := by
    refine .bind .get fun l => ?_
    split
    · exact .pure _
    · exact .bind (hreport _) fun _ => hend
  intro l h
  have hended := hforgotten l h
  rw [run_beginPage]
  rcases hrun : (endForgottenPage number).run l with ⟨e | _, l'⟩
  · rw [hrun] at hended
    exact hended
  · have hpage := page_of_run_endForgottenPage hrun
    rw [hrun] at hended
    simp only
    rw [run_beginPage_of_none hpage]
    cases rotation.rotation with
    | error e => exact hended
    | ok turn => exact hbegin _ _ (hreport _ _ hended) hpage

namespace Coherent

theorem keeps_beginPage (number : Int) (crop : Option (CropBox α)) (rotation : Angle α) :
    (beginPage number crop rotation).Keeps (Coherent (α := α)) := by
  refine keeps_beginPage_of (fun log => survivesOperators.report log) keeps_endPage number crop
    rotation fun page l h hpage => ?_
  have honto : (onto page l).Coherent := by
    refine ⟨h.unit, h.minStroke, h.segmenter, h.unsupportedFonts, h.placerLog, fun _ => rfl⟩
  rw [run_emit_pageStart_eq]
  exact honto.attempted _ _ fun _ => rfl

omit [Scalar α] in
theorem keeps_addFonts (found : Option (Catalog α × Nat)) :
    (addFonts found).Keeps (Coherent (α := α)) := by
  intro l h
  cases found with
  | none => exact ⟨h.unit, h.minStroke, h.segmenter, rfl, h.placerLog, h.pageOpen⟩
  | some found =>
    obtain ⟨catalog, index⟩ := found
    rw [addFonts, Act.run_bind_ok (Act.run_get l)]
    rcases l.fonts.update catalog index with ⟨fonts, log⟩
    exact ⟨h.unit, h.minStroke, h.segmenter, rfl, h.placerLog, h.pageOpen⟩

theorem keeps_addGlyph (glyph : Glyph α) : (addGlyph glyph).Keeps (Coherent (α := α)) := by
  intro l h
  cases hpage : l.page with
  | none =>
    rw [addGlyph, Act.run_bind_ok (Act.run_get l), hpage]
    exact h
  | some page =>
    rw [run_addGlyph_of_page hpage]
    cases hfeed : l.segmenter.feed l.fonts glyph with
    | error e => exact h
    | ok answer =>
      exact keeps_takeParagraph _ _
        (h.of_eq rfl rfl rfl rfl (Segmenter.options_and_previous_of_feed hfeed).1 rfl h.placerLog rfl)

/-- With its page ended, a layout has none open in the text either. -/
theorem afterEndPage {l l' : Layout α} (h : l.Coherent) (hrun : endPage.run l = (.ok (), l')) :
    l'.Coherent ∧ l'.emitter.pageOpen = false := by
  have hended := keeps_endPage l h
  rw [hrun] at hended
  refine ⟨hended, ?_⟩
  rw [← Bool.not_eq_true]
  intro hopen
  have hsome := hended.pageOpen hopen
  rw [page_of_run_endPage hrun] at hsome
  cases hsome

theorem keeps_endDocument : (endDocument : Act (Layout α) Unit).Keeps Coherent := by
  intro l h
  rw [endDocument]
  rcases hrun : endPage.run l with ⟨e | _, l'⟩
  · have hended := keeps_endPage l h
    rw [hrun] at hended
    rw [Act.run_bind_error hrun]
    exact hended
  · obtain ⟨hended, hclosed⟩ := h.afterEndPage hrun
    have hwritten := hended.attempted Html.documentEnd false fun hopen => by cases hopen
    rw [Act.run_bind_ok hrun, Act.run_bind, run_emit_documentEnd hclosed]
    cases l'.emitter.output.answer Html.documentEnd with
    | error e => exact hwritten
    | ok =>
      exact ⟨hwritten.unit, hwritten.minStroke, hwritten.segmenter, rfl, hwritten.placerLog,
        hwritten.pageOpen⟩

/-- Every request keeps the parts together, whether it succeeds or fails. -/
theorem keeps_perform (r : Request α) : r.perform.Keeps (Coherent (α := α)) := by
  cases r with
  | documentBegin title =>
    intro l h
    rw [Request.perform, beginDocument, run_emit_documentStart]
    exact h.attempted _ _ h.pageOpen
  | documentEnd => exact keeps_endDocument
  | call c =>
    cases c with
    | pageBegin number crop rotation => exact keeps_beginPage number crop rotation
    | pageEnd => exact keeps_endPage
    | resources found => exact keeps_addFonts found
    | glyph g => exact keeps_addGlyph g
    | operator op => exact survivesOperators.addOperator op
    | picture raster user => exact survivesOperators.addPicture raster user

theorem requests {l : Layout α} (h : l.Coherent) (rs : List (Request α)) :
    (requests rs l).Coherent := by
  induction rs generalizing l with
  | nil => exact h
  | cons r rs ih => exact ih (keeps_perform r l h)

end Coherent

theorem Reachable.coherent {l : Layout α} (h : l.Reachable) : l.Coherent := by
  obtain ⟨options, output, files, first, rs, hfirst, rfl⟩ := h
  rw [new] at hfirst
  cases hcheck : options.check with
  | error e =>
    rw [hcheck] at hfirst
    cases hfirst
  | ok =>
    rw [hcheck] at hfirst
    cases hfirst
    exact (coherent_start options output files).requests rs

end Folio.Layout
