import Folio.Proofs.Html.Sheet
import Folio.Proofs.Layout.Call
import Folio.Proofs.Paragraph.Conservation
import Folio.Proofs.Scalar.Rational

/-!
# Every document is well formed

Whatever calls are made between the beginning and the end of a document, in whatever order and
however many of them fail, the text is the head, pages one after the other, and the tail
(`document_wellFormed`). Each page is opened once and closed once, before the next one is opened,
and holds nothing but its boxes; what is read as a tag is one of those that `Html.reads_document`
lists, and none comes from a text that the document shows.

The invariant is `Laid`: the text so far is that of finished sheets and, while there is a page, of
one more that is still open. It is kept by every call. What the segmenter holds back is part of it,
because its paragraph is written later, at the latest when the page ends.
-/

namespace Folio

open Text (lit)

variable {α : Type} [Scalar α]

/-! ## What the segmenter hands out -/

namespace Segmenter

/-- On a page, the segmenter holds nothing back or a run with a plain family. -/
def Ready (s : Segmenter α) : Prop :=
  s.Fresh ∨ ∃ r face, face.family.IsPlain ∧ s.Holds r face

/-- What is handed out is the paragraph of a run with a plain family. -/
def Handed (options : Options α) (out : Option (Paragraph α)) : Prop :=
  ∀ p, out = some p → ∃ r face, face.family.IsPlain ∧ p = Run.paragraph options face r

theorem handed_none (options : Options α) : Handed options none := fun _ h => by cases h

theorem handed_paragraph? (options : Options α) {face : Face} (hface : face.family.IsPlain)
    (r : Run α) : Handed options (r.paragraph? options face) := by
  intro p hp
  unfold Run.paragraph? at hp
  split at hp
  · cases hp
  · exact ⟨r, face, hface, (Option.some.inj hp).symm⟩

theorem Ready.endPage {s : Segmenter α} (h : s.Ready) :
    Handed s.options s.endPage.2 ∧ s.endPage.1.options = s.options := by
  rcases h with h | ⟨r, face, hface, h⟩
  · have hout : s.endPage.2 = none := flush_of_fresh h
    refine ⟨hout ▸ handed_none _, ?_⟩
    simp [Segmenter.endPage, flush, reset, h.buffer, ParagraphBuffer.isEmpty, ParagraphBuffer.empty]
  · obtain ⟨hout, -, hoptions, -⟩ := flush_of_holds h
    have hout' : s.endPage.2 = r.paragraph? s.options face := hout
    exact ⟨hout' ▸ handed_paragraph? _ hface r, hoptions⟩

theorem ready_endPage (s : Segmenter α) : s.endPage.1.Ready := .inl ⟨rfl, rfl⟩

theorem ready_beginPage (s : Segmenter α) (width : Option α) : (s.beginPage width).Ready :=
  .inl (fresh_beginPage s width)

theorem Ready.feed {s s' : Segmenter α} (h : s.Ready) {fonts : FontTable α}
    (hlabels : fonts.HasPlainLabels) (hfallback : fonts.fallback.IsPlain) {glyph : Glyph α}
    {out : Option (Paragraph α)} (hfeed : s.feed fonts glyph = .ok (s', out)) :
    s'.options = s.options ∧ s'.Ready ∧ Handed s.options out := by
  have hface := FontTable.isPlain_face hlabels hfallback glyph.font
  rcases h with h | ⟨r, face, hplain, h⟩
  · obtain ⟨s₁, hfirst, hoptions, hholds⟩ := feed_of_fresh h fonts glyph
    rw [hfirst] at hfeed
    cases hfeed
    exact ⟨hoptions, .inr ⟨_, _, hface, hholds⟩, handed_none _⟩
  · obtain ⟨hoptions, hjoin⟩ := feed_of_holds h hfeed
    rcases hjoin with ⟨rfl, hholds⟩ | ⟨rfl, hholds⟩
    · exact ⟨hoptions, .inr ⟨_, _, hface, hholds⟩, handed_none _⟩
    · exact ⟨hoptions, .inr ⟨_, _, hface, hholds⟩, handed_paragraph? _ hplain r⟩

end Segmenter

namespace Layout

/-! ## The invariant -/

/-- The text is `before`, then that of the sheets and, while there is a page, of one more that is
still open. -/
structure Laid (options : Options α) (before : Text) (sheets : List (Sheet α))
    (current : Option (Sheet α)) (l : Layout α) : Prop where
  sameOptions : l.options = options
  unit : l.emitter.unit = options.unit
  takesAll : l.emitter.output.TakesAll
  fallback : l.fonts.fallback = options.fallbackFamily
  labels : l.fonts.HasPlainLabels
  segmenterOptions : l.segmenter.options = options
  ready : current.isSome → l.segmenter.Ready
  page : l.page = current.map (·.frame)
  pageOpen : l.emitter.pageOpen = current.isSome
  text : l.emitter.output.text = before ++ sheets.flatMap (Sheet.html options)
    ++ (current.map (Sheet.opened options)).getD []

/-- The layout is in the middle of a page. -/
def OnPage (options : Options α) (before : Text) (l : Layout α) : Prop :=
  ∃ sheets sheet, Laid options before sheets (some sheet) l

/-- The layout is in the middle of a document. -/
def InDocument (options : Options α) (before : Text) (l : Layout α) : Prop :=
  ∃ sheets current, Laid options before sheets current l

variable {options : Options α} {before : Text} {sheets : List (Sheet α)}
  {current : Option (Sheet α)} {sheet : Sheet α} {l : Layout α}

/-- The path, the placer, the counters and the log have no part in the invariant. -/
theorem Laid.of_eq {l' : Layout α} (h : Laid options before sheets current l)
    (hoptions : l'.options = l.options) (hemitter : l'.emitter = l.emitter)
    (hfonts : l'.fonts = l.fonts) (hsegmenter : l'.segmenter = l.segmenter)
    (hpage : l'.page = l.page) : Laid options before sheets current l' := by
  obtain ⟨h₁, h₂, h₃, h₄, h₅, h₆, h₇, h₈, h₉, h₁₀⟩ := h
  constructor <;> simp only [hoptions, hemitter, hfonts, hsegmenter, hpage] <;> assumption

theorem OnPage.of_eq {l' : Layout α} (h : OnPage options before l)
    (hoptions : l'.options = l.options) (hemitter : l'.emitter = l.emitter)
    (hfonts : l'.fonts = l.fonts) (hsegmenter : l'.segmenter = l.segmenter)
    (hpage : l'.page = l.page) : OnPage options before l' := by
  obtain ⟨sheets, sheet, h⟩ := h
  exact ⟨sheets, sheet, h.of_eq hoptions hemitter hfonts hsegmenter hpage⟩

/-- A box that is written goes to the end of the open sheet. -/
theorem Laid.wrote_box (h : Laid options before sheets (some sheet) l) (box : Box α) :
    Laid options before sheets (some (sheet.add box))
      (l.wrote (box.html options) l.emitter.pageOpen) where
  sameOptions := h.sameOptions
  unit := h.unit
  takesAll := wrote_takesAll _ _ _ h.takesAll
  fallback := h.fallback
  labels := h.labels
  segmenterOptions := h.segmenterOptions
  ready _ := h.ready rfl
  page := h.page
  pageOpen := h.pageOpen
  text := by
    rw [wrote_text, h.text]
    simp [Sheet.opened_add]

/-- Closing the page finishes its sheet. -/
theorem Laid.wrote_pageEnd (h : Laid options before sheets (some sheet) l) :
    Laid options before (sheets ++ [sheet]) none
      { l.wrote Html.pageEnd false with page := none } where
  sameOptions := h.sameOptions
  unit := h.unit
  takesAll := wrote_takesAll _ _ _ h.takesAll
  fallback := h.fallback
  labels := h.labels
  segmenterOptions := h.segmenterOptions
  ready := fun hnone => by cases hnone
  page := rfl
  pageOpen := rfl
  text := by
    show (l.wrote Html.pageEnd false).emitter.output.text = _
    rw [wrote_text, h.text]
    simp [Sheet.html]

/-! ## Boxes -/

/-- A paragraph that the segmenter handed out becomes a box. -/
theorem Laid.takeParagraph (h : Laid options before sheets (some sheet) l)
    {out : Option (Paragraph α)} (hout : Segmenter.Handed options out) :
    ∃ boxes, Laid options before sheets (some ⟨sheet.frame, boxes⟩)
      ((Layout.takeParagraph out).run l).2
      ∧ ((Layout.takeParagraph out).run l).1 = .ok () := by
  cases out with
  | none => exact ⟨sheet.boxes, h, rfl⟩
  | some p =>
    obtain ⟨r, face, hface, rfl⟩ := hout p rfl
    rw [run_takeParagraph_some h.takesAll, h.unit, h.sameOptions]
    exact ⟨_, (h.wrote_box (.paragraph r face hface)).of_eq rfl rfl rfl rfl rfl, rfl⟩

/-- Rules and pictures become boxes. -/
theorem survivesOperators_onPage : SurvivesOperators (OnPage (α := α) options before) where
  of_drawn := fun _ _ h d => h.of_eq d.options d.emitter d.fonts d.segmenter d.page
  rule := by
    rintro s width l ⟨sheets, sheet, h⟩
    rw [run_emit (Emitter.run_rule h.takesAll (s.rule width)), h.unit]
    exact ⟨sheets, _, h.wrote_box (.rule s width)⟩
  picture := by
    rintro p l ⟨sheets, sheet, h⟩
    rw [run_emit (Emitter.run_picture h.takesAll p), h.unit]
    exact ⟨sheets, _, h.wrote_box (.picture p)⟩

/-! ## Every call -/

/-- A glyph goes to the segmenter, and the paragraph that it finishes becomes a box. -/
theorem keeps_addGlyph (hfallback : options.fallbackFamily.IsPlain) (glyph : Glyph α) :
    (addGlyph glyph).Keeps (OnPage options before) := by
  rintro l ⟨sheets, sheet, h⟩
  have hpage : l.page.isNone = false := by rw [h.page]; rfl
  rw [addGlyph, Act.run_bind_ok (Act.run_get l), hpage, if_neg Bool.false_ne_true]
  cases hfeed : l.segmenter.feed l.fonts glyph with
  | error e =>
    rw [Act.run_bind_error (Act.run_ofExcept _ l)]
    exact ⟨sheets, sheet, h⟩
  | ok answer =>
    obtain ⟨s, out⟩ := answer
    rw [Act.run_bind_ok (Act.run_ofExcept _ l), Act.run_bind_ok (Act.run_set _ l)]
    obtain ⟨hoptions, hready, hout⟩ :=
      (h.ready rfl).feed h.labels (h.fallback ▸ hfallback) hfeed
    -- The segmenter has changed already when the finished paragraph is written.
    have hnext : Laid options before sheets (some sheet) { l with segmenter := s } :=
      { h with
        segmenterOptions := hoptions.trans h.segmenterOptions
        ready := fun _ => hready }
    obtain ⟨boxes, hlaid, -⟩ := hnext.takeParagraph (h.segmenterOptions ▸ hout)
    exact ⟨sheets, _, hlaid⟩

/-- A page that ends becomes a sheet, and ending it always succeeds. -/
theorem Laid.endPage (h : Laid options before sheets current l) :
    ∃ sheets', Laid options before sheets' none (Layout.endPage.run l).2
      ∧ (Layout.endPage.run l).1 = .ok () := by
  cases current with
  | none =>
    have hpage : l.page.isNone = true := by rw [h.page]; rfl
    rw [Layout.endPage, Act.run_bind_ok (Act.run_get l), hpage, if_pos rfl]
    exact ⟨sheets, h, rfl⟩
  | some sheet =>
    have hpage : l.page.isNone = false := by rw [h.page]; rfl
    obtain ⟨hout, hoptions⟩ := (h.ready rfl).endPage
    have hready := Segmenter.ready_endPage l.segmenter
    rcases hend : l.segmenter.endPage with ⟨s, out⟩
    rw [hend] at hout hoptions hready
    -- What the segmenter held back is written first, then the page is closed.
    have hidle : Laid options before sheets (some sheet) { l with segmenter := s } :=
      { h with
        segmenterOptions := hoptions.trans h.segmenterOptions
        ready := fun _ => hready }
    obtain ⟨boxes, hlaid, hok⟩ := hidle.takeParagraph (h.segmenterOptions ▸ hout)
    rcases htake : (Layout.takeParagraph out).run { l with segmenter := s } with ⟨answer, l₂⟩
    rw [htake] at hlaid hok
    cases hok
    have hdiscard : Laid options before sheets (some ⟨sheet.frame, boxes⟩)
        { l₂ with path := l₂.path.discard } := hlaid.of_eq rfl rfl rfl rfl rfl
    rw [Layout.endPage, Act.run_bind_ok (Act.run_get l), hpage, if_neg Bool.false_ne_true,
      Act.run_bind_ok (Act.run_get l), hend]
    rw [Act.run_bind_ok (Act.run_modify _ l), Act.run_bind_ok htake,
      Act.run_bind_ok (Act.run_modify _ l₂),
      Act.run_bind_ok (run_emit (Emitter.run_pageEnd hdiscard.takesAll))]
    exact ⟨_, hdiscard.wrote_pageEnd.of_eq rfl rfl rfl rfl rfl, rfl⟩

theorem keeps_endPage : Layout.endPage.Keeps (InDocument options before) := by
  rintro l ⟨sheets, current, h⟩
  obtain ⟨sheets', h', -⟩ := h.endPage
  exact ⟨sheets', none, h'⟩

/-- A page that begins is a sheet without boxes. -/
theorem Laid.wrote_pageStart {l' : Layout α} (h : Laid options before sheets none l)
    (hoptions : l'.options = l.options) (hemitter : l'.emitter = l.emitter)
    (hfonts : l'.fonts = l.fonts) (hsegmenter : l'.segmenter.options = options)
    (hready : l'.segmenter.Ready) {page : Page.Frame α} (hpage : l'.page = some page) :
    Laid options before sheets (some ⟨page, []⟩)
      (l'.wrote (Html.pageStart l'.emitter.unit page) true) where
  sameOptions := hoptions.trans h.sameOptions
  unit := (congrArg Emitter.unit hemitter).trans h.unit
  takesAll := wrote_takesAll _ _ _ (hemitter ▸ h.takesAll)
  fallback := (congrArg FontTable.fallback hfonts).trans h.fallback
  labels := by
    rw [wrote_fonts, hfonts]
    exact h.labels
  segmenterOptions := hsegmenter
  ready _ := hready
  page := hpage
  pageOpen := rfl
  text := by
    rw [wrote_text, hemitter, h.text, h.unit]
    simp [Sheet.opened]

/-- Whichever page is open when another one begins is ended first. -/
theorem Laid.endForgottenPage (h : Laid options before sheets current l) (number : Int) :
    ∃ sheets', Laid options before sheets' none ((Layout.endForgottenPage number).run l).2
      ∧ ((Layout.endForgottenPage number).run l).1 = .ok () := by
  rw [Layout.endForgottenPage, Act.run_bind_ok (Act.run_get l)]
  cases hpage : l.page with
  | none =>
    have hcurrent : current = none := by
      have hmap := h.page
      rw [hpage] at hmap
      exact Option.map_eq_none_iff.mp hmap.symm
    subst hcurrent
    exact ⟨sheets, h, rfl⟩
  | some page =>
    simp only [Act.run_bind_ok (run_report _ l)]
    exact Laid.endPage (h.of_eq rfl rfl rfl rfl rfl)

theorem keeps_beginPage (number : Int) (crop : Option (CropBox α)) (rotation : Angle α) :
    (beginPage number crop rotation).Keeps (InDocument options before) := by
  rintro l ⟨sheets, current, h⟩
  -- With the page before it ended, a page that cannot begin leaves no page open.
  obtain ⟨sheets', hended, hok⟩ := h.endForgottenPage number
  rcases hend : (Layout.endForgottenPage number).run l with ⟨answer, l₁⟩
  rw [hend] at hended hok
  cases hok
  rw [beginPage, Act.run_bind_ok hend]
  cases hturn : rotation.rotation with
  | error e =>
    rw [Act.run_bind_error (Act.run_ofExcept _ l₁)]
    exact ⟨sheets', none, hended⟩
  | ok turn =>
    obtain ⟨turn, warning⟩ := turn
    rw [Act.run_bind_ok (Act.run_ofExcept _ l₁)]
    simp only [Act.run_bind_ok (run_report _ _), Act.run_bind_ok (Act.run_modify _ _)]
    rw [run_emit_pageStart]
    · refine ⟨sheets', _, hended.wrote_pageStart ?_ ?_ ?_ ?_ ?_ ?_⟩
      · rfl
      · rfl
      · rfl
      · exact hended.segmenterOptions
      · exact Segmenter.ready_beginPage _ _
      · rfl
    · exact hended.takesAll

/-- The fonts of a page get plain labels. -/
theorem keeps_addFonts (found : Option (Catalog α × Nat)) :
    (addFonts found).Keeps (InDocument options before) := by
  have hcount : (countFonts : Act (Layout α) Unit).Keeps (InDocument options before) := by
    refine .modify ?_
    rintro l ⟨sheets, current, h⟩
    exact ⟨sheets, current, h.of_eq rfl rfl rfl rfl rfl⟩
  cases found with
  | none => exact hcount
  | some found =>
    obtain ⟨catalog, index⟩ := found
    rintro l ⟨sheets, current, h⟩
    rw [addFonts, Act.run_bind_ok (Act.run_get l)]
    rcases hupdate : l.fonts.update catalog index with ⟨fonts, log⟩
    simp only [Act.run_bind_ok (Act.run_modify _ _), Act.run_bind_ok (run_report _ _)]
    refine hcount _ ⟨sheets, current, ?_⟩
    -- Fonts that were entered before keep their labels, so those of earlier pages stay plain.
    have hfonts : (l.fonts.addAll (catalog.reachableFonts index)).1 = fonts :=
      congrArg Prod.fst hupdate
    subst hfonts
    exact { h with
      fallback := (FontTable.fallback_addAll _ _).trans h.fallback
      labels := FontTable.hasPlainLabels_addAll _ h.labels }

/-- Whatever needs a page does nothing without one. -/
theorem Keeps.inDocument {act : Act (Layout α) Unit} (hpage : act.Keeps (OnPage options before))
    (hnone : ∀ l, l.page = none → (act.run l).2 = l) : act.Keeps (InDocument options before) := by
  rintro l ⟨sheets, current, h⟩
  cases current with
  | none =>
    rw [hnone l h.page]
    exact ⟨sheets, none, h⟩
  | some sheet =>
    obtain ⟨sheets', sheet', h'⟩ := hpage l ⟨sheets, sheet, h⟩
    exact ⟨sheets', some sheet', h'⟩

/-- Every call keeps the invariant, whether it succeeds or fails. -/
theorem keeps_perform (hfallback : options.fallbackFamily.IsPlain) (c : Call α) :
    c.perform.Keeps (InDocument options before) := by
  cases c with
  | pageBegin number crop rotation => exact keeps_beginPage number crop rotation
  | pageEnd => exact keeps_endPage
  | resources found => exact keeps_addFonts found
  | glyph g =>
    refine Keeps.inDocument (keeps_addGlyph hfallback g) fun l hl => ?_
    show ((addGlyph g).run l).2 = l
    rw [addGlyph, Act.run_bind_ok (Act.run_get l), hl]
    rfl
  | operator op =>
    refine Keeps.inDocument (survivesOperators_onPage.addOperator op) fun l hl => ?_
    show ((addOperator op).run l).2 = l
    rw [addOperator, Act.run_bind_ok (Act.run_get l), hl]
    rfl
  | picture raster user =>
    refine Keeps.inDocument (survivesOperators_onPage.addPicture raster user) fun l hl => ?_
    show ((addPicture raster user).run l).2 = l
    rw [addPicture, Act.run_bind_ok (Act.run_get l), hl]
    rfl

/-- So do any calls one after the other. -/
theorem inDocument_calls (hfallback : options.fallbackFamily.IsPlain) (cs : List (Call α)) :
    ∀ l : Layout α, InDocument options before l → InDocument options before (calls cs l) := by
  induction cs with
  | nil => intro l h; exact h
  | cons c cs ih => intro l h; exact ih _ (keeps_perform hfallback c l h)

/-! ## Documents -/

/-- A document that has begun is its head, with no page open. -/
theorem laid_beginDocument (options : Options α) {output : Output} (houtput : output.TakesAll)
    (files : FileTree) (title : Option Text) :
    Laid options (output.text ++ Html.documentStart (title.getD [])) [] none
      ((beginDocument title).run (start options output files)).2 := by
  have hemit : (emit (Emitter.documentStart (title.getD []))).run (start options output files)
      = (.ok (), wrote (Html.documentStart (title.getD [])) false (start options output files)) :=
    run_emit (Emitter.run_documentStart houtput _)
  rw [beginDocument, hemit]
  refine ⟨rfl, rfl, wrote_takesAll _ _ _ houtput, rfl, ?_, rfl, ?_, rfl, rfl, ?_⟩
  · intro label hlabel
    exact absurd hlabel List.not_mem_nil
  · intro hnone
    cases hnone
  · rw [wrote_text]
    simp [start]

/-- A document that ends has its last page ended and its tail written. -/
theorem text_endDocument (h : InDocument options before l) :
    ∃ sheets : List (Sheet α), (endDocument.run l).2.emitter.output.text
      = before ++ sheets.flatMap (Sheet.html options) ++ Html.documentEnd := by
  obtain ⟨sheets, current, h⟩ := h
  obtain ⟨sheets', hended, hok⟩ := h.endPage
  rcases hend : Layout.endPage.run l with ⟨answer, l₁⟩
  rw [hend] at hended hok
  cases hok
  rw [endDocument, Act.run_bind_ok hend,
    Act.run_bind_ok (run_emit (Emitter.run_documentEnd hended.takesAll hended.pageOpen))]
  refine ⟨sheets', ?_⟩
  show (wrote Html.documentEnd l₁.emitter.pageOpen l₁).emitter.output.text = _
  rw [wrote_text, hended.text]
  simp

/-- Whatever calls make up a document, its text is that of sheets between the head and the tail, and
is read as their tags and no others. -/
theorem document_wellFormed {options : Options α} (hunit : options.unit.IsPlain)
    (hfallback : options.fallbackFamily.IsPlain) (hplaceholder : options.placeholder.IsPlain)
    {output : Output} (houtput : output.TakesAll) (files : FileTree) (title : Option Text)
    (cs : List (Call α)) :
    ∃ sheets : List (Sheet α),
      (document title cs (start options output files)).emitter.output.text
          = output.text ++ Html.document options (title.getD []) sheets
        ∧ Html.Reads (Html.document options (title.getD []) sheets)
          (Html.headTags ++ sheets.flatMap (Sheet.tags options) ++ Html.tailTags) := by
  have hbegun := laid_beginDocument options houtput files title
  have hcalled := inDocument_calls hfallback cs _ ⟨[], none, hbegun⟩
  obtain ⟨sheets, htext⟩ := text_endDocument hcalled
  refine ⟨sheets, ?_, Html.reads_document hunit hfallback hplaceholder.hasNoAngle _ sheets⟩
  rw [document, htext]
  simp [Html.document]

/-- A page that is begun twice and never ended, with a glyph that looks like the start of a tag. -/
def unended : List (Call ℚ) := [
  .pageBegin 1 none (.whole 0),
  .glyph ⟨lit "<", 0, 0, 10, 10, none, 10, 10, 10⟩,
  .pageBegin 2 none (.whole 45)]

/-- Each of the two pages is closed, and the glyph is no tag. -/
theorem document_wellFormed_unended :
    ∃ sheets : List (Sheet ℚ),
      (document (some (lit "</title>")) unended (start .standard .memory {})).emitter.output.text
          = [] ++ Html.document .standard (lit "</title>") sheets
        ∧ Html.Reads (Html.document .standard (lit "</title>") sheets)
          (Html.headTags ++ sheets.flatMap (Sheet.tags .standard) ++ Html.tailTags) := by
  have hmemory : Output.memory.TakesAll := fun _ _ => rfl
  exact document_wellFormed (by decide) (by decide) (by decide) hmemory {} (some (lit "</title>"))
    unended

end Layout

end Folio
