import Folio.Proofs.Html.Element
import Folio.Proofs.Layout.Request
import Folio.Proofs.Paragraph.Failures
import Folio.Proofs.Scalar.Rational

/-!
# The counters tally the output

After any history, with any of its writes refused, the counters say how many elements of each kind
have been written, and the failures are the boxes that were refused and the pictures that were
dropped (`counters_tally`).

A refused write leaves nothing in the output, so what has been refused is found from the other side:
`offered` lists the boxes that a request makes, before any of them is written, and `outcomes` tells
which of them the output takes. The books hold both together (`Books`): the boxes taken are those in
the output, and the others are the failures. One request adds what it offers to the books
(`Books.perform`), and a history is one request after the other.
-/

namespace Folio

open Text (lit)

/-- Texts written one after the other, each with whether it is taken, from the write of that number
on. -/
def Output.outcomes (refuses : Nat → Text → Option Fault) : Nat → List Text → List (Text × Bool)
  | _, [] => []
  | n, t :: ts => (t, (refuses n t).isNone) :: outcomes refuses (n + 1) ts

/-- The texts that are taken. -/
def Output.granted (outcomes : List (Text × Bool)) : List Text :=
  (outcomes.filter (·.2)).map (·.1)

/-- How many texts are refused. -/
def Output.refused (outcomes : List (Text × Bool)) : Nat := outcomes.countP fun outcome => !outcome.2

/-- What a tally has counted of an element. -/
def Element.counted (t : Tally) : Element → Nat
  | paragraph => t.paragraphs
  | rule => t.rules
  | picture => t.pictures
  | pageEnd => t.pages

/-- Whether that is a paragraph or a rule, which is dropped if it is refused. -/
def Element.isBox (t : Text) : Bool := paragraph.marks t || rule.marks t

namespace Layout

variable {α : Type} [Scalar α]

/-! ## What requests offer -/

/-- What becomes of texts that are written next. -/
def outcomes (l : Layout α) (ts : List Text) : List (Text × Bool) :=
  Output.outcomes l.emitter.output.refuses l.emitter.output.attempts ts

/-- The paragraph that the segmenter hands out on a request. -/
def handed (l : Layout α) : Request α → Option (Paragraph α)
  | .call (.glyph g) =>
    match l.segmenter.feed l.fonts g with
    | .ok (_, out) => out
    | .error _ => none
  | .documentEnd | .call .pageEnd | .call (.pageBegin ..) => l.segmenter.endPage.2
  | _ => none

/-- The rules that a request strokes the path into. -/
def struck (l : Layout α) : Request α → List (Rule α)
  | .call (.operator op) =>
    match l.page, PathVerb.ofName? op.name with
    | some page, some verb =>
      match trace page op verb l.path with
      | .ok (rules, _) => rules
      | .error _ => []
    | _, _ => []
  | _ => []

/-- The boxes that a request makes, in order; outside of a page there are none. -/
def offered (l : Layout α) (r : Request α) : List Text :=
  if l.page.isNone then []
  else (l.handed r).toList.map l.paragraphHtml ++ (l.struck r).map l.ruleHtml

omit [Scalar α] in
@[simp] theorem outcomes_nil (l : Layout α) : l.outcomes [] = [] := rfl

theorem offered_of_none {l : Layout α} (hpage : l.page = none) (r : Request α) :
    l.offered r = [] := by
  rw [offered, hpage, Option.isNone_none, if_pos rfl]

theorem offered_of_page {l : Layout α} {page : Page.Frame α} (hpage : l.page = some page)
    (r : Request α) :
    l.offered r = (l.handed r).toList.map l.paragraphHtml ++ (l.struck r).map l.ruleHtml := by
  rw [offered, hpage, Option.isNone_some, if_neg Bool.false_ne_true]

/-- The raster that a request draws, with its user space. -/
def Request.raster? : Request α → Option (Raster × Affine α)
  | .call (.picture raster user) => some (raster, user)
  | .call (.operator op) =>
    if op.name = lit "Do" then
      match picture? op with
      | .ok (some found) =>
        match found.2.decoded with
        | .raster raster => some (raster, op.ctm)
        | _ => none
      | _ => none
    else none
  | _ => none

/-- How many pictures a request drops because they cannot be encoded or stored. -/
def dropped (l : Layout α) (r : Request α) : Nat :=
  match l.page, r.raster? with
  | some page, some (raster, user) =>
    match ((place raster page.transform user).run l).1 with
    | .error fault => if fault.isPictureFault then 1 else 0
    | .ok _ => 0
  | _, _ => 0

theorem dropped_of_none {l : Layout α} (hpage : l.page = none) (r : Request α) :
    l.dropped r = 0 := by
  rw [dropped, hpage]

theorem dropped_of_raster?_eq_none {l : Layout α} {r : Request α} (h : r.raster? = none) :
    l.dropped r = 0 := by
  rw [dropped, h]
  cases l.page <;> rfl

/-- The boxes that a history offers, each with whether it is taken. -/
def offeredBoxes : List (Request α) → Layout α → List (Text × Bool)
  | [], _ => []
  | r :: rs, l => l.outcomes (l.offered r) ++ offeredBoxes rs (r.perform.run l).2

/-- How many pictures a history drops. -/
def droppedPictures : List (Request α) → Layout α → Nat
  | [], _ => 0
  | r :: rs, l => l.dropped r + droppedPictures rs (r.perform.run l).2

/-- The operator that draws an external object is no path operator. -/
theorem ofName?_drawing : PathVerb.ofName? (lit "Do") = none := by decide

/-! ## The books -/

/-- The books of a layout that began with that output and was offered those boxes. -/
structure Books (output : Output) (boxes : List (Text × Bool)) (drops : Nat) (l : Layout α) :
    Prop where
  /-- Every element is counted as often as it has been written. -/
  elements : ∀ e : Element,
    e.counted l.tally + e.among output.pieces = e.among l.emitter.output.pieces
  /-- The boxes written are those offered that were taken, the last one first. -/
  written : l.emitter.output.pieces.filter Element.isBox
    = (Output.granted boxes).reverse ++ output.pieces.filter Element.isBox
  /-- The failures, here and in the segmenter, are the boxes refused and the pictures dropped. -/
  failures : l.tally.failures + l.segmenter.failures = Output.refused boxes + drops

namespace Books

variable {output : Output} {boxes : List (Text × Bool)} {drops : Nat} {l l' : Layout α}

omit [Scalar α] in
/-- The books look at the counters, the output and the segmenter's failures alone. -/
theorem of_eq (h : Books output boxes drops l)
    (htally : ∀ e : Element, e.counted l'.tally = e.counted l.tally)
    (hpieces : l'.emitter.output.pieces = l.emitter.output.pieces)
    (hfailures : l'.tally.failures + l'.segmenter.failures
      = l.tally.failures + l.segmenter.failures) : Books output boxes drops l' where
  elements e := by rw [htally, hpieces, h.elements]
  written := by rw [hpieces, h.written]
  failures := by rw [hfailures, h.failures]

omit [Scalar α] in
/-- What is no element does not show in the books. -/
theorem attempted (h : Books output boxes drops l) {t : Text} (ht : ∀ e : Element, e.marks t = false)
    (isOpen : Bool) : Books output boxes drops (l.attempted t isOpen) := by
  by_cases haccepted : l.emitter.output.accepts t = true
  · have hpieces : (l.attempted t isOpen).emitter.output.pieces = t :: l.emitter.output.pieces := by
      rw [attempted_pieces, if_pos haccepted]
    refine ⟨fun e => ?_, ?_, h.failures⟩
    · rw [hpieces, Element.among_cons, ht, if_neg Bool.false_ne_true]
      exact h.elements e
    · have hbox : Element.isBox t = false := by rw [Element.isBox, ht, ht]; rfl
      rw [hpieces, List.filter_cons_of_neg (by rw [hbox]; exact Bool.false_ne_true), h.written]
  · refine h.of_eq (fun _ => rfl) ?_ rfl
    rw [attempted_pieces, if_neg haccepted]

omit [Scalar α] in
/-- What is refused does not show either, unless it is offered. -/
theorem refused (h : Books output boxes drops l) {t : Text} {e : Fault}
    (hanswer : l.emitter.output.answer t = .error e) (isOpen : Bool) :
    Books output boxes drops (l.attempted t isOpen) := by
  refine h.of_eq (fun _ => rfl) ?_ rfl
  rw [attempted_pieces, if_neg (fun haccepted => ?_)]
  rw [Output.answer_eq_ok_iff.mpr haccepted] at hanswer
  cases hanswer

omit [Scalar α] in
/-- What is taken and counted and is no box. -/
theorem counted (h : Books output boxes drops l) {t : Text} {e : Element}
    (ht : ∀ e', e'.marks t = decide (e' = e)) (hbox : e ≠ .paragraph ∧ e ≠ .rule)
    (hpieces : l'.emitter.output.pieces = t :: l.emitter.output.pieces)
    (htally : ∀ e' : Element, e'.counted l'.tally
      = e'.counted l.tally + if e' = e then 1 else 0)
    (hfailures : l'.tally.failures + l'.segmenter.failures
      = l.tally.failures + l.segmenter.failures) : Books output boxes drops l' where
  elements e' := by
    have hbefore := h.elements e'
    rw [hpieces, Element.among_cons, ht, htally]
    simp only [decide_eq_true_eq]
    omega
  written := by
    have hno : Element.isBox t = false := by
      rw [Element.isBox, ht, ht, decide_eq_false hbox.1.symm, decide_eq_false hbox.2.symm]
      rfl
    rw [hpieces, List.filter_cons_of_neg (by rw [hno]; exact Bool.false_ne_true), h.written]
  failures := by rw [hfailures, h.failures]

omit [Scalar α] in
/-- A box that is offered is taken and counted, or it is a failure. -/
theorem box (h : Books output boxes drops l) {t : Text} {e : Element}
    (ht : ∀ e', e'.marks t = decide (e' = e)) (hbox : Element.isBox t = true)
    (hpieces : l'.emitter.output.pieces = if l.emitter.output.accepts t
      then t :: l.emitter.output.pieces else l.emitter.output.pieces)
    (htally : ∀ e' : Element, e'.counted l'.tally
      = e'.counted l.tally + if l.emitter.output.accepts t = true ∧ e' = e then 1 else 0)
    (hfailures : l'.tally.failures + l'.segmenter.failures
      = l.tally.failures + l.segmenter.failures + if l.emitter.output.accepts t then 0 else 1) :
    Books output (boxes ++ l.outcomes [t]) drops l' := by
  have houtcome : l.outcomes [t] = [(t, l.emitter.output.accepts t)] := rfl
  have hcount := h.failures
  rw [houtcome]
  cases haccepted : l.emitter.output.accepts t with
  | true =>
    rw [haccepted] at hpieces hfailures
    simp only [haccepted, true_and] at htally
    refine ⟨fun e' => ?_, ?_, ?_⟩
    · have hbefore := h.elements e'
      rw [hpieces, if_pos rfl, Element.among_cons, ht, htally]
      simp only [decide_eq_true_eq]
      omega
    · rw [hpieces, if_pos rfl, List.filter_cons_of_pos hbox, h.written]
      simp [Output.granted]
    · rw [hfailures, if_pos rfl]
      simp only [Output.refused, List.countP_append] at hcount ⊢
      simp
      omega
  | false =>
    rw [haccepted] at hpieces hfailures
    simp only [haccepted, Bool.false_eq_true, false_and, if_false, Nat.add_zero] at htally
    refine ⟨fun e' => ?_, ?_, ?_⟩
    · rw [hpieces, if_neg Bool.false_ne_true, htally, h.elements]
    · rw [hpieces, if_neg Bool.false_ne_true, h.written]
      simp [Output.granted]
    · rw [hfailures, if_neg Bool.false_ne_true]
      simp only [Output.refused, List.countP_append] at hcount ⊢
      simp
      omega

theorem tookParagraph (h : Books output boxes drops l) (p : Paragraph α) :
    Books output (boxes ++ l.outcomes [l.paragraphHtml p]) drops (l.tookParagraph p) := by
  refine h.box (fun e => Element.marks_paragraph e _ _ p) ?_ (attempted_pieces _ _ l) ?_ ?_
  · rw [Element.isBox, paragraphHtml, Element.marks_paragraph]
    rfl
  · intro e
    simp only [Layout.tookParagraph]
    cases e <;> cases l.emitter.output.accepts (l.paragraphHtml p) <;> rfl
  · simp only [Layout.tookParagraph]
    cases l.emitter.output.accepts (l.paragraphHtml p) <;> rfl

theorem tookRule (h : Books output boxes drops l) (r : Rule α) :
    Books output (boxes ++ l.outcomes [l.ruleHtml r]) drops (l.tookRule r) := by
  refine h.box (fun e => Element.marks_rule e _ r) ?_ (attempted_pieces _ _ l) ?_ ?_
  · rw [Element.isBox, ruleHtml, Element.marks_rule, Element.marks_rule]
    rfl
  · intro e
    simp only [Layout.tookRule]
    cases e <;> cases l.emitter.output.accepts (l.ruleHtml r) <;> rfl
  · simp only [Layout.tookRule, attempted_segmenter]
    omega

theorem takeParagraph (h : Books output boxes drops l) (out : Option (Paragraph α)) :
    Books output (boxes ++ l.outcomes (out.toList.map l.paragraphHtml)) drops
      ((Layout.takeParagraph out).run l).2 := by
  rw [run_takeParagraph]
  cases out with
  | none =>
    rw [Option.toList_none, List.map_nil, outcomes_nil, List.append_nil]
    exact h
  | some p => exact h.tookParagraph p

theorem takeRules (h : Books output boxes drops l) (rules : List (Rule α)) :
    Books output (boxes ++ l.outcomes (rules.map l.ruleHtml)) drops
      ((Layout.takeRules rules).run l).2 := by
  rw [run_takeRules]
  simp only
  induction rules generalizing l boxes with
  | nil =>
    rw [List.map_nil, outcomes_nil, List.append_nil]
    exact h
  | cons r rules ih =>
    -- The first rule is tried, and the others go on from there.
    have hunit : (l.tookRule r).ruleHtml = l.ruleHtml := rfl
    have hattempts : (l.tookRule r).emitter.output.attempts = l.emitter.output.attempts + 1 :=
      attempted_attempts _ _ l
    have hrefuses : (l.tookRule r).emitter.output.refuses = l.emitter.output.refuses :=
      attempted_refuses _ _ l
    have hsplit : l.outcomes ((r :: rules).map l.ruleHtml)
        = l.outcomes [l.ruleHtml r] ++ (l.tookRule r).outcomes (rules.map (l.tookRule r).ruleHtml) := by
      simp only [Layout.outcomes, hunit, hattempts, hrefuses]
      rfl
    rw [hsplit, ← List.append_assoc]
    exact ih (h.tookRule r)

/-! ### Steps that offer no box -/

omit [Scalar α] in
theorem keeps_report (log : Log) :
    (report log : Act (Layout α) Unit).Keeps (Books output boxes drops) :=
  .modify fun _ h => h.of_eq (fun _ => rfl) rfl rfl

omit [Scalar α] in
theorem keeps_finishPage :
    (finishPage : Act (Layout α) Unit).Keeps (Books output boxes drops) := by
  intro l h
  have hdiscarded : Books output boxes drops { l with path := l.path.discard } :=
    h.of_eq (fun _ => rfl) rfl rfl
  rw [run_finishPage]
  cases hanswer : l.emitter.output.answer Html.pageEnd with
  | error e => exact hdiscarded.refused hanswer false
  | ok =>
    have haccepted := Output.answer_eq_ok_iff.mp hanswer
    show Books output boxes drops l.finished
    refine hdiscarded.counted Element.marks_pageEnd (by decide) ?_ ?_ rfl
    · exact (attempted_pieces _ _ _).trans (if_pos haccepted)
    · intro e
      cases e <;> rfl

theorem keeps_drawPlaced (p : Picture α) :
    (drawPlaced p).Keeps (Books output boxes drops) := by
  intro l h
  have hemit := run_emit_picture p l
  rw [drawPlaced]
  cases hanswer : l.emitter.output.answer (Html.picture l.emitter.unit p) with
  | error e =>
    rw [hanswer] at hemit
    rw [Act.run_bind_error hemit]
    exact h.refused hanswer _
  | ok =>
    have haccepted := Output.answer_eq_ok_iff.mp hanswer
    rw [hanswer] at hemit
    rw [Act.run_bind_ok hemit]
    refine h.counted (fun e => Element.marks_picture e l.emitter.unit p) (by decide) ?_ ?_ rfl
    · exact (attempted_pieces _ _ _).trans (if_pos haccepted)
    · intro e
      cases e <;> rfl

theorem keeps_place (raster : Raster) (page user : Affine α) :
    (place raster page user).Keeps (Books output boxes drops) := by
  intro l h
  exact h.of_eq (fun _ => rfl) rfl rfl

/-! ### Requests -/

theorem endPage (h : Books output boxes drops l) (r : Request α)
    (hhanded : l.handed r = l.segmenter.endPage.2) (hstruck : l.struck r = []) :
    Books output (boxes ++ l.outcomes (l.offered r)) drops (Layout.endPage.run l).2 := by
  cases hpage : l.page with
  | none =>
    rw [run_endPage_of_none hpage, offered_of_none hpage, outcomes_nil, List.append_nil]
    exact h
  | some page =>
    rw [run_endPage_of_page hpage, offered_of_page hpage, hhanded, hstruck, List.map_nil,
      List.append_nil]
    have hheld : Books output boxes drops { l with segmenter := l.segmenter.endPage.1 } :=
      h.of_eq (fun _ => rfl) rfl
        (congrArg (l.tally.failures + ·) (Segmenter.failures_endPage l.segmenter))
    exact keeps_finishPage _ (hheld.takeParagraph l.segmenter.endPage.2)

theorem beginPage (h : Books output boxes drops l) (number : Int) (crop : Option (CropBox α))
    (rotation : Angle α) :
    Books output
      (boxes ++ l.outcomes (l.offered (.call (.pageBegin number crop rotation)))) drops
      ((Layout.beginPage number crop rotation).run l).2 := by
  have hforgotten : Books output
      (boxes ++ l.outcomes (l.offered (.call (.pageBegin number crop rotation)))) drops
      ((endForgottenPage number).run l).2 := by
    rw [endForgottenPage, Act.run_bind_ok (Act.run_get l)]
    cases hpage : l.page with
    | none =>
      rw [offered_of_none hpage, outcomes_nil, List.append_nil]
      exact h
    | some page =>
      simp only [Act.run_bind_ok (run_report _ l)]
      exact (keeps_report _ l h).endPage (.call (.pageBegin number crop rotation)) rfl rfl
  rw [run_beginPage]
  rcases hrun : (endForgottenPage number).run l with ⟨e | _, l'⟩
  · rw [hrun] at hforgotten
    exact hforgotten
  · rw [hrun] at hforgotten
    simp only
    rw [run_beginPage_of_none (page_of_run_endForgottenPage hrun)]
    cases rotation.rotation with
    | error e => exact hforgotten
    | ok turn =>
      simp only
      rw [run_emit_pageStart_eq]
      refine Books.attempted ?_ (fun e => Element.marks_pageStart e _ _) true
      exact hforgotten.of_eq (fun _ => rfl) rfl rfl

theorem endDocument (h : Books output boxes drops l) (hcoherent : l.Coherent) :
    Books output (boxes ++ l.outcomes (l.offered .documentEnd)) drops
      (Layout.endDocument.run l).2 := by
  have hended := h.endPage .documentEnd rfl rfl
  rw [Layout.endDocument]
  rcases hrun : Layout.endPage.run l with ⟨e | _, l'⟩
  · rw [Act.run_bind_error hrun]
    rw [hrun] at hended
    exact hended
  · -- The page has been closed and counted already, so the end of the document closes none.
    have hclosed := (hcoherent.afterEndPage hrun).2
    rw [hrun] at hended
    have hwritten := hended.attempted Element.marks_documentEnd false
    rw [Act.run_bind_ok hrun, Act.run_bind, run_emit_documentEnd hclosed]
    cases l'.emitter.output.answer Html.documentEnd with
    | error e => exact hwritten
    | ok =>
      refine hwritten.of_eq (fun e => ?_) rfl ?_
      · cases e <;> rfl
      · rfl

theorem addGlyph (h : Books output boxes drops l) (glyph : Glyph α) :
    Books output (boxes ++ l.outcomes (l.offered (.call (.glyph glyph)))) drops
      ((Layout.addGlyph glyph).run l).2 := by
  cases hpage : l.page with
  | none =>
    rw [Layout.addGlyph, Act.run_bind_ok (Act.run_get l), offered_of_none hpage, hpage,
      Option.isNone_none, if_pos rfl, outcomes_nil, List.append_nil]
    exact h
  | some page =>
    have hstruck : l.struck (.call (.glyph glyph)) = [] := rfl
    rw [run_addGlyph_of_page hpage, offered_of_page hpage, hstruck, List.map_nil, List.append_nil,
      handed]
    cases hfeed : l.segmenter.feed l.fonts glyph with
    | error e =>
      simp only [Option.toList_none, List.map_nil, outcomes_nil, List.append_nil]
      exact h
    | ok answer =>
      obtain ⟨s, out⟩ := answer
      have hfed : Books output boxes drops { l with segmenter := s } :=
        h.of_eq (fun _ => rfl) rfl
          (congrArg (l.tally.failures + ·) (Segmenter.failures_feed hfeed))
      exact hfed.takeParagraph out

theorem drawPath (h : Books output boxes drops l) (page : Page.Frame α) (op : Operator α)
    (verb : PathVerb) :
    Books output
      (boxes ++ l.outcomes ((match trace page op verb l.path with
        | .ok (rules, _) => rules
        | .error _ => []).map l.ruleHtml)) drops
      ((Layout.drawPath page op verb).run l).2 := by
  rw [run_drawPath]
  cases trace page op verb l.path with
  | error e =>
    simp only [List.map_nil, outcomes_nil, List.append_nil]
    exact h
  | ok traced =>
    have hpath : Books output boxes drops { l with path := traced.2 } :=
      h.of_eq (fun _ => rfl) rfl rfl
    exact hpath.takeRules traced.1

/-- A picture is drawn and counted, skipped, or dropped as a failure. -/
theorem addPicture (h : Books output boxes drops l) {page : Page.Frame α}
    (hpage : l.page = some page) (raster : Raster) (user : Affine α) :
    Books output boxes
      (drops + match ((place raster page.transform user).run l).1 with
        | .error fault => if fault.isPictureFault then 1 else 0
        | .ok _ => 0)
      ((Layout.addPicture raster user).run l).2 := by
  have hplaced := keeps_place raster page.transform user l h
  rw [run_addPicture_of_page hpage]
  rcases hrun : (place raster page.transform user).run l with ⟨fault | (_ | picture), l'⟩
  all_goals
    rw [hrun] at hplaced
    simp only
  · split
    · refine ⟨fun e => ?_, hplaced.written, ?_⟩
      · have hcounted : e.counted (l'.dropping raster fault).tally = e.counted l'.tally := by
          cases e <;> rfl
        rw [hcounted]
        exact hplaced.elements e
      · have hcount := hplaced.failures
        show l'.tally.failures + 1 + l'.segmenter.failures = _
        simp only at hcount
        omega
    · exact hplaced
  · refine hplaced.of_eq (fun e => ?_) rfl rfl
    cases e <;> rfl
  · exact keeps_drawPlaced picture _ hplaced

theorem drawObject (h : Books output boxes drops l) {page : Page.Frame α}
    (hpage : l.page = some page) {op : Operator α} (hname : op.name = lit "Do") :
    Books output boxes (drops + l.dropped (.call (.operator op)))
      ((Layout.drawObject op).run l).2 := by
  have hskipped : ∀ log, Books output boxes drops
      { l with
        log := l.log ++ log
        tally := { l.tally with skippedPictures := l.tally.skippedPictures + 1 } } :=
    fun log => h.of_eq (fun e => by cases e <;> rfl) rfl rfl
  rw [Layout.drawObject, Act.run_bind, Act.run_ofExcept]
  cases hpicture : picture? op with
  | error e =>
    rw [dropped_of_raster?_eq_none (by simp [Request.raster?, hname, hpicture])]
    exact h
  | ok found =>
    rcases found with _ | ⟨name, picture⟩
    · rw [dropped_of_raster?_eq_none (by simp [Request.raster?, hname, hpicture])]
      exact h
    · simp only
      cases hdecoded : picture.decoded with
      | raster raster =>
        have hraster : (Request.call (.operator op)).raster? = some (raster, op.ctm) := by
          simp [Request.raster?, hname, hpicture, hdecoded]
        rw [dropped, hpage, hraster]
        exact h.addPicture hpage raster op.ctm
      | nothing =>
        rw [dropped_of_raster?_eq_none (by simp [Request.raster?, hname, hpicture, hdecoded])]
        exact hskipped _
      | failed cause =>
        rw [dropped_of_raster?_eq_none (by simp [Request.raster?, hname, hpicture, hdecoded])]
        exact hskipped _

theorem addOperator (h : Books output boxes drops l) (op : Operator α) :
    Books output (boxes ++ l.outcomes (l.offered (.call (.operator op))))
      (drops + l.dropped (.call (.operator op))) ((Layout.addOperator op).run l).2 := by
  rw [Layout.addOperator, Act.run_bind_ok (Act.run_get l)]
  cases hpage : l.page with
  | none =>
    rw [offered_of_none hpage, dropped_of_none hpage, outcomes_nil, List.append_nil]
    exact h
  | some page =>
    have hhanded : l.handed (.call (.operator op)) = none := rfl
    rw [offered_of_page hpage, hhanded, Option.toList_none, List.map_nil, List.nil_append, struck,
      hpage]
    cases hverb : PathVerb.ofName? op.name with
    | some verb =>
      have hother : op.name ≠ lit "Do" := by
        intro hname
        rw [hname, ofName?_drawing] at hverb
        cases hverb
      rw [dropped_of_raster?_eq_none (by simp [Request.raster?, hother])]
      exact h.drawPath page op verb
    | none =>
      simp only [List.map_nil, outcomes_nil, List.append_nil]
      by_cases hname : op.name = lit "Do"
      · rw [if_pos hname]
        exact h.drawObject hpage hname
      · rw [if_neg hname, dropped_of_raster?_eq_none (by simp [Request.raster?, hname])]
        exact h

/-- A request adds to the books what it offers and drops, whether it succeeds or fails. -/
theorem perform (h : Books output boxes drops l) (hcoherent : l.Coherent) (r : Request α) :
    Books output (boxes ++ l.outcomes (l.offered r)) (drops + l.dropped r)
      (r.perform.run l).2 := by
  have hsilent : l.handed r = none → l.struck r = [] → l.outcomes (l.offered r) = [] := by
    intro hhanded hstruck
    rw [offered, hhanded, hstruck]
    exact congrArg l.outcomes (ite_self _)
  cases r with
  | documentBegin title =>
    rw [hsilent rfl rfl, List.append_nil, dropped_of_raster?_eq_none rfl, Request.perform,
      Layout.beginDocument, run_emit_documentStart]
    exact h.attempted (fun e => Element.marks_documentStart e _) _
  | documentEnd =>
    rw [dropped_of_raster?_eq_none rfl]
    exact h.endDocument hcoherent
  | call c =>
    cases c with
    | pageBegin number crop rotation =>
      rw [dropped_of_raster?_eq_none rfl]
      exact h.beginPage number crop rotation
    | pageEnd =>
      rw [dropped_of_raster?_eq_none rfl]
      exact h.endPage (.call .pageEnd) rfl rfl
    | resources found =>
      rw [hsilent rfl rfl, List.append_nil, dropped_of_raster?_eq_none rfl]
      refine h.of_eq (fun e => ?_) ?_ ?_
      · cases found <;> cases e <;> rfl
      · cases found <;> rfl
      · cases found <;> rfl
    | glyph g =>
      rw [dropped_of_raster?_eq_none rfl]
      exact h.addGlyph g
    | operator op => exact h.addOperator op
    | picture raster user =>
      rw [hsilent rfl rfl, List.append_nil]
      cases hpage : l.page with
      | none =>
        rw [dropped_of_none hpage, Request.perform, Call.perform, Layout.addPicture,
          Act.run_bind_ok (Act.run_get l), hpage]
        exact h
      | some page =>
        have hraster : (Request.call (.picture raster user)).raster? = some (raster, user) := rfl
        rw [dropped, hpage, hraster]
        exact h.addPicture hpage raster user

/-- So does a history. -/
theorem requests (h : Books output boxes drops l) (hcoherent : l.Coherent) (rs : List (Request α)) :
    Books output (boxes ++ offeredBoxes rs l) (drops + droppedPictures rs l)
      (requests rs l) := by
  induction rs generalizing l boxes drops with
  | nil =>
    rw [offeredBoxes, droppedPictures, List.append_nil]
    exact h
  | cons r rs ih =>
    rw [offeredBoxes, droppedPictures, ← List.append_assoc, ← Nat.add_assoc]
    exact ih (h.perform hcoherent r) (Coherent.keeps_perform r l hcoherent)

end Books

/-! ## Pictures that are drawn -/

/-- The request draws a picture: directly, or as the external object that an operator names. -/
def Request.DrawsPicture : Request α → Prop
  | .call (.picture ..) => True
  | .call (.operator op) => op.name = lit "Do" ∧ ∃ found, picture? op = .ok (some found)
  | _ => False

/-- One picture more has been drawn or skipped, and not both. -/
def OnePictureMore (before after : Tally) : Prop :=
  (after.pictures = before.pictures + 1 ∧ after.skippedPictures = before.skippedPictures)
    ∨ (after.pictures = before.pictures ∧ after.skippedPictures = before.skippedPictures + 1)

theorem onePictureMore_addPicture {l : Layout α} {page : Page.Frame α} (hpage : l.page = some page)
    {raster : Raster} {user : Affine α} {after : Layout α}
    (hrun : (addPicture raster user).run l = (.ok (), after)) :
    OnePictureMore l.tally after.tally := by
  -- Placing a picture counts nothing.
  have htally : ((place raster page.transform user).run l).2.tally = l.tally := rfl
  rw [run_addPicture_of_page hpage] at hrun
  rcases hplace : (place raster page.transform user).run l with ⟨fault | (_ | picture), l'⟩
  all_goals
    rw [hplace] at hrun htally
    simp only at hrun htally
    rw [← htally]
  · split at hrun
    · cases hrun
      exact .inr ⟨rfl, rfl⟩
    · cases hrun
  · cases hrun
    exact .inr ⟨rfl, rfl⟩
  · obtain ⟨_, written, hemit, hcount⟩ := Act.run_bind_eq_ok hrun
    rw [run_emit_picture] at hemit
    have hwritten : written.tally = l'.tally := (congrArg (·.2.tally) hemit).symm
    cases hcount
    rw [← hwritten]
    exact .inl ⟨rfl, rfl⟩

theorem onePictureMore_perform {l : Layout α} (hpage : l.page.isSome = true) {r : Request α}
    (hdraws : r.DrawsPicture) {after : Layout α} (hrun : r.perform.run l = (.ok (), after)) :
    OnePictureMore l.tally after.tally := by
  obtain ⟨page, hpage⟩ := Option.isSome_iff_exists.mp hpage
  cases r with
  | documentBegin title => cases hdraws
  | documentEnd => cases hdraws
  | call c =>
    cases c with
    | picture raster user => exact onePictureMore_addPicture hpage hrun
    | operator op =>
      obtain ⟨hname, ⟨name, picture⟩, hpicture⟩ := hdraws
      rw [Request.perform, Call.perform, addOperator, Act.run_bind_ok (Act.run_get l), hpage,
        hname, ofName?_drawing] at hrun
      simp only [if_pos] at hrun
      rw [drawObject, hpicture, Act.run_bind_ok (Act.run_ofExcept _ l)] at hrun
      simp only at hrun
      cases hdecoded : picture.decoded with
      | raster raster =>
        rw [hdecoded] at hrun
        exact onePictureMore_addPicture hpage hrun
      | nothing =>
        rw [hdecoded] at hrun
        cases hrun
        exact .inr ⟨rfl, rfl⟩
      | failed cause =>
        rw [hdecoded] at hrun
        cases hrun
        exact .inr ⟨rfl, rfl⟩
    | pageBegin | pageEnd | resources | glyph => cases hdraws

/-! ## Every history -/

/-- At every moment of every history the books of the layout are right, and every picture that is
drawn on a page without a fault counts once. -/
theorem counters_tally (options : Options α) (output : Output) (files : FileTree)
    (rs : List (Request α)) :
    Books output (offeredBoxes rs (start options output files))
        (droppedPictures rs (start options output files))
        (requests rs (start options output files))
      ∧ ∀ (r : Request α) (after : Layout α), r.DrawsPicture →
        (requests rs (start options output files)).page.isSome = true →
        r.perform.run (requests rs (start options output files)) = (.ok (), after) →
        OnePictureMore (requests rs (start options output files)).tally after.tally := by
  refine ⟨?_, fun r after hdraws hpage hrun => onePictureMore_perform hpage hdraws hrun⟩
  have hempty : Books output [] 0 (start options output files) := by
    refine ⟨fun e => ?_, rfl, rfl⟩
    cases e <;> exact Nat.zero_add _
  have hbooks := hempty.requests (coherent_start options output files) rs
  rw [List.nil_append, Nat.zero_add] at hbooks
  exact hbooks

/-- An output that refuses its second write. -/
def jammed : Output where
  refuses n _ := if n = 1 then some (.device (lit "no space left")) else none

/-- A page whose start is refused. -/
def unstarted : List (Request ℚ) := [
  .documentBegin none,
  .call (.pageBegin 1 none (.whole 0))]

/-- A picture that no document holds in a format of its own. -/
def formless : Request ℚ := .call (.picture
  { mode := lit "RGB", width := 1, height := 1, format := none, bitsPerPixel := 24, name := none,
    encoder := ⟨fun _ _ => .ok (), fun _ _ _ => .ok []⟩ }
  .identity)

/-- The picture is skipped, on a page that is not in the output. -/
theorem counters_tally_unstarted :
    Books jammed (offeredBoxes unstarted (start .standard jammed {}))
        (droppedPictures unstarted (start .standard jammed {}))
        (requests unstarted (start .standard jammed {}))
      ∧ OnePictureMore (requests unstarted (start .standard jammed {})).tally
        (formless.perform.run (requests unstarted (start .standard jammed {}))).2.tally := by
  have htally := counters_tally .standard jammed {} unstarted
  exact ⟨htally.1, htally.2 formless _ trivial rfl rfl⟩

end Layout

end Folio
