import Folio.Proofs.Layout.Attempt
import Folio.Proofs.Paragraph.Failures

/-!
# What has been laid out does not matter

What a layout has written, counted and reported so far is its `Past`. No call looks at it: a layout
with a past does what the same layout does without one, and has the past before all that it writes,
counts and reports (`answers_behind`, `calls_behind`). That goes for an output that takes everything
from then on, whatever it has refused before.
-/

namespace Folio

/-- The counters after more has been counted. The unsupported fonts are those counted last. -/
def Tally.plus (before after : Tally) : Tally where
  pages := before.pages + after.pages
  paragraphs := before.paragraphs + after.paragraphs
  rules := before.rules + after.rules
  pictures := before.pictures + after.pictures
  skippedPictures := before.skippedPictures + after.skippedPictures
  unsupportedFonts := after.unsupportedFonts
  failures := before.failures + after.failures

/-- What has been laid out so far. -/
structure Past where
  refuses : Nat → Text → Option Fault
  attempts : Nat
  pieces : List Text
  tally : Tally
  log : Log
  /-- The segmenter's failures. -/
  failures : Nat

/-- Nothing is refused after that. -/
def Past.TakesOn (past : Past) : Prop := ∀ n t, past.attempts ≤ n → past.refuses n t = none

/-- Nothing laid out. -/
def Past.empty : Past := ⟨fun _ _ => none, 0, [], {}, [], 0⟩

theorem Past.takesOn_empty : empty.TakesOn := fun _ _ _ => rfl

namespace Output

/-- The output takes everything from now on. -/
def TakesOn (o : Output) : Prop := ∀ n t, o.attempts ≤ n → o.refuses n t = none

theorem accepts_of_takesOn {o : Output} (h : o.TakesOn) (t : Text) : o.accepts t = true := by
  rw [accepts, h _ t (Nat.le_refl _)]
  rfl

theorem answer_of_takesOn {o : Output} (h : o.TakesOn) (t : Text) : o.answer t = .ok () :=
  answer_eq_ok_iff.mpr (accepts_of_takesOn h t)

theorem TakesAll.takesOn {o : Output} (h : o.TakesAll) : o.TakesOn := fun n t _ => h n t

/-- The output with a past. -/
def behind (past : Past) (o : Output) : Output :=
  { o with
    refuses := past.refuses
    attempts := past.attempts + o.attempts
    pieces := o.pieces ++ past.pieces }

theorem takesOn_behind {past : Past} (hpast : past.TakesOn) (o : Output) :
    (o.behind past).TakesOn :=
  fun n t h => hpast n t (Nat.le_trans (Nat.le_add_right _ _) h)

theorem tried_behind {past : Past} (hpast : past.TakesOn) {o : Output} (h : o.TakesAll) (t : Text) :
    (o.behind past).tried t = (o.tried t).behind past := by
  rw [tried, tried, accepts_of_takesOn (takesOn_behind hpast o), accepts_of_takesOn h.takesOn]
  rfl

theorem settle_behind (past : Past) (o : Output) (tree : FileTree) :
    (o.behind past).settle tree = ((o.settle tree).1.behind past, (o.settle tree).2) := by
  have hfile : (o.behind past).file = o.file := rfl
  unfold settle onFile
  rw [hfile]
  cases o.file with
  | none => rfl
  | some file => rfl

end Output

namespace Layout

variable {α : Type}

/-- The layout with a past. -/
def behind (past : Past) (l : Layout α) : Layout α :=
  { l with
    emitter := { l.emitter with output := l.emitter.output.behind past }
    segmenter := l.segmenter.withFailures (past.failures + l.segmenter.failures)
    tally := past.tally.plus l.tally
    log := past.log ++ l.log }

/-- What the layout has laid out so far. -/
def past (l : Layout α) : Past where
  refuses := l.emitter.output.refuses
  attempts := l.emitter.output.attempts
  pieces := l.emitter.output.pieces
  tally := l.tally
  log := l.log
  failures := l.segmenter.failures

/-- The layout without a past. -/
def anew (l : Layout α) : Layout α :=
  { l with
    emitter := { l.emitter with
      output := { l.emitter.output with
        refuses := fun _ _ => none
        attempts := 0
        pieces := [] } }
    segmenter := l.segmenter.withFailures 0
    tally := { unsupportedFonts := l.tally.unsupportedFonts }
    log := [] }

theorem anew_behind_past (l : Layout α) : l.anew.behind l.past = l := by
  have hlog : l.log ++ [] = l.log := List.append_nil _
  show { l with log := l.log ++ [] } = l
  rw [hlog]

theorem takesAll_anew (l : Layout α) : l.anew.emitter.output.TakesAll := fun _ _ => rfl

theorem bring_behind (past : Past) (e : Emitter) (l : Layout α) :
    bring Output.settle { e with output := e.output.behind past } (l.behind past)
      = (bring Output.settle e l).behind past := by
  have hfiles : (l.behind past).placer.files = l.placer.files := rfl
  unfold bring
  rw [hfiles, Output.settle_behind]
  rfl

theorem attempted_behind {past : Past} (hpast : past.TakesOn) {l : Layout α}
    (h : l.emitter.output.TakesAll) (t : Text) (isOpen : Bool) :
    (l.behind past).attempted t isOpen = (l.attempted t isOpen).behind past := by
  have hmarked : (l.behind past).emitter.marked t isOpen
      = { l.emitter.marked t isOpen with
          output := (l.emitter.marked t isOpen).output.behind past } := by
    have hbefore := Output.accepts_of_takesOn (Output.takesOn_behind hpast l.emitter.output) t
    have hafter := Output.accepts_of_takesOn h.takesOn t
    have htried := Output.tried_behind hpast h t
    have houtput : (l.behind past).emitter.output = l.emitter.output.behind past := rfl
    rw [Emitter.marked, Emitter.marked, houtput, hbefore, hafter, htried]
    rfl
  rw [attempted, attempted, hmarked, bring_behind]

theorem takesAll_attempted {l : Layout α} (h : l.emitter.output.TakesAll) (t : Text)
    (isOpen : Bool) : (l.attempted t isOpen).emitter.output.TakesAll := by
  intro n text
  rw [attempted_refuses]
  exact h n text

/-! ## Every step carries the past along -/

/-- The step does the same with that past as without one, as long as nothing is refused. -/
def Carried {β : Type} (past : Past) (x : Act (Layout α) β) : Prop :=
  x.Carries (fun l => l.emitter.output.TakesAll) (behind past)

namespace Carried

variable {past : Past}

theorem report (log : Log) : Carried past (report log : Act (Layout α) Unit) := by
  refine .modify (fun _ h => h) fun l _ => ?_
  show { l.behind past with log := past.log ++ l.log ++ log } = _
  rw [List.append_assoc]
  rfl

theorem count {f : Tally → Tally} (hf : ∀ t, f (past.tally.plus t) = past.tally.plus (f t)) :
    Carried past (count f : Act (Layout α) Unit) := by
  refine .modify (fun _ h => h) fun l _ => ?_
  show { l.behind past with tally := f (past.tally.plus l.tally) } = _
  rw [hf]
  rfl

/-- What is written may depend on the unit, and on nothing else that came before. -/
theorem emit (hpast : past.TakesOn) {act : Act Emitter Unit} (t : Emitter → Text)
    (isOpen : Emitter → Bool)
    (hact : ∀ e, act.run e = (e.output.answer (t e), e.marked (t e) (isOpen e)))
    (ht : ∀ e output, t { e with output := output } = t e)
    (hopen : ∀ e output, isOpen { e with output := output } = isOpen e) :
    Carried past (emit act : Act (Layout α) Unit) := by
  intro l h
  have hsame : t (l.behind past).emitter = t l.emitter := ht _ _
  have hsameOpen : isOpen (l.behind past).emitter = isOpen l.emitter := hopen _ _
  have hbehind : (l.behind past).emitter.output.TakesOn := Output.takesOn_behind hpast _
  have htakes : l.emitter.output.TakesOn := h.takesOn
  rw [run_emit_eq (hact _), run_emit_eq (hact _), hsame, hsameOpen,
    Output.answer_of_takesOn hbehind, Output.answer_of_takesOn htakes, attempted_behind hpast h]
  exact ⟨takesAll_attempted h _ _, rfl⟩

variable (hpast : past.TakesOn)

include hpast

theorem emit_pageEnd : Carried past (Layout.emit Emitter.pageEnd : Act (Layout α) Unit) :=
  emit hpast (fun _ => Html.pageEnd) (fun _ => false) (Emitter.run_write_marked _ _)
    (fun _ _ => rfl) fun _ _ => rfl

variable [Scalar α]

theorem emit_pageStart (page : Page.Frame α) :
    Carried past (Layout.emit (Emitter.pageStart page) : Act (Layout α) Unit) :=
  emit hpast (fun e => Html.pageStart e.unit page) (fun _ => true) (Emitter.run_pageStart_eq page)
    (fun _ _ => rfl) fun _ _ => rfl

theorem emit_paragraph (fallback : Text) (p : Paragraph α) :
    Carried past (Layout.emit (Emitter.paragraph fallback p) : Act (Layout α) Unit) :=
  emit hpast (fun e => Html.paragraph e.unit fallback p) (·.pageOpen)
    (Emitter.run_paragraph_eq fallback p) (fun _ _ => rfl) fun _ _ => rfl

theorem emit_rule (r : Rule α) :
    Carried past (Layout.emit (Emitter.rule r) : Act (Layout α) Unit) :=
  emit hpast (fun e => Html.rule e.unit r) (·.pageOpen) (Emitter.run_rule_eq r) (fun _ _ => rfl)
    fun _ _ => rfl

theorem emit_picture (p : Picture α) :
    Carried past (Layout.emit (Emitter.picture p) : Act (Layout α) Unit) :=
  emit hpast (fun e => Html.picture e.unit p) (·.pageOpen) (Emitter.run_picture_eq p)
    (fun _ _ => rfl) fun _ _ => rfl

theorem takeParagraph (out : Option (Paragraph α)) :
    Carried past (Layout.takeParagraph out) := by
  cases out with
  | none => exact .pure _
  | some p =>
    refine .tryCatch (.get_bind (fun _ _ => rfl) fun l => ?_) fun _ => ?_
    · exact .bind (emit_paragraph hpast _ p) fun _ => count fun _ => rfl
    · exact .bind (.modify (fun _ h => h) fun _ _ => rfl) fun _ => report _

theorem takeRules (rules : List (Rule α)) : Carried past (Layout.takeRules rules) := by
  induction rules with
  | nil => exact .pure _
  | cons r rules ih =>
    refine .bind (.tryCatch (.bind (emit_rule hpast r) fun _ => count fun _ => rfl) fun _ => ?_)
      fun _ => ih
    exact .bind (report _) fun _ => count fun _ => rfl

/-! ### Pages -/

omit [Scalar α] in
theorem finishPage : Carried past (Layout.finishPage : Act (Layout α) Unit) := by
  refine .bind (.modify (fun _ h => h) fun _ _ => rfl) fun _ => .bind (emit_pageEnd hpast) fun _ => ?_
  exact .bind (count fun _ => rfl) fun _ => .modify (fun _ h => h) fun _ _ => rfl

theorem endPage : Carried past (Layout.endPage : Act (Layout α) Unit) := by
  intro l h
  have hsame : (l.behind past).page = l.page := rfl
  cases hpage : l.page with
  | none =>
    rw [run_endPage_of_none hpage, run_endPage_of_none (hsame.trans hpage)]
    exact ⟨h, rfl⟩
  | some page =>
    -- The failures come after those of the past, whichever way around.
    have hsegmenter : (l.behind past).segmenter.endPage
        = (l.segmenter.endPage.1.withFailures (past.failures + l.segmenter.endPage.1.failures),
          l.segmenter.endPage.2) := by
      rw [Segmenter.failures_endPage]
      exact Segmenter.endPage_withFailures _ _
    have hheld : ({ l.behind past with segmenter := (l.behind past).segmenter.endPage.1 } : Layout α)
        = ({ l with segmenter := l.segmenter.endPage.1 } : Layout α).behind past := by
      rw [hsegmenter]
      rfl
    obtain ⟨hkept, hcarried⟩ := takeParagraph hpast l.segmenter.endPage.2
      { l with segmenter := l.segmenter.endPage.1 } h
    rw [run_endPage_of_page hpage, run_endPage_of_page (hsame.trans hpage), hheld, hsegmenter,
      hcarried]
    exact finishPage hpast _ hkept

theorem endForgottenPage (number : Int) :
    Carried past (Layout.endForgottenPage number : Act (Layout α) Unit) := by
  refine .get_bind (fun _ _ => rfl) fun l => ?_
  split
  · exact .pure _
  · exact .bind (report _) fun _ => endPage hpast

theorem beginPage (number : Int) (crop : Option (CropBox α)) (rotation : Angle α) :
    Carried past (Layout.beginPage number crop rotation) := by
  refine .bind (endForgottenPage hpast number) fun _ => .bind (.ofExcept _) fun _ => ?_
  refine .bind (report _) fun _ => .bind (.modify (fun _ h => h) fun _ _ => rfl) fun _ => ?_
  exact emit_pageStart hpast _

/-! ### Content -/

omit hpast [Scalar α] in
theorem addFonts (found : Option (Catalog α × Nat)) : Carried past (Layout.addFonts found) := by
  have hcount : Carried past (countFonts : Act (Layout α) Unit) :=
    .modify (fun _ h => h) fun _ _ => rfl
  cases found with
  | none => exact hcount
  | some found =>
    refine .get_bind (fun _ _ => rfl) fun l => ?_
    exact .bind (.modify (fun _ h => h) fun _ _ => rfl) fun _ => .bind (report _) fun _ => hcount

theorem addGlyph (glyph : Glyph α) : Carried past (Layout.addGlyph glyph) := by
  intro l h
  have hsame : (l.behind past).page = l.page := rfl
  cases hpage : l.page with
  | none =>
    rw [run_addGlyph_of_none hpage, run_addGlyph_of_none (hsame.trans hpage)]
    exact ⟨h, rfl⟩
  | some page =>
    have hsegmenter : (l.behind past).segmenter.feed (l.behind past).fonts glyph
        = (l.segmenter.feed l.fonts glyph).map fun answer =>
          (answer.1.withFailures (past.failures + l.segmenter.failures), answer.2) :=
      Segmenter.feed_withFailures _ _ _ _
    rw [run_addGlyph_of_page hpage, run_addGlyph_of_page (hsame.trans hpage), hsegmenter]
    cases hfeed : l.segmenter.feed l.fonts glyph with
    | error e => exact ⟨h, rfl⟩
    | ok answer =>
      obtain ⟨s, out⟩ := answer
      have hfed : ({ l.behind past with
            segmenter := s.withFailures (past.failures + l.segmenter.failures) } : Layout α)
          = ({ l with segmenter := s } : Layout α).behind past := by
        rw [← Segmenter.failures_feed hfeed]
        rfl
      simp only [Except.map, hfed]
      exact takeParagraph hpast out { l with segmenter := s } h

omit hpast in
theorem place (raster : Raster) (page user : Affine α) :
    Carried past (Layout.place raster page user) := by
  intro l h
  rw [run_place_eq, run_place_eq]
  refine ⟨h, ?_⟩
  simp only [behind, List.append_assoc]

omit hpast [Scalar α] in
theorem draw (f : Path α → Path α) : Carried past (Layout.draw f) :=
  .modify (fun _ h => h) fun _ _ => rfl

theorem stroke (op : Operator α) : Carried past (Layout.stroke op) :=
  .get_bind (fun _ _ => rfl) fun _ => .bind (.modify (fun _ h => h) fun _ _ => rfl) fun _ =>
    takeRules hpast _

theorem pictureParts : PictureParts fun {_} x => Carried past (x : Act (Layout α) _) where
  toComposes := Act.Carries.composes _ _
  page hsame hg := .get_bind (fun _ _ => hsame _ _ rfl) hg
  report := report
  place := place
  emit := emit_picture hpast
  drawn := count fun _ => rfl
  skipped := count fun _ => rfl
  failed := count fun _ => rfl

theorem addOperator (op : Operator α) : Carried past (Layout.addOperator op) :=
  (pictureParts hpast).addOperator
    (fun page verb _ =>
      (pictureParts hpast).drawPath (fun f _ => draw f) (stroke hpast op) page verb)
    fun _ => (pictureParts hpast).drawObject op

/-- No call looks at the past. -/
theorem perform (c : Call α) : Carried past c.perform := by
  cases c with
  | pageBegin number crop rotation => exact beginPage hpast number crop rotation
  | pageEnd => exact endPage hpast
  | resources found => exact addFonts found
  | glyph g => exact addGlyph hpast g
  | operator op => exact addOperator hpast op
  | picture raster user => exact (pictureParts hpast).addPicture raster user

end Carried

/-! ## Calls one after the other -/

variable [Scalar α]

/-- What calls answer, one after the other. -/
def answers : List (Call α) → Layout α → List (Except Fault Unit)
  | [], _ => []
  | c :: cs, l => (c.perform.run l).1 :: answers cs (c.perform.run l).2

theorem takesAll_calls (cs : List (Call α)) {l : Layout α} (h : l.emitter.output.TakesAll) :
    (calls cs l).emitter.output.TakesAll := by
  induction cs generalizing l with
  | nil => exact h
  | cons c cs ih => exact ih (Carried.perform Past.takesOn_empty c l h).1

/-- An output that takes everything takes the end of a page. -/
theorem page_endPage {l : Layout α} (h : l.emitter.output.TakesAll) :
    (endPage.run l).2.page = none := by
  cases hpage : l.page with
  | none =>
    rw [run_endPage_of_none hpage]
    exact hpage
  | some page =>
    have htakes := (Carried.takeParagraph Past.takesOn_empty l.segmenter.endPage.2
      { l with segmenter := l.segmenter.endPage.1 } h).1
    rw [run_endPage_of_page hpage, run_finishPage, Output.answer_of_takesOn htakes.takesOn]
    rfl

/-- Calls answer the same, whatever came before, … -/
theorem answers_behind {past : Past} (hpast : past.TakesOn) (cs : List (Call α)) {l : Layout α}
    (h : l.emitter.output.TakesAll) : answers cs (l.behind past) = answers cs l := by
  induction cs generalizing l with
  | nil => rfl
  | cons c cs ih =>
    obtain ⟨hkept, hcarried⟩ := Carried.perform hpast c l h
    rw [answers, answers, hcarried, ih hkept]

/-- … and leave it as it was. -/
theorem calls_behind {past : Past} (hpast : past.TakesOn) (cs : List (Call α)) {l : Layout α}
    (h : l.emitter.output.TakesAll) : calls cs (l.behind past) = (calls cs l).behind past := by
  induction cs generalizing l with
  | nil => rfl
  | cons c cs ih =>
    obtain ⟨hkept, hcarried⟩ := Carried.perform hpast c l h
    have hfirst : calls (c :: cs) (l.behind past) = calls cs (c.perform.run (l.behind past)).2 := rfl
    rw [hfirst, hcarried]
    exact ih hkept

end Layout

end Folio
