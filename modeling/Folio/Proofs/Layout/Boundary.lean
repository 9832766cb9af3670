import Folio.Proofs.Layout.Past
import Folio.Proofs.Layout.Request
import Folio.Proofs.Scalar.Rational

/-!
# Pages are isolated

What is left of the pages before when no page is open: the options, the font table, the index of the
pictures and the files (`SharesGround`). Two histories that agree on these lay out the next page the
same way, however different they were, and agree on them again when it ends (`page_isolated`).

The past of each history is set aside first, as no call looks at it. Between pages, the rest of a
layout is what it shares and what the last page has left in the path and the segmenter
(`swept_anew`). A page that begins clears both away, and until one does nothing looks at them, so
two layouts that differ in no more are and stay interchangeable (`Interchangeable.perform`).
-/

namespace Folio

open Text (lit)

/-- By how much each counter has grown. -/
def Tally.growth (before after : Tally) : List Int := [
  after.pages - before.pages,
  after.paragraphs - before.paragraphs,
  after.rules - before.rules,
  after.pictures - before.pictures,
  after.skippedPictures - before.skippedPictures,
  after.unsupportedFonts - before.unsupportedFonts,
  after.failures - before.failures]

@[simp] theorem Output.text_behind (past : Past) (o : Output) :
    (o.behind past).text = Text.join past.pieces.reverse ++ o.text := by
  simp [Output.text, Output.behind, Text.join]

namespace Layout

variable {α : Type} [Scalar α]

/-- The layouts have the same options, fonts, index of pictures and files. What an output holds back
from its file counts as part of the files. -/
structure SharesGround (l m : Layout α) : Prop where
  options : l.options = m.options
  fonts : l.fonts = m.fonts
  index : l.placer.index = m.placer.index
  files : l.placer.files = m.placer.files
  file : l.emitter.output.file = m.emitter.output.file

/-- The layout without what a page has left in the path and the segmenter. -/
def swept (l : Layout α) : Layout α :=
  { l with path := l.path.reset .identity, segmenter := l.segmenter.beginPage none }

/-- A layout between two pages, with nothing written. -/
def between (options : Options α) (fonts : FontTable α) (index : Nat) (files : FileTree)
    (file : Option OpenFile) : Layout α where
  options := options
  emitter := { output := { refuses := fun _ _ => none, file := file }, unit := options.unit }
  fonts := fonts
  path := { minStroke := options.minStroke, transform := .identity }
  placer := { index := index, files := files }
  segmenter := .new options
  tally := { unsupportedFonts := fonts.unsupportedCount }

/-- Between pages, nothing is left but what layouts can share. -/
theorem swept_anew {l : Layout α} (h : l.Coherent) (hpage : l.page = none) :
    l.anew.swept
      = between l.options l.fonts l.placer.index l.placer.files l.emitter.output.file := by
  have hclosed : l.emitter.pageOpen = false := by
    rw [← Bool.not_eq_true]
    intro hopen
    have hsome := h.pageOpen hopen
    rw [hpage] at hsome
    cases hsome
  obtain ⟨hunit, hstroke, hsegmenter, hfonts, hlog, -⟩ := h
  obtain ⟨options, ⟨output, unit, pageOpen⟩, fonts, ⟨minStroke, transform⟩, ⟨index, files, log⟩,
    ⟨segmenterOptions, buffer⟩, page, tally⟩ := l
  simp only at hclosed hpage hlog hunit hstroke hsegmenter hfonts
  subst hclosed hpage hlog hunit hstroke hsegmenter
  simp only [anew, hfonts]
  rfl

/-! ## Interchangeable layouts -/

/-- The layouts are the same, or no page is open in either and they differ in no more than what a
page has left. -/
inductive Interchangeable (l m : Layout α) : Prop
  | same (h : l = m)
  | idle (hl : l.page = none) (hm : m.page = none) (h : l.swept = m.swept)

namespace Interchangeable

variable {l m : Layout α}

/-- What a page has left is of no use to the next one. -/
theorem onto_swept (page : Page.Frame α) (log : Log) (l : Layout α) :
    onto page { l.swept with log := l.swept.log ++ log } = onto page { l with log := l.log ++ log } :=
  rfl

theorem swept_addFonts (found : Option (Catalog α × Nat)) (l : Layout α) :
    swept ((addFonts found).run l).2 = ((addFonts found).run l.swept).2 := by
  cases found <;> rfl

/-- A call does the same with both, and leaves them interchangeable. -/
theorem perform (h : Interchangeable l m) (c : Call α) :
    (c.perform.run l).1 = (c.perform.run m).1
      ∧ Interchangeable (c.perform.run l).2 (c.perform.run m).2 := by
  obtain rfl | ⟨hl, hm, h⟩ := h
  · exact ⟨rfl, .same rfl⟩
  cases c with
  | pageBegin number crop rotation =>
    rw [Call.perform, run_beginPage_of_none hl, run_beginPage_of_none hm]
    cases rotation.rotation with
    | error e => exact ⟨rfl, .idle hl hm h⟩
    | ok turn =>
      have honto : ∀ page log, onto page { l with log := l.log ++ log }
          = onto page { m with log := m.log ++ log } := by
        intro page log
        rw [← onto_swept, h, onto_swept]
      obtain ⟨turn, warning⟩ := turn
      simp only
      rw [honto]
      exact ⟨rfl, .same rfl⟩
  | pageEnd =>
    rw [Call.perform, run_endPage_of_none hl, run_endPage_of_none hm]
    exact ⟨rfl, .idle hl hm h⟩
  | resources found =>
    have hanswer : ∀ l : Layout α, ((addFonts found).run l).1 = .ok () := by
      intro l
      cases found <;> rfl
    have hpage : ∀ l : Layout α, ((addFonts found).run l).2.page = l.page := by
      intro l
      cases found <;> rfl
    refine ⟨(hanswer l).trans (hanswer m).symm, .idle ((hpage l).trans hl) ((hpage m).trans hm) ?_⟩
    rw [Call.perform, swept_addFonts, h, ← swept_addFonts]
  | glyph g =>
    rw [Call.perform, run_addGlyph_of_none hl, run_addGlyph_of_none hm]
    exact ⟨rfl, .idle hl hm h⟩
  | operator op =>
    rw [Call.perform, run_addOperator_of_none hl, run_addOperator_of_none hm]
    exact ⟨rfl, .idle hl hm h⟩
  | picture raster user =>
    rw [Call.perform, run_addPicture_of_none hl, run_addPicture_of_none hm]
    exact ⟨rfl, .idle hl hm h⟩

/-- So do calls one after the other. -/
theorem calls (h : Interchangeable l m) (cs : List (Call α)) :
    answers cs l = answers cs m ∧ Interchangeable (calls cs l) (calls cs m) := by
  induction cs generalizing l m with
  | nil => exact ⟨rfl, h⟩
  | cons c cs ih =>
    obtain ⟨hanswer, hafter⟩ := h.perform c
    obtain ⟨hanswers, hcalls⟩ := ih hafter
    exact ⟨by rw [answers, answers, hanswer, hanswers], hcalls⟩

theorem sharesGround (h : Interchangeable l m) : SharesGround l m := by
  obtain rfl | ⟨-, -, h⟩ := h
  · exact ⟨rfl, rfl, rfl, rfl, rfl⟩
  · have hfield : ∀ {β : Type} (f : Layout α → β), f l.swept = f m.swept := fun f => congrArg f h
    exact ⟨hfield (·.options), hfield (·.fonts), hfield (·.placer.index), hfield (·.placer.files),
      hfield (·.emitter.output.file)⟩

/-- Interchangeable layouts have laid out the same. -/
theorem laidOut (h : Interchangeable l m) :
    l.emitter.output.text = m.emitter.output.text ∧ l.tally = m.tally := by
  obtain rfl | ⟨-, -, h⟩ := h
  · exact ⟨rfl, rfl⟩
  · exact ⟨congrArg (·.emitter.output.text) h, congrArg (·.tally) h⟩

end Interchangeable

/-! ## A page -/

/-- A page with whatever is called on it. -/
def wholePage (number : Int) (crop : Option (CropBox α)) (rotation : Angle α)
    (cs : List (Call α)) : List (Call α) :=
  .pageBegin number crop rotation :: cs ++ [.pageEnd]

theorem calls_wholePage (number : Int) (crop : Option (CropBox α)) (rotation : Angle α)
    (cs : List (Call α)) (l : Layout α) :
    calls (wholePage number crop rotation cs) l
      = (endPage.run (calls (.pageBegin number crop rotation :: cs) l)).2 := by
  rw [wholePage, calls, List.foldl_append]
  rfl

/-- What calls do after a past that takes everything from then on. -/
theorem calls_of_takesOn {l : Layout α} (h : l.emitter.output.TakesOn) (cs : List (Call α)) :
    calls cs l = (calls cs l.anew).behind l.past ∧ answers cs l = answers cs l.anew := by
  have hpast : l.past.TakesOn := h
  have hcalls := calls_behind hpast cs (takesAll_anew l)
  have hanswers := answers_behind hpast cs (takesAll_anew l)
  rw [anew_behind_past] at hcalls hanswers
  exact ⟨hcalls, hanswers⟩

/-- After whatever histories, layouts that share their ground lay out the next page the same way, and
share their ground again when it ends. -/
theorem page_isolated {l m : Layout α} (hl : l.Reachable) (hm : m.Reachable)
    (hlpage : l.page = none) (hmpage : m.page = none) (hground : SharesGround l m)
    (hltakes : l.emitter.output.TakesOn) (hmtakes : m.emitter.output.TakesOn)
    (number : Int) (crop : Option (CropBox α)) (rotation : Angle α) (cs : List (Call α)) :
    let page := wholePage number crop rotation cs
    (∃ written, (calls page l).emitter.output.text = l.emitter.output.text ++ written
        ∧ (calls page m).emitter.output.text = m.emitter.output.text ++ written)
      ∧ answers page l = answers page m
      ∧ l.tally.growth (calls page l).tally = m.tally.growth (calls page m).tally
      ∧ SharesGround (calls page l) (calls page m)
      ∧ (calls page l).page = none ∧ (calls page m).page = none := by
  intro page
  have hidle : Interchangeable l.anew m.anew := by
    refine .idle hlpage hmpage ?_
    rw [swept_anew hl.coherent hlpage, swept_anew hm.coherent hmpage, hground.options,
      hground.fonts, hground.index, hground.files, hground.file]
  obtain ⟨hanswers, hafter⟩ := hidle.calls page
  obtain ⟨hlcalls, hlanswers⟩ := calls_of_takesOn hltakes page
  obtain ⟨hmcalls, hmanswers⟩ := calls_of_takesOn hmtakes page
  obtain ⟨htext, htally⟩ := hafter.laidOut
  have hsame := hafter.sharesGround
  -- Both have counted the fonts of the one table.
  have hfonts : l.tally.unsupportedFonts = m.tally.unsupportedFonts := by
    rw [hl.coherent.unsupportedFonts, hm.coherent.unsupportedFonts, hground.fonts]
  have hgrowth : ∀ k : Layout α, ∀ t : Tally, k.tally.growth (k.past.tally.plus t)
      = [(t.pages : Int), t.paragraphs, t.rules, t.pictures, t.skippedPictures,
        t.unsupportedFonts - k.tally.unsupportedFonts, t.failures] := by
    intro k t
    simp [Tally.growth, Tally.plus, past]
  rw [hlcalls, hmcalls]
  refine ⟨⟨(calls page l.anew).emitter.output.text, ?_, ?_⟩, ?_, ?_, ?_, ?_, ?_⟩
  · exact Output.text_behind _ _
  · rw [htext]
    exact Output.text_behind _ _
  · rw [hlanswers, hmanswers, hanswers]
  · show l.tally.growth (l.past.tally.plus _) = m.tally.growth (m.past.tally.plus _)
    rw [hgrowth, hgrowth, htally, hfonts]
  · exact ⟨hsame.options, hsame.fonts, hsame.index, hsame.files, hsame.file⟩
  · show (calls page l.anew).page = none
    rw [calls_wholePage]
    exact page_endPage (takesAll_calls _ (takesAll_anew l))
  · show (calls page m.anew).page = none
    rw [calls_wholePage]
    exact page_endPage (takesAll_calls _ (takesAll_anew m))

/-- The usual options make sense. -/
theorem check_standard : (Options.standard : Options ℚ).check = .ok () := by
  have hgap : ¬(Options.standard : Options ℚ).wordGapTolerance ≤ 0 := by
    show ¬((2 : ℕ) : ℚ) ≤ 0
    norm_num
  have hspacing : ¬(Options.standard : Options ℚ).lineSpacingTolerance < 0 := by
    show ¬((1 : ℕ) : ℚ) < 0
    norm_num
  have hfactors : ¬((Options.standard : Options ℚ).alignmentFactor ≤ 0
      ∨ (Options.standard : Options ℚ).marginFactor ≤ 0) := by
    show ¬(((4 : ℕ) : ℚ) ≤ 0 ∨ ((11 : ℕ) : ℚ) / ((10 : ℕ) : ℚ) ≤ 0)
    norm_num
  have hstroke : ¬(Options.standard : Options ℚ).minStroke < 0 := by
    show ¬((1 : ℕ) : ℚ) / ((2 : ℕ) : ℚ) < 0
    norm_num
  rw [Options.check, if_neg hgap, if_neg hspacing, if_neg hfactors, if_neg hstroke]
  rfl

theorem reachable_requests (rs : List (Request ℚ)) :
    Reachable (requests rs (start .standard .memory {})) := by
  refine ⟨.standard, .memory, {}, start .standard .memory {}, rs, ?_, rfl⟩
  rw [new, check_standard]
  rfl

/-- Two pages, of which the first is never ended and the second asks for an odd rotation. -/
def visits : List (Request ℚ) := [
  .documentBegin none,
  .call (.pageBegin 7 none (.whole 0)),
  .call (.glyph ⟨lit "a", 0, 0, 10, 10, none, 10, 10, 10⟩),
  .call (.pageBegin 8 none (.whole 45)),
  .call .pageEnd]

/-- A glyph on the next page comes out as it does on the first page of all. -/
theorem page_isolated_visits :
    let l := requests [] (start (.standard : Options ℚ) .memory {})
    let m := requests visits (start .standard .memory {})
    let page := wholePage 1 none (.whole 90)
      [.glyph ⟨lit "b", 0, 0, 10, 10, none, 10, 10, 10⟩]
    (∃ written, (calls page l).emitter.output.text = l.emitter.output.text ++ written
        ∧ (calls page m).emitter.output.text = m.emitter.output.text ++ written)
      ∧ answers page l = answers page m
      ∧ l.tally.growth (calls page l).tally = m.tally.growth (calls page m).tally
      ∧ SharesGround (calls page l) (calls page m)
      ∧ (calls page l).page = none ∧ (calls page m).page = none :=
  page_isolated (reachable_requests []) (reachable_requests visits) rfl rfl
    ⟨rfl, rfl, rfl, rfl, rfl⟩ (fun _ _ _ => rfl) (fun _ _ _ => rfl) 1 none (.whole 90) _

end Layout

end Folio
