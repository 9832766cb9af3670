import Folio.Proofs.Paragraph.Delivery
import Folio.Proofs.Paragraph.Run
import Folio.Proofs.Scalar.Rational

/-!
# No glyph is lost

The segmenter keeps the paragraph under construction in a buffer that is filled, merged, indented
and handed out from several places. The invariant that carries all of them is `Holds`: what the
buffer holds is what one run of glyphs makes, and the run ends with the latest glyph. One more
glyph lengthens the run, or the run is handed out whole and the glyph starts the next one
(`feed_of_holds`). From this, by induction over a page, the glyphs fed are cut into runs and exactly
the paragraphs of the runs that are not blank are offered, in order and once each
(`offered_page`), whatever becomes of those offered before.
-/

namespace Folio

namespace ParagraphBuffer

variable {α : Type}

theorem join_reverse_cons (t : Text) (pieces : List Text) :
    Text.join (t :: pieces).reverse = Text.join pieces.reverse ++ t := by
  simp [Text.join]

/-- Blanks are the placeholder so many times over, whenever there are any. -/
theorem blanks_eq_replicate {room count : Nat} {placeholder t : Text}
    (h : blanks room count placeholder = .ok t) : t = Text.replicate count placeholder := by
  unfold blanks at h
  split at h
  · cases h
  · split at h
    next hempty =>
      cases h
      rw [List.isEmpty_iff.mp hempty]
      simp [Text.replicate, Text.join]
    · split at h
      · cases h
      · split at h
        · cases h
        · cases h
          rfl

/-- Putting blanks in changes the two texts alone. -/
theorem appendBlanks_eq {b b' : ParagraphBuffer α} {room : Nat} {count : Int}
    {placeholder : Text} (h : b.appendBlanks room count placeholder = .ok b') :
    ∃ pieces, b' = { b with parts := pieces ++ b.parts, plain := pieces ++ b.plain }
      ∧ Text.join pieces.reverse = Text.replicate count.toNat placeholder := by
  unfold appendBlanks at h
  split at h
  next hcount =>
    cases h
    refine ⟨[], rfl, ?_⟩
    rw [Int.toNat_of_nonpos hcount]
    rfl
  next =>
    cases hblanks : blanks room count.toNat placeholder with
    | error e => rw [hblanks] at h; cases h
    | ok t =>
      rw [hblanks] at h
      cases h
      refine ⟨[t], rfl, ?_⟩
      rw [← blanks_eq_replicate hblanks]
      simp [Text.join]

end ParagraphBuffer

namespace Segmenter

variable {α : Type} [Scalar α]

/-! ## The invariant -/

/-- The segmenter holds the run back, whose latest glyph has that look. -/
structure Holds (s : Segmenter α) (r : Run α) (face : Face) : Prop where
  previous : s.previous = some r.last
  parts_ne : s.buffer.parts ≠ []
  parts : Text.join s.buffer.parts.reverse = r.lead s.options ++ r.text s.options
  plain : Text.join s.buffer.plain.reverse = r.plain s.options
  metrics : s.buffer.metrics = some r.metrics
  face : s.buffer.face = some face
  fontSize : s.buffer.fontSize = r.last.xScale
  sentenceOpen : s.buffer.sentenceOpen = !Run.endsSentence s.options r.last
  indentApplied : s.buffer.indentApplied = (s.options.correctsIndent && r.metrics.manyLines)

/-- The segmenter has seen no glyph of its page yet. -/
structure Fresh (s : Segmenter α) : Prop where
  previous : s.previous = none
  buffer : s.buffer = .empty

/-- The segmenter holds the run back and has made room for a glyph that will join it. -/
structure MakesRoom (s : Segmenter α) (r : Run α) (glyph : Glyph α) : Prop where
  parts : Text.join s.buffer.parts.reverse = (r.snoc glyph).lead s.options ++ r.text s.options
    ++ Text.replicate (Run.blanksBetween r.last glyph) s.options.placeholder
  plain : Text.join s.buffer.plain.reverse = r.plain s.options
    ++ Text.replicate (Run.blanksBetween r.last glyph) s.options.placeholder
  metrics : ∃ m, s.buffer.metrics = some m ∧ m.append glyph = Run.measure r.metrics glyph
  sentenceOpen : s.buffer.sentenceOpen = !Run.endsSentence s.options r.last
  indentApplied :
    s.buffer.indentApplied = (s.options.correctsIndent && (Run.measure r.metrics glyph).manyLines)

/-! ## Handing out -/

/-- A run that is held back is handed out as its paragraph, unless it is blank. -/
theorem flush_of_holds {s : Segmenter α} {r : Run α} {face : Face} (h : s.Holds r face) :
    s.flush.2 = r.paragraph? s.options face ∧ s.flush.1.buffer = .empty
      ∧ s.flush.1.options = s.options ∧ s.flush.1.previous = s.previous := by
  have hparts : s.buffer.isEmpty = false := by
    simpa [ParagraphBuffer.isEmpty] using h.parts_ne
  have hblank : s.buffer.isBlank = r.isBlank s.options := by
    rw [ParagraphBuffer.isBlank, h.plain, Run.isBlank]
  have hmarkup : s.buffer.markup = r.content s.options := by
    rw [ParagraphBuffer.markup, h.parts, h.sentenceOpen, Run.content]
    cases Run.endsSentence s.options r.last <;> rfl
  refine ⟨?_, ?_, ?_, ?_⟩
  · rw [flush, hparts, hblank, Run.paragraph?]
    by_cases hb : r.isBlank s.options = true
    · simp only [hb, Bool.false_eq_true, if_false, if_true]
    · simp only [hb, Bool.false_eq_true, if_false, h.metrics, Option.map_some]
      simp [paragraph, Run.paragraph, h.face, h.fontSize, hmarkup]
  · simp [flush, hparts]
  · simp [flush, hparts]
  · simp [flush, hparts]

/-- Nothing is handed out before the first glyph. -/
theorem flush_of_fresh {s : Segmenter α} (h : s.Fresh) : s.flush.2 = none := by
  simp [flush, h.buffer, ParagraphBuffer.isEmpty, ParagraphBuffer.empty]

/-- A glyph before which the paragraph ends finds the run handed out and an empty buffer. -/
theorem breakBefore_of_holds {s : Segmenter α} {r : Run α} {face : Face} (h : s.Holds r face)
    (glyph : Glyph α) :
    (s.breakBefore glyph).2 = r.paragraph? s.options face
      ∧ (s.breakBefore glyph).1.buffer = .empty
      ∧ (s.breakBefore glyph).1.options = s.options := by
  obtain ⟨hout, hbuffer, hoptions, -⟩ := flush_of_holds h
  exact ⟨hout, hbuffer, hoptions⟩

/-! ## Taking a glyph in -/

/-- A glyph put into an empty buffer starts a run. -/
theorem append_of_empty {s : Segmenter α} (h : s.buffer = .empty) (fonts : FontTable α)
    (glyph : Glyph α) : (s.append fonts glyph).Holds ⟨glyph, []⟩ (fonts.face glyph.font) where
  previous := rfl
  parts_ne := by
    simp only [append, ParagraphBuffer.appendText]
    split <;> simp
  parts := by
    have hlead : (⟨glyph, []⟩ : Run α).lead s.options = [] := Run.lead_of_oneLine _ rfl
    show _ = (⟨glyph, []⟩ : Run α).lead s.options ++ _
    rw [hlead]
    simp only [append, h, ParagraphBuffer.appendText, ParagraphBuffer.empty, Run.text, Run.piece,
      Run.following, Run.shown, Run.endsSentence]
    split <;> simp [Text.join, Text.replicate]
  plain := by
    simp [append, h, ParagraphBuffer.appendText, ParagraphBuffer.empty, Run.plain,
      Run.plainFollowing, Text.join]
  metrics := by simp [append, h, ParagraphBuffer.appendText, ParagraphBuffer.empty]
  face := rfl
  fontSize := rfl
  sentenceOpen := rfl
  indentApplied := by
    simp [append, h, ParagraphBuffer.appendText, ParagraphBuffer.empty, Metrics.start]

/-- A glyph for which room has been made lengthens the run. -/
theorem append_of_makesRoom {s : Segmenter α} {r : Run α} {glyph : Glyph α}
    (h : s.MakesRoom r glyph) (fonts : FontTable α) :
    (s.append fonts glyph).Holds (r.snoc glyph) (fonts.face glyph.font) where
  previous := by rw [Run.last_snoc]; rfl
  parts_ne := by
    simp only [append, ParagraphBuffer.appendText]
    split <;> simp
  parts := by
    show Text.join (s.append fonts glyph).buffer.parts.reverse
      = (r.snoc glyph).lead s.options ++ (r.snoc glyph).text s.options
    rw [Run.text_snoc, Run.piece, ← h.sentenceOpen]
    have hends : Run.endsSentence s.options glyph = s.options.terminators.contains glyph.text := rfl
    simp only [append, ParagraphBuffer.appendText, Run.shown, ← hends]
    have hparts := h.parts
    rw [Text.join] at hparts
    -- A sentence may have to be opened before the glyph and closed behind it.
    by_cases hopen : s.buffer.sentenceOpen = true <;>
      by_cases hend : Run.endsSentence s.options glyph = true <;>
        simp [hopen, hend, Text.join, hparts]
  plain := by
    show Text.join (glyph.text :: s.buffer.plain).reverse = (r.snoc glyph).plain s.options
    rw [ParagraphBuffer.join_reverse_cons, h.plain, Run.plain_snoc, List.append_assoc]
  metrics := by
    obtain ⟨m, hm, hmeasure⟩ := h.metrics
    rw [Run.metrics_snoc, ← hmeasure]
    simp only [append, hm, ParagraphBuffer.appendText]
  face := rfl
  fontSize := by rw [Run.last_snoc]; rfl
  sentenceOpen := by rw [Run.last_snoc]; rfl
  indentApplied := by
    rw [Run.metrics_snoc]
    exact h.indentApplied

/-! ## Making room -/

/-- A gap that is judged to be blanks is the whole part of the gap in average widths. -/
theorem blanks_of_judge {tolerance : α} {previous glyph : Glyph α} {count : Int}
    (hline : Run.startsLine previous glyph = false)
    (h : judge tolerance (gap? previous glyph) = .ok (.blanks count)) :
    Run.blanksBetween previous glyph = count.toNat := by
  rw [Run.blanksBetween, hline]
  cases hgap : gap? previous glyph with
  | none =>
    rw [hgap, judge] at h
    split at h <;> cases h
  | some gap =>
    rw [hgap, judge] at h
    split at h
    · cases h
    · cases htruncate : Scalar.truncate gap with
      | error e => rw [htruncate] at h; cases h
      | ok n =>
        rw [htruncate] at h
        cases h
        simp [htruncate]

/-- Blanks make room for a glyph on the same line. -/
theorem makesRoom_of_blanks {s : Segmenter α} {r : Run α} {face : Face} (h : s.Holds r face)
    {glyph : Glyph α} (hline : Run.startsLine r.last glyph = false) {count : Int}
    (hcount : Run.blanksBetween r.last glyph = count.toNat) {b : ParagraphBuffer α}
    (hb : s.buffer.appendBlanks s.options.machine.room count s.options.placeholder = .ok b) :
    MakesRoom { s with buffer := b } r glyph := by
  obtain ⟨pieces, rfl, hpieces⟩ := ParagraphBuffer.appendBlanks_eq hb
  have hmeasure : Run.measure r.metrics glyph = r.metrics.append glyph := by
    rw [Run.measure, Run.last_metrics, hline]
    rfl
  refine ⟨?_, ?_, ⟨r.metrics, h.metrics, hmeasure.symm⟩, h.sentenceOpen, ?_⟩
  · -- A glyph on the same line has no part in the spacer.
    have hindent : (r.snoc glyph).indent? s.options = r.indent? s.options := by
      rw [Run.indent?_snoc]
      by_cases hmany : r.metrics.manyLines = true
      · rw [if_pos hmany]
      · rw [if_neg hmany, Run.indent?_of_oneLine _ (Bool.eq_false_iff.mpr hmany)]
        simp [Run.indentAfter, hline]
    have hlead : (r.snoc glyph).lead s.options = r.lead s.options := by
      rw [Run.lead, Run.lead, hindent]
    show Text.join (pieces ++ s.buffer.parts).reverse
      = (r.snoc glyph).lead s.options ++ r.text s.options ++ Text.replicate _ s.options.placeholder
    rw [hlead, hcount, ← hpieces, ← h.parts]
    simp [Text.join]
  · show Text.join (pieces ++ s.buffer.plain).reverse
      = r.plain s.options ++ Text.replicate _ s.options.placeholder
    rw [hcount, ← hpieces, ← h.plain]
    simp [Text.join]
  · show s.buffer.indentApplied
      = (s.options.correctsIndent && (Run.measure r.metrics glyph).manyLines)
    rw [hmeasure]
    exact h.indentApplied

section

variable (s : Segmenter α) (previous glyph : Glyph α) (spacing : α)

theorem plain_mergeLine :
    (s.mergeLine previous glyph spacing).buffer.plain = s.buffer.plain := by
  simp only [mergeLine]
  split
  · split <;> rfl
  · rfl

theorem sentenceOpen_mergeLine :
    (s.mergeLine previous glyph spacing).buffer.sentenceOpen = s.buffer.sentenceOpen := by
  simp only [mergeLine]
  split
  · split <;> rfl
  · rfl

theorem metrics_mergeLine {m : Metrics α} (h : s.buffer.metrics = some m) :
    (s.mergeLine previous glyph spacing).buffer.metrics
      = some (m.nextLine glyph previous spacing) := by
  simp only [mergeLine, h, Option.getD_some]
  split
  · split <;> rfl
  · rfl

theorem indentApplied_mergeLine :
    (s.mergeLine previous glyph spacing).buffer.indentApplied
      = (s.options.correctsIndent || s.buffer.indentApplied) := by
  simp only [mergeLine]
  cases s.options.correctsIndent <;> cases s.buffer.indentApplied <;> rfl

end

/-- The spacer goes in with the first further line, and only then. -/
theorem parts_mergeLine_of_holds {s : Segmenter α} {r : Run α} {face : Face} (h : s.Holds r face)
    {glyph : Glyph α} (hline : Run.startsLine r.last glyph = true) (spacing : α) :
    Text.join (s.mergeLine r.last glyph spacing).buffer.parts.reverse
      = (r.snoc glyph).lead s.options ++ r.text s.options := by
  have happlied := h.indentApplied
  rw [Run.lead_snoc_of_startsLine hline]
  simp only [mergeLine, h.metrics, Option.getD_some]
  by_cases hcorrects : s.options.correctsIndent = true
  · rw [hcorrects, Bool.true_and] at happlied
    by_cases hmany : r.metrics.manyLines = true
    · simp [hcorrects, hmany, happlied, h.parts]
    · have hnone : r.lead s.options = [] := Run.lead_of_oneLine _ (Bool.eq_false_iff.mpr hmany)
      by_cases hpos : 0 < r.metrics.indent glyph
      · simp [hcorrects, hmany, happlied, hpos, ParagraphBuffer.insertIndent, Text.join]
        simpa [Text.join, hnone] using h.parts
      · simp [hcorrects, hmany, happlied, hpos]
        simpa [hnone] using h.parts
  · have hnone : r.lead s.options = [] := by simp [Run.lead, Run.indent?, hcorrects]
    simp [hcorrects, h.parts, hnone]

/-- Merging the line makes room for a glyph that starts a further one. -/
theorem makesRoom_of_mergeLine {s : Segmenter α} {r : Run α} {face : Face} (h : s.Holds r face)
    {glyph : Glyph α} (hline : Run.startsLine r.last glyph = true) :
    (s.mergeLine r.last glyph (Scalar.abs (r.last.y - glyph.y))).MakesRoom r glyph := by
  have hblanks : Text.replicate (Run.blanksBetween r.last glyph) s.options.placeholder = [] := by
    rw [Run.blanksBetween, if_pos hline]
    rfl
  have hmeasure : Run.measure r.metrics glyph
      = (r.metrics.nextLine glyph r.last (Scalar.abs (r.last.y - glyph.y))).append glyph := by
    rw [Run.measure, Run.last_metrics, if_pos hline]
  have hmany : (Run.measure r.metrics glyph).manyLines = true := by
    rw [Run.manyLines_measure, Run.last_metrics, hline, Bool.or_true]
  refine ⟨?_, ?_, ⟨_, metrics_mergeLine _ _ _ _ h.metrics, hmeasure.symm⟩, ?_, ?_⟩
  · refine (parts_mergeLine_of_holds h hline _).trans ?_
    show _ = (r.snoc glyph).lead s.options ++ r.text s.options
      ++ Text.replicate (Run.blanksBetween r.last glyph) s.options.placeholder
    rw [hblanks, List.append_nil]
  · rw [plain_mergeLine, h.plain]
    show _ = r.plain s.options
      ++ Text.replicate (Run.blanksBetween r.last glyph) s.options.placeholder
    rw [hblanks, List.append_nil]
  · rw [sentenceOpen_mergeLine]
    exact h.sentenceOpen
  · rw [indentApplied_mergeLine, h.indentApplied, hmany, Bool.and_true]
    show _ = s.options.correctsIndent
    cases s.options.correctsIndent <;> rfl

/-! ## One glyph -/

/-- The invariant reads three fields of the segmenter only. -/
theorem Holds.of_eq {s s' : Segmenter α} {r : Run α} {face : Face} (h : s.Holds r face)
    (hoptions : s'.options = s.options) (hbuffer : s'.buffer = s.buffer)
    (hprevious : s'.previous = s.previous) : s'.Holds r face := by
  obtain ⟨h₁, h₂, h₃, h₄, h₅, h₆, h₇, h₈, h₉⟩ := h
  constructor <;> simp only [hoptions, hbuffer, hprevious] <;> assumption

theorem Holds.noteFailure {s : Segmenter α} {r : Run α} {face : Face} (h : s.Holds r face) :
    s.noteFailure.Holds r face :=
  h.of_eq rfl rfl rfl

/-- A segmenter has made room for a glyph that follows the run: it joins the run, or the run has
been handed out. -/
def RoomAfter (s : Segmenter α) (r : Run α) (face : Face) (glyph : Glyph α)
    (answer : Segmenter α × Option (Paragraph α)) : Prop :=
  answer.1.options = s.options
    ∧ ((answer.2 = none ∧ answer.1.MakesRoom r glyph)
      ∨ (answer.2 = r.paragraph? s.options face ∧ answer.1.buffer = .empty))

theorem roomAfter_breakBefore {s : Segmenter α} {r : Run α} {face : Face} (h : s.Holds r face)
    (glyph : Glyph α) : s.RoomAfter r face glyph (s.breakBefore glyph) := by
  obtain ⟨hout, hbuffer, hoptions⟩ := breakBefore_of_holds h glyph
  exact ⟨hoptions, .inr ⟨hout, hbuffer⟩⟩

theorem roomAfter_sameLine {s : Segmenter α} {r : Run α} {face : Face} (h : s.Holds r face)
    {glyph : Glyph α} (hline : Run.startsLine r.last glyph = false)
    {answer : Segmenter α × Option (Paragraph α)} (ha : s.sameLine r.last glyph = .ok answer) :
    s.RoomAfter r face glyph answer := by
  unfold sameLine at ha
  cases hjudge : judge s.options.wordGapTolerance (gap? r.last glyph) with
  | error e => rw [hjudge] at ha; cases ha
  | ok gap =>
    rw [hjudge] at ha
    cases gap with
    | split =>
      cases ha
      exact roomAfter_breakBefore h glyph
    | blanks count =>
      cases hblanks : s.buffer.appendBlanks s.options.machine.room count s.options.placeholder with
      | error e =>
        simp only [bind, Except.bind, hblanks] at ha
        cases ha
      | ok b =>
        simp only [bind, Except.bind, hblanks] at ha
        cases ha
        exact ⟨rfl, .inl ⟨rfl, makesRoom_of_blanks h hline (blanks_of_judge hline hjudge) hblanks⟩⟩

theorem roomAfter_newLine {s : Segmenter α} {r : Run α} {face : Face} (h : s.Holds r face)
    {glyph : Glyph α} (hline : Run.startsLine r.last glyph = true) :
    s.RoomAfter r face glyph (s.newLine r.last glyph (Scalar.abs (r.last.y - glyph.y))) := by
  unfold newLine
  extract_lets s₁ s₂
  -- The margins, the spacing and the starts of lines have no part in the invariant.
  have h₁ : s₁.Holds r face := h.of_eq rfl rfl rfl
  have h₂ : s₂.Holds r face := h.of_eq rfl rfl rfl
  split
  · exact roomAfter_breakBefore h₁ glyph
  · split
    · refine ⟨?_, .inl ⟨rfl, makesRoom_of_mergeLine h₂ hline⟩⟩
      simp only [mergeLine]
      rfl
    · exact roomAfter_breakBefore h₂ glyph

/-- Whatever way room is made for a glyph, it joins the run or finds the run handed out. -/
theorem roomAfter_advance {s : Segmenter α} {r : Run α} {face : Face} (h : s.Holds r face)
    {glyph : Glyph α} {answer : Segmenter α × Option (Paragraph α)}
    (ha : s.advance glyph = .ok answer) : s.RoomAfter r face glyph answer := by
  unfold advance at ha
  rw [h.previous] at ha
  by_cases hline : Run.startsLine r.last glyph = true
  · have hgap : Scalar.greater r.last.height glyph.height < Scalar.abs (r.last.y - glyph.y) := by
      simpa [Run.startsLine] using hline
    simp only [if_pos hgap] at ha
    cases ha
    exact roomAfter_newLine h hline
  · have hgap : ¬ Scalar.greater r.last.height glyph.height < Scalar.abs (r.last.y - glyph.y) := by
      simpa [Run.startsLine] using hline
    simp only [if_neg hgap] at ha
    exact roomAfter_sameLine h (Bool.eq_false_iff.mpr hline) ha

/-- One more glyph lengthens the run that is held back, or the run is handed out and the glyph
starts the next one. -/
theorem feed_of_holds {s s' : Segmenter α} {r : Run α} {face : Face} (h : s.Holds r face)
    {fonts : FontTable α} {glyph : Glyph α} {out : Option (Paragraph α)}
    (hfeed : s.feed fonts glyph = .ok (s', out)) :
    s'.options = s.options
      ∧ ((out = none ∧ s'.Holds (r.snoc glyph) (fonts.face glyph.font))
        ∨ (out = r.paragraph? s.options face ∧ s'.Holds ⟨glyph, []⟩ (fonts.face glyph.font))) := by
  unfold feed at hfeed
  cases hadvance : s.advance glyph with
  | error e => rw [hadvance] at hfeed; cases hfeed
  | ok answer =>
    rw [hadvance] at hfeed
    cases hfeed
    obtain ⟨hoptions, hroom⟩ := roomAfter_advance h hadvance
    refine ⟨hoptions, ?_⟩
    rcases hroom with ⟨hout, hroom⟩ | ⟨hout, hempty⟩
    · exact .inl ⟨hout, append_of_makesRoom hroom fonts⟩
    · exact .inr ⟨hout, append_of_empty hempty fonts glyph⟩

/-- The first glyph of a page starts a run. -/
theorem feed_of_fresh {s : Segmenter α} (h : s.Fresh) (fonts : FontTable α) (glyph : Glyph α) :
    ∃ s', s.feed fonts glyph = .ok (s', none) ∧ s'.options = s.options
      ∧ s'.Holds ⟨glyph, []⟩ (fonts.face glyph.font) := by
  unfold feed advance
  rw [h.previous]
  refine ⟨_, rfl, rfl, append_of_empty ?_ fonts glyph⟩
  exact h.buffer

theorem fresh_beginPage (s : Segmenter α) (width : Option α) : (s.beginPage width).Fresh :=
  ⟨rfl, rfl⟩

end Segmenter

/-! ## A page -/

namespace Delivery

variable {α τ : Type} [Scalar α]

/-- The paragraphs of runs: one for each run that is not blank. -/
def paragraphs (options : Options α) (fonts : FontTable α) (runs : List (Run α)) :
    List (Paragraph α) :=
  (runs.filter fun r => !r.isBlank options).map fun r =>
    r.paragraph options (fonts.face r.last.font)

/-- Since the first delivery exactly the paragraphs of the runs have been offered. -/
structure Settles (take : Paragraph α → Act τ Unit) (fonts : FontTable α) (d₀ d : Delivery α τ)
    (runs : List (Run α)) : Prop where
  options : d.segmenter.options = d₀.segmenter.options
  offered : d.offered = d₀.offered ++ paragraphs d₀.segmenter.options fonts runs
  taker : d.taker = takeAll take (paragraphs d₀.segmenter.options fonts runs) d₀.taker

variable {take : Paragraph α → Act τ Unit} {fonts : FontTable α} {d₀ d : Delivery α τ}
  {runs : List (Run α)}

theorem paragraphs_concat (options : Options α) (runs : List (Run α)) (r : Run α) :
    paragraphs options fonts (runs ++ [r]) = paragraphs options fonts runs
      ++ (r.paragraph? options (fonts.face r.last.font)).toList := by
  unfold paragraphs Run.paragraph?
  by_cases hblank : r.isBlank options = true
  · simp [hblank]
  · simp [hblank]

omit [Scalar α] in
theorem options_offer (out : Option (Paragraph α)) :
    (d.offer take out).segmenter.options = d.segmenter.options := by
  rcases segmenter_offer take d out with hs | hs <;> rw [hs]
  rfl

theorem holds_offer {r : Run α} {face : Face} (h : d.segmenter.Holds r face)
    (out : Option (Paragraph α)) : (d.offer take out).segmenter.Holds r face := by
  rcases segmenter_offer take d out with hs | hs <;> rw [hs]
  · exact h
  · exact h.noteFailure

/-- A run that is handed out is offered. -/
theorem Settles.offer (h : Settles take fonts d₀ d runs) {s : Segmenter α}
    (hoptions : s.options = d.segmenter.options) (r : Run α) :
    Settles take fonts d₀
      ({ d with segmenter := s }.offer take
        (r.paragraph? d.segmenter.options (fonts.face r.last.font))) (runs ++ [r]) where
  options := by rw [options_offer]; exact hoptions.trans h.options
  offered := by
    rw [offered_offer, paragraphs_concat, ← List.append_assoc, h.options]
    exact congrArg (· ++ _) h.offered
  taker := by
    rw [taker_offer, paragraphs_concat, takeAll_append, h.options]
    exact congrArg (takeAll take _) h.taker

/-- Feeding glyphs cuts them into runs, of which the last one is held back. -/
theorem settles_feedAll {glyphs : List (Glyph α)} {d' : Delivery α τ} {r : Run α}
    (hd : Settles take fonts d₀ d runs) (hr : d.segmenter.Holds r (fonts.face r.last.font))
    (h : glyphs.foldlM (feed take fonts) d = .ok d') :
    ∃ runs' r', Settles take fonts d₀ d' runs'
      ∧ d'.segmenter.Holds r' (fonts.face r'.last.font)
      ∧ runs'.flatMap Run.glyphs ++ r'.glyphs = runs.flatMap Run.glyphs ++ r.glyphs ++ glyphs := by
  induction glyphs generalizing d runs r with
  | nil =>
    cases h
    exact ⟨runs, r, hd, hr, (List.append_nil _).symm⟩
  | cons glyph glyphs ih =>
    rw [List.foldlM_cons] at h
    cases hfeed : d.segmenter.feed fonts glyph with
    | error e =>
      rw [feed, hfeed] at h
      cases h
    | ok answer =>
      rw [feed, hfeed] at h
      change glyphs.foldlM (feed take fonts) ({ d with segmenter := answer.1 }.offer take answer.2)
        = .ok d' at h
      obtain ⟨hoptions, hjoin⟩ := Segmenter.feed_of_holds hr hfeed
      rcases hjoin with ⟨hout, hholds⟩ | ⟨hout, hholds⟩
      · -- The glyph joins the run.
        have hd' : Settles take fonts d₀ ({ d with segmenter := answer.1 }.offer take answer.2) runs := by
          rw [hout]
          exact ⟨hoptions.trans hd.options, hd.offered, hd.taker⟩
        have hlast : (r.snoc glyph).last = glyph := Run.last_snoc r glyph
        obtain ⟨runs', r', hsettles, hr', hglyphs⟩ :=
          ih hd' (by rw [hlast]; exact holds_offer hholds _) h
        refine ⟨runs', r', hsettles, hr', ?_⟩
        rw [hglyphs, Run.glyphs_snoc]
        simp only [List.append_assoc, List.singleton_append]
      · -- The run is handed out, and the glyph starts the next one.
        have hd' : Settles take fonts d₀ ({ d with segmenter := answer.1 }.offer take answer.2)
            (runs ++ [r]) := by
          rw [hout]
          exact hd.offer hoptions r
        have hsingle : (⟨glyph, []⟩ : Run α).last = glyph := rfl
        obtain ⟨runs', r', hsettles, hr', hglyphs⟩ :=
          ih hd' (by rw [hsingle]; exact holds_offer hholds _) h
        refine ⟨runs', r', hsettles, hr', ?_⟩
        rw [hglyphs]
        simp [Run.glyphs]

/-- The glyphs of a page are cut into runs, and exactly the paragraphs of the runs that are not
blank are offered, in order and once each, whichever of them are refused. -/
theorem offered_page {glyphs : List (Glyph α)} {width : Option α} {d' : Delivery α τ}
    (h : d.page take fonts width glyphs = .ok d') :
    ∃ runs : List (Run α), runs.flatMap Run.glyphs = glyphs
      ∧ d'.offered = d.offered ++ paragraphs d.segmenter.options fonts runs
      ∧ d'.taker = takeAll take (paragraphs d.segmenter.options fonts runs) d.taker := by
  have hbegin : Settles take fonts d { d with segmenter := d.segmenter.beginPage width } [] :=
    ⟨rfl, (List.append_nil _).symm, rfl⟩
  have hfresh := Segmenter.fresh_beginPage d.segmenter width
  unfold page at h
  cases glyphs with
  | nil =>
    cases h
    exact ⟨[], rfl, hbegin.offered, hbegin.taker⟩
  | cons glyph glyphs =>
    -- The first glyph is held back in any case; from there on the invariant carries the page.
    obtain ⟨s, hfeed, hoptions, hholds⟩ := Segmenter.feed_of_fresh hfresh fonts glyph
    rw [List.foldlM_cons, feed, hfeed] at h
    cases hfold : glyphs.foldlM (feed take fonts) { d with segmenter := s } with
    | error e =>
      simp only [bind, Except.bind, pure, Except.pure, offer, hfold] at h
      cases h
    | ok d₁ =>
      simp only [bind, Except.bind, pure, Except.pure, offer, hfold] at h
      cases h
      have hstart : Settles take fonts d { d with segmenter := s } [] :=
        ⟨hoptions, hbegin.offered, hbegin.taker⟩
      obtain ⟨runs, r, hsettles, hr, hglyphs⟩ := settles_feedAll hstart hholds hfold
      obtain ⟨hout, -, hkept, -⟩ := Segmenter.flush_of_holds hr
      have hkept' : d₁.segmenter.endPage.1.options = d₁.segmenter.options := hkept
      have hend := hsettles.offer hkept' r
      refine ⟨runs ++ [r], ?_, ?_, ?_⟩
      · rw [List.flatMap_append, List.flatMap_singleton, hglyphs]
        rfl
      · rw [← hend.offered, ← hout]
        rfl
      · rw [← hend.taker, ← hout]
        rfl

/-- Two glyphs close together and a third far off. -/
def wideGap : List (Glyph ℚ) :=
  [("A", 0), ("B", 15), ("C", 100)].map fun g => ⟨Text.lit g.1, g.2, 0, 10, 10, none, 10, 10, 10⟩

/-- Refuses the first paragraph and no other. -/
def refuseFirst (_ : Paragraph ℚ) : Act Nat Unit := do
  let n ← get
  set (n + 1)
  if n = 0 then throw (.device [])

/-- The wide gap cuts the glyphs into two runs, and the second is offered although the first is
refused. -/
theorem offered_page_wideGap :
    ∃ d', (⟨.new .standard, 0, []⟩ : Delivery ℚ Nat).page refuseFirst ⟨[], [], []⟩ none wideGap
        = .ok d'
      ∧ d'.offered.map (·.content)
        = [Text.lit "<span class=\"seq\">AB</span>", Text.lit "<span class=\"seq\">C</span>"]
      ∧ ∃ runs : List (Run ℚ), runs.flatMap Run.glyphs = wideGap
        ∧ d'.offered = paragraphs .standard ⟨[], [], []⟩ runs := by
  have hpage : ((⟨.new .standard, 0, []⟩ : Delivery ℚ Nat).page refuseFirst ⟨[], [], []⟩ none
      wideGap).toOption.map (fun d => d.offered.map (·.content))
        = some [Text.lit "<span class=\"seq\">AB</span>", Text.lit "<span class=\"seq\">C</span>"] := by
    decide +kernel
  cases h : (⟨.new .standard, 0, []⟩ : Delivery ℚ Nat).page refuseFirst ⟨[], [], []⟩ none wideGap with
  | error e => rw [h] at hpage; cases hpage
  | ok d' =>
    rw [h] at hpage
    obtain ⟨runs, hglyphs, hoffered, -⟩ := offered_page h
    exact ⟨d', rfl, Option.some.inj hpage, runs, hglyphs, hoffered⟩

end Delivery

end Folio
