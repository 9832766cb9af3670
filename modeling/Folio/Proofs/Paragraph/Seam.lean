import Folio.Proofs.Paragraph.Conservation
import Folio.Proofs.Paragraph.Failures
import Folio.Proofs.Paragraph.Line

/-!
# Seams

What a segmenter puts between one glyph and the next: the end of a paragraph, or text that fills the
gap. `Segmenter.seams` records it along a page, and the runs between the ends (`Run.ofSeams`) are
those whose paragraphs are offered (`page_of_seams`).

All that a glyph can do after another is said once, by `Joins` and `Parts`. A property of the
segmenter and the run that it holds back is carried along a page by one case for each of the two
(`exists_of_mem_along`).
-/

namespace Folio

/-- What stands between a glyph and the one before it. -/
inductive Seam
  /-- The end of a paragraph. -/
  | parting
  /-- Text within the paragraph. -/
  | filling (text : Text)
  deriving DecidableEq

namespace Run

variable {α : Type}

/-- A run goes on with glyphs up to the first that a paragraph ends before, and so forth. -/
def along (r : Run α) : List (Seam × Glyph α) → List (Run α)
  | [] => [r]
  | (.parting, glyph) :: rest => r :: along ⟨glyph, []⟩ rest
  | (.filling _, glyph) :: rest => (r.snoc glyph).along rest

/-- The runs of a page, of which the first starts with the first glyph in any case. -/
def ofSeams : List (Seam × Glyph α) → List (Run α)
  | [] => []
  | (_, glyph) :: rest => (⟨glyph, []⟩ : Run α).along rest

theorem flatMap_along (seams : List (Seam × Glyph α)) : ∀ r : Run α,
    (r.along seams).flatMap glyphs = r.glyphs ++ seams.map Prod.snd := by
  induction seams with
  | nil => intro r; simp [along]
  | cons entry rest ih =>
    obtain ⟨seam, glyph⟩ := entry
    intro r
    cases seam with
    | parting => simp [along, ih, glyphs]
    | filling text => simp [along, ih]

/-- No glyph is left out. -/
theorem flatMap_ofSeams (seams : List (Seam × Glyph α)) :
    (ofSeams seams).flatMap glyphs = seams.map Prod.snd := by
  cases seams with
  | nil => rfl
  | cons entry rest => exact flatMap_along rest _

variable [Scalar α]

/-- Whether the gap between two glyphs of a line is wider than the options let pass. -/
def isWide (options : Options α) (previous glyph : Glyph α) : Bool :=
  match Segmenter.gap? previous glyph with
  | none => Scalar.isBelowInfinity options.wordGapTolerance
  | some gap => options.wordGapTolerance < gap

theorem text_ne_nil (options : Options α) (r : Run α) : r.text options ≠ [] := by
  have hstart : ParagraphBuffer.sentenceStart ≠ [] := by decide
  intro h
  simp [text, piece, hstart] at h

end Run

namespace Segmenter

variable {α : Type} [Scalar α] {s room : Segmenter α} {previous glyph : Glyph α}
  {r : Run α} {face : Face} {out : Option (Paragraph α)}

/-! ## One step -/

/-- The margins take in a line that has ended and the start of the next. -/
def narrowed (s : Segmenter α) (previous glyph : Glyph α) : Segmenter α :=
  { s with
    rightMargin := narrow s.rightMargin (s.pageWidth - (previous.x + previous.width))
    leftMargin := narrow s.leftMargin glyph.x }

/-- A further line starts, that far from the one before. -/
def startLine (s : Segmenter α) (glyph : Glyph α) (gap : α) : Segmenter α :=
  { s with spacing := some gap, lastLineStart := s.lineStart, lineStart := some glyph }

/-- What it takes for a further line to belong to the paragraph. -/
structure Continues (s : Segmenter α) (previous glyph : Glyph α) : Prop where
  merges : s.options.mergesLines = true
  spacing : s.spacingChanged (Run.lineGap previous glyph) = false
  text : previous.text ≠ Text.lit " "
  aligned : startsAligned s.options s.lineStart (some glyph) = true
  margins : (s.narrowed previous glyph).marginsAgree previous glyph = true

/-- How room is made within the paragraph for a glyph that follows another. -/
inductive Joins (s : Segmenter α) (previous glyph : Glyph α) : Segmenter α → Prop
  /-- The gap on the line becomes blanks. -/
  | fill {count : Int} {b : ParagraphBuffer α} (hline : Run.startsLine previous glyph = false)
      (hjudge : judge s.options.wordGapTolerance (gap? previous glyph) = .ok (.blanks count))
      (hblanks : s.buffer.appendBlanks s.options.machine.room count s.options.placeholder = .ok b) :
      Joins s previous glyph { s with buffer := b }
  /-- The further line is taken in. -/
  | merge (hline : Run.startsLine previous glyph = true) (hcontinues : s.Continues previous glyph) :
      Joins s previous glyph
        (((s.narrowed previous glyph).startLine glyph (Run.lineGap previous glyph)).mergeLine
          previous glyph (Run.lineGap previous glyph))

/-- How the paragraph ends before a glyph that follows another. -/
inductive Parts (s : Segmenter α) (previous glyph : Glyph α) :
    Segmenter α × Option (Paragraph α) → Prop
  /-- The gap on the line is too wide. -/
  | split (hline : Run.startsLine previous glyph = false)
      (hjudge : judge s.options.wordGapTolerance (gap? previous glyph) = .ok .split) :
      Parts s previous glyph (s.breakBefore glyph)
  /-- The further line does not belong to the paragraph. -/
  | refuse (hline : Run.startsLine previous glyph = true)
      (hcontinues : ¬ s.Continues previous glyph) :
      Parts s previous glyph ((s.narrowed previous glyph).breakBefore glyph)

theorem joins_or_parts_sameLine (hline : Run.startsLine previous glyph = false)
    (h : s.sameLine previous glyph = .ok (room, out)) :
    (s.Joins previous glyph room ∧ out = none) ∨ s.Parts previous glyph (room, out) := by
  unfold sameLine at h
  cases hjudge : judge s.options.wordGapTolerance (gap? previous glyph) with
  | error e => rw [hjudge] at h; cases h
  | ok gap =>
    rw [hjudge] at h
    cases gap with
    | split =>
      cases h
      exact .inr (.split hline hjudge)
    | blanks count =>
      cases hblanks : s.buffer.appendBlanks s.options.machine.room count s.options.placeholder with
      | error e =>
        simp only [bind, Except.bind, hblanks] at h
        cases h
      | ok b =>
        simp only [bind, Except.bind, hblanks] at h
        cases h
        exact .inl ⟨.fill hline hjudge hblanks, rfl⟩

theorem newLine_of_continues (h : s.Continues previous glyph) :
    s.newLine previous glyph (Run.lineGap previous glyph)
      = (((s.narrowed previous glyph).startLine glyph (Run.lineGap previous glyph)).mergeLine
          previous glyph (Run.lineGap previous glyph), none) := by
  have hrefused : ¬ (!s.options.mergesLines
      || s.spacingChanged (Run.lineGap previous glyph)) = true := by
    rw [h.merges, h.spacing]
    exact Bool.false_ne_true
  have hagrees : (previous.text != Text.lit " " && startsAligned s.options s.lineStart (some glyph)
      && (s.narrowed previous glyph).marginsAgree previous glyph) = true := by
    rw [h.aligned, h.margins, bne_iff_ne.mpr h.text]
    rfl
  exact (if_neg hrefused).trans (if_pos hagrees)

theorem newLine_of_not_continues (h : ¬ s.Continues previous glyph) :
    s.newLine previous glyph (Run.lineGap previous glyph)
      = (s.narrowed previous glyph).breakBefore glyph := by
  -- Handing out forgets what the new line has set.
  have hbreak : ((s.narrowed previous glyph).startLine glyph
      (Run.lineGap previous glyph)).breakBefore glyph
      = (s.narrowed previous glyph).breakBefore glyph := rfl
  by_cases hrefused : (!s.options.mergesLines
      || s.spacingChanged (Run.lineGap previous glyph)) = true
  · exact if_pos hrefused
  · have hagrees : ¬ (previous.text != Text.lit " "
        && startsAligned s.options s.lineStart (some glyph)
        && (s.narrowed previous glyph).marginsAgree previous glyph) = true := by
      intro hagrees
      simp only [Bool.or_eq_true, Bool.not_eq_true', not_or, Bool.not_eq_false,
        Bool.not_eq_true] at hrefused
      simp only [Bool.and_eq_true, bne_iff_ne] at hagrees
      exact h ⟨hrefused.1, hrefused.2, hagrees.1.1, hagrees.1.2, hagrees.2⟩
    exact (if_neg hrefused).trans ((if_neg hagrees).trans hbreak)

/-- All that a glyph can do after another. -/
theorem joins_or_parts (hprevious : s.previous = some previous)
    (h : s.advance glyph = .ok (room, out)) :
    (s.Joins previous glyph room ∧ out = none) ∨ s.Parts previous glyph (room, out) := by
  unfold advance at h
  rw [hprevious] at h
  by_cases hline : Run.startsLine previous glyph = true
  · have hgap :
        Scalar.greater previous.height glyph.height < Scalar.abs (previous.y - glyph.y) := by
      simpa [Run.startsLine] using hline
    simp only [if_pos hgap] at h
    have hnew : s.newLine previous glyph (Run.lineGap previous glyph) = (room, out) :=
      Except.ok.inj h
    by_cases hcontinues : s.Continues previous glyph
    · rw [newLine_of_continues hcontinues] at hnew
      cases hnew
      exact .inl ⟨.merge hline hcontinues, rfl⟩
    · rw [newLine_of_not_continues hcontinues] at hnew
      rw [← hnew]
      exact .inr (.refuse hline hcontinues)
  · have hgap :
        ¬ Scalar.greater previous.height glyph.height < Scalar.abs (previous.y - glyph.y) := by
      simpa [Run.startsLine] using hline
    simp only [if_neg hgap] at h
    exact joins_or_parts_sameLine (Bool.eq_false_iff.mpr hline) h

theorem options_of_joins (h : s.Joins previous glyph room) : room.options = s.options := by
  cases h with
  | fill hline hjudge hblanks => rfl
  | merge hline hcontinues => rfl

theorem options_flush (s : Segmenter α) : s.flush.1.options = s.options := by
  unfold flush
  split <;> rfl

theorem options_of_advance (h : s.advance glyph = .ok (room, out)) :
    room.options = s.options := by
  cases hprevious : s.previous with
  | none =>
    unfold advance at h
    rw [hprevious] at h
    cases h
    rfl
  | some previous =>
    rcases joins_or_parts hprevious h with ⟨hjoins, -⟩ | hparts
    · exact options_of_joins hjoins
    · generalize hanswer : (room, out) = answer at hparts
      cases hparts with
      | split hline hjudge =>
        cases hanswer
        exact options_flush s
      | refuse hline hcontinues =>
        cases hanswer
        exact options_flush (s.narrowed previous glyph)

/-- The options stay as they are, and the next glyph is compared with this one. -/
theorem options_and_previous_of_feed {s' : Segmenter α} {fonts : FontTable α}
    (h : s.feed fonts glyph = .ok (s', out)) :
    s'.options = s.options ∧ s'.previous = some glyph := by
  unfold feed at h
  cases hadvance : s.advance glyph with
  | error e =>
    rw [hadvance] at h
    cases h
  | ok answer =>
    obtain ⟨room, out'⟩ := answer
    rw [hadvance] at h
    cases h
    have hoptions : room.options = s.options := options_of_advance hadvance
    exact ⟨hoptions, rfl⟩

theorem isWide_of_judge (h : judge s.options.wordGapTolerance (gap? previous glyph) = .ok .split) :
    Run.isWide s.options previous glyph = true := by
  unfold Run.isWide
  cases hgap : gap? previous glyph with
  | none =>
    rw [hgap, judge] at h
    by_cases hbelow : Scalar.isBelowInfinity s.options.wordGapTolerance = true
    · exact hbelow
    · rw [if_neg hbelow] at h
      cases h
  | some gap =>
    rw [hgap, judge] at h
    by_cases hgreater : s.options.wordGapTolerance < gap
    · exact decide_eq_true hgreater
    · rw [if_neg hgreater] at h
      cases htruncate : Scalar.truncate gap with
      | error e => rw [htruncate] at h; cases h
      | ok count => rw [htruncate] at h; cases h

/-- A gap that becomes blanks is a number, and not above the tolerance. -/
theorem exists_gap_of_judge {count : Int}
    (h : judge s.options.wordGapTolerance (gap? previous glyph) = .ok (.blanks count)) :
    ∃ gap, gap? previous glyph = some gap ∧ ¬ s.options.wordGapTolerance < gap := by
  cases hgap : gap? previous glyph with
  | none =>
    rw [hgap, judge] at h
    split at h <;> cases h
  | some gap =>
    rw [hgap, judge] at h
    refine ⟨gap, rfl, fun hgreater => ?_⟩
    rw [if_pos hgreater] at h
    cases h

/-- Only a further line or a wide gap ends a paragraph. -/
theorem Parts.startsLine_or_isWide {answer : Segmenter α × Option (Paragraph α)}
    (h : s.Parts previous glyph answer) :
    Run.startsLine previous glyph = true ∨ Run.isWide s.options previous glyph = true := by
  cases h with
  | split hline hjudge => exact .inr (isWide_of_judge hjudge)
  | refuse hline hcontinues => exact .inl hline

/-! ## What stands before a glyph -/

/-- What a segmenter puts in when it makes that room for a glyph. -/
def seam (s room : Segmenter α) : Seam :=
  if room.buffer.isEmpty then .parting
  else .filling
    ((Text.join room.buffer.plain.reverse).drop (Text.join s.buffer.plain.reverse).length)

/-- Takes glyphs one after the other and records what stands before each. -/
def seams (fonts : FontTable α) :
    Segmenter α → List (Glyph α) → Except Fault (List (Seam × Glyph α))
  | _, [] => .ok []
  | s, glyph :: rest => do
    let (room, _) ← s.advance glyph
    let more ← seams fonts (room.append fonts glyph) rest
    return (s.seam room, glyph) :: more

theorem makesRoom_of_joins (h : s.Holds r face) (hjoins : s.Joins r.last glyph room) :
    room.MakesRoom r glyph := by
  cases hjoins with
  | fill hline hjudge hblanks =>
    exact makesRoom_of_blanks h hline (blanks_of_judge hline hjudge) hblanks
  | merge hline hcontinues =>
    -- The margins, the spacing and the starts of lines have no part in the invariant.
    have hmoved : ((s.narrowed r.last glyph).startLine glyph (Run.lineGap r.last glyph)).Holds
        r face := h.of_eq rfl rfl rfl
    exact makesRoom_of_mergeLine hmoved hline

/-- A glyph that joins the run stands behind the blanks of its gap. -/
theorem seam_of_joins (h : s.Holds r face) (hjoins : s.Joins r.last glyph room) :
    s.seam room
      = .filling (Text.replicate (Run.blanksBetween r.last glyph) s.options.placeholder) := by
  have hroom := makesRoom_of_joins h hjoins
  have hparts : room.buffer.isEmpty = false := by
    cases hempty : room.buffer.parts with
    | cons t parts => simp [ParagraphBuffer.isEmpty, hempty]
    | nil =>
      have hjoin := hroom.parts
      rw [hempty] at hjoin
      simp [Text.join, Run.text_ne_nil] at hjoin
  rw [seam, hparts, hroom.plain, h.plain, options_of_joins hjoins]
  simp

theorem of_parts (h : s.Holds r face) (hparts : s.Parts r.last glyph (room, out)) :
    out = r.paragraph? s.options face ∧ room.buffer = .empty ∧ room.options = s.options := by
  generalize hanswer : (room, out) = answer at hparts
  cases hparts with
  | split hline hjudge =>
    cases hanswer
    exact breakBefore_of_holds h glyph
  | refuse hline hcontinues =>
    have hnarrowed : (s.narrowed r.last glyph).Holds r face := h.of_eq rfl rfl rfl
    cases hanswer
    exact breakBefore_of_holds hnarrowed glyph

theorem seam_of_empty (h : room.buffer = .empty) : s.seam room = .parting := by
  rw [seam, h]
  rfl

/-- Before a glyph that does not join the run, its paragraph ends. -/
theorem seam_of_parts (h : s.Holds r face) (hparts : s.Parts r.last glyph (room, out)) :
    s.seam room = .parting :=
  seam_of_empty (of_parts h hparts).2.1

section

variable {fonts : FontTable α} {glyphs : List (Glyph α)} {entries : List (Seam × Glyph α)}

theorem seams_cons_of_error {e : Fault} (h : s.advance glyph = .error e) :
    s.seams fonts (glyph :: glyphs) = .error e := by
  rw [seams, h]
  rfl

theorem seams_cons (h : s.advance glyph = .ok (room, out)) :
    s.seams fonts (glyph :: glyphs)
      = ((room.append fonts glyph).seams fonts glyphs).map ((s.seam room, glyph) :: ·) := by
  rw [seams, h]
  rfl

theorem seams_cons_eq_ok (h : s.seams fonts (glyph :: glyphs) = .ok entries) :
    ∃ room out more, s.advance glyph = .ok (room, out)
      ∧ (room.append fonts glyph).seams fonts glyphs = .ok more
      ∧ entries = (s.seam room, glyph) :: more := by
  cases hadvance : s.advance glyph with
  | error e => rw [seams_cons_of_error hadvance] at h; cases h
  | ok answer =>
    rw [seams_cons hadvance] at h
    cases hmore : (answer.1.append fonts glyph).seams fonts glyphs with
    | error e => rw [hmore] at h; cases h
    | ok more =>
      rw [hmore] at h
      cases h
      exact ⟨answer.1, answer.2, more, rfl, hmore, rfl⟩

theorem map_snd_of_seams (h : s.seams fonts glyphs = .ok entries) :
    entries.map Prod.snd = glyphs := by
  induction glyphs generalizing s entries with
  | nil =>
    cases h
    rfl
  | cons glyph glyphs ih =>
    obtain ⟨room, out, more, -, hmore, rfl⟩ := seams_cons_eq_ok h
    exact congrArg (glyph :: ·) (ih hmore)

theorem seams_withFailures (n : Nat) :
    (s.withFailures n).seams fonts glyphs = s.seams fonts glyphs := by
  induction glyphs generalizing s with
  | nil => rfl
  | cons glyph glyphs ih =>
    have hadvance := advance_withFailures n s glyph
    cases hs : s.advance glyph with
    | error e =>
      rw [hs] at hadvance
      rw [seams_cons_of_error hadvance, seams_cons_of_error hs]
    | ok answer =>
      rw [hs] at hadvance
      have hmore : ((answer.1.withFailures n).append fonts glyph).seams fonts glyphs
          = (answer.1.append fonts glyph).seams fonts glyphs :=
        ih (s := answer.1.append fonts glyph)
      rw [seams_cons hadvance, seams_cons hs, hmore]
      rfl

/-! ## Along a page -/

/-- What holds of the segmenter and the run that it holds back goes on holding with every glyph. -/
structure Carried (fonts : FontTable α) (Inv : Segmenter α → Run α → Prop) : Prop where
  joins : ∀ {s room : Segmenter α} {r : Run α} {face : Face} {glyph : Glyph α}, s.Holds r face →
    Inv s r → s.Joins r.last glyph room → Inv (room.append fonts glyph) (r.snoc glyph)
  parts : ∀ {s room : Segmenter α} {r : Run α} {face : Face} {glyph : Glyph α}
    {out : Option (Paragraph α)}, s.Holds r face → Inv s r → s.Parts r.last glyph (room, out) →
    Inv (room.append fonts glyph) ⟨glyph, []⟩

/-- What is carried holds of every run when that is handed out. -/
theorem Carried.exists_of_mem_along {Inv : Segmenter α → Run α → Prop} (hinv : Carried fonts Inv)
    (h : s.Holds r face) (hr : Inv s r) (hseams : s.seams fonts glyphs = .ok entries) :
    ∀ r' ∈ r.along entries, ∃ s' face', s'.options = s.options ∧ s'.Holds r' face' ∧ Inv s' r' := by
  induction glyphs generalizing s r face entries with
  | nil =>
    cases hseams
    intro r' hmem
    obtain rfl := List.mem_singleton.mp hmem
    exact ⟨s, face, rfl, h, hr⟩
  | cons glyph glyphs ih =>
    obtain ⟨room, out, more, hadvance, hmore, rfl⟩ := seams_cons_eq_ok hseams
    intro r' hmem
    rcases joins_or_parts h.previous hadvance with ⟨hjoins, -⟩ | hparts
    · have hroom := options_of_joins hjoins
      rw [seam_of_joins h hjoins, Run.along] at hmem
      obtain ⟨s', face', hoptions, hall⟩ :=
        ih (append_of_makesRoom (makesRoom_of_joins h hjoins) fonts) (hinv.joins h hr hjoins) hmore
          r' hmem
      exact ⟨s', face', hoptions.trans hroom, hall⟩
    · obtain ⟨-, hempty, hroom⟩ := of_parts h hparts
      rw [seam_of_parts h hparts, Run.along] at hmem
      rcases List.mem_cons.mp hmem with rfl | hmem
      · exact ⟨s, face, rfl, h, hr⟩
      · obtain ⟨s', face', hoptions, hall⟩ :=
          ih (append_of_empty hempty fonts glyph) (hinv.parts h hr hparts) hmore r' hmem
        exact ⟨s', face', hoptions.trans hroom, hall⟩

/-- The room that a segmenter makes for the first glyph of a page. -/
def firstRoom (s : Segmenter α) (glyph : Glyph α) : Segmenter α :=
  { s with lineStart := some glyph, lastLineStart := none, leftMargin := some glyph.x }

theorem advance_of_fresh (h : s.Fresh) : s.advance glyph = .ok (s.firstRoom glyph, none) := by
  unfold advance
  split
  next => rfl
  next previous hprevious =>
    rw [h.previous] at hprevious
    cases hprevious

/-- What holds of the first glyph of a page and is carried holds of every run of the page. -/
theorem Carried.exists_of_mem_ofSeams {Inv : Segmenter α → Run α → Prop}
    (hinv : Carried fonts Inv) (h : s.Fresh)
    (hfirst : ∀ glyph, Inv ((s.firstRoom glyph).append fonts glyph) ⟨glyph, []⟩)
    (hseams : s.seams fonts glyphs = .ok entries) :
    ∀ r ∈ Run.ofSeams entries, ∃ s' face, s'.options = s.options ∧ s'.Holds r face ∧ Inv s' r := by
  cases glyphs with
  | nil =>
    cases hseams
    intro r hmem
    cases hmem
  | cons glyph glyphs =>
    obtain ⟨room, out, more, hadvance, hmore, rfl⟩ := seams_cons_eq_ok hseams
    rw [advance_of_fresh h] at hadvance
    cases hadvance
    have hempty : (s.firstRoom glyph).buffer = .empty := h.buffer
    have hall := hinv.exists_of_mem_along (append_of_empty hempty fonts glyph) (hfirst glyph) hmore
    exact hall

end

end Segmenter

namespace Delivery

variable {α τ : Type} [Scalar α] {take : Paragraph α → Act τ Unit} {fonts : FontTable α}
  {d₀ d : Delivery α τ} {glyphs : List (Glyph α)} {runs : List (Run α)}

theorem seams_offer (out : Option (Paragraph α)) :
    (d.offer take out).segmenter.seams fonts glyphs = d.segmenter.seams fonts glyphs := by
  rcases segmenter_offer take d out with hs | hs <;> rw [hs]
  exact Segmenter.seams_withFailures _

theorem foldlM_feed_cons {glyph : Glyph α} {room : Segmenter α} {out : Option (Paragraph α)}
    (h : d.segmenter.advance glyph = .ok (room, out)) :
    (glyph :: glyphs).foldlM (feed take fonts) d = glyphs.foldlM (feed take fonts)
      ({ d with segmenter := room.append fonts glyph }.offer take out) := by
  rw [List.foldlM_cons, feed, Segmenter.feed, h]
  rfl

/-- Feeding glyphs is a fault where recording the seams is, and otherwise the runs between the ends
are offered, but for the last one. -/
theorem settles_along (glyphs : List (Glyph α)) {r : Run α} (hd : Settles take fonts d₀ d runs)
    (hr : d.segmenter.Holds r (fonts.face r.last.font)) :
    match d.segmenter.seams fonts glyphs with
    | .error e => glyphs.foldlM (feed take fonts) d = .error e
    | .ok entries => ∃ d' before r', glyphs.foldlM (feed take fonts) d = .ok d'
      ∧ r.along entries = before ++ [r'] ∧ Settles take fonts d₀ d' (runs ++ before)
      ∧ d'.segmenter.Holds r' (fonts.face r'.last.font) := by
  induction glyphs generalizing d runs r with
  | nil =>
    refine ⟨d, [], r, rfl, rfl, ?_, hr⟩
    rw [List.append_nil]
    exact hd
  | cons glyph glyphs ih =>
    cases hadvance : d.segmenter.advance glyph with
    | error e =>
      rw [Segmenter.seams_cons_of_error hadvance, List.foldlM_cons, feed, Segmenter.feed, hadvance]
      rfl
    | ok answer =>
      obtain ⟨room, out⟩ := answer
      rw [Segmenter.seams_cons hadvance, foldlM_feed_cons hadvance]
      rcases Segmenter.joins_or_parts hr.previous hadvance with ⟨hjoins, rfl⟩ | hparts
      · -- The glyph joins the run.
        have hsettles : Settles take fonts d₀
            { d with segmenter := room.append fonts glyph } runs :=
          ⟨(Segmenter.options_of_joins hjoins).trans hd.options, hd.offered, hd.taker⟩
        have hholds : (room.append fonts glyph).Holds (r.snoc glyph)
            (fonts.face (r.snoc glyph).last.font) := by
          rw [Run.last_snoc]
          exact Segmenter.append_of_makesRoom (Segmenter.makesRoom_of_joins hr hjoins) fonts
        have hrest := ih hsettles hholds
        rw [Segmenter.seam_of_joins hr hjoins]
        cases hmore : (room.append fonts glyph).seams fonts glyphs with
        | error e =>
          rw [hmore] at hrest
          exact hrest
        | ok more =>
          rw [hmore] at hrest
          exact hrest
      · -- The run is handed out, and the glyph starts the next one.
        obtain ⟨rfl, hempty, hoptions⟩ := Segmenter.of_parts hr hparts
        have hsettles := hd.offer (s := room.append fonts glyph) hoptions r
        have hrest := ih hsettles (holds_offer (Segmenter.append_of_empty hempty fonts glyph) _)
        rw [seams_offer] at hrest
        rw [Segmenter.seam_of_empty hempty]
        cases hmore : (room.append fonts glyph).seams fonts glyphs with
        | error e =>
          rw [hmore] at hrest
          exact hrest
        | ok more =>
          rw [hmore] at hrest
          obtain ⟨d', before, r', hfeed, halong, hrest, hr'⟩ := hrest
          refine ⟨d', r :: before, r', hfeed, ?_, ?_, hr'⟩
          · rw [Run.along, halong, List.cons_append]
          · rw [List.append_assoc, List.singleton_append] at hrest
            exact hrest

/-- A page that has begun with that glyph. -/
def started (fonts : FontTable α) (width : Option α) (glyph : Glyph α) (d : Delivery α τ) :
    Delivery α τ :=
  { d with segmenter := ((d.segmenter.beginPage width).firstRoom glyph).append fonts glyph }

/-- The first glyph of a page is held back in any case. -/
theorem settles_started (take : Paragraph α → Act τ Unit) (fonts : FontTable α) (width : Option α)
    (glyph : Glyph α) (d : Delivery α τ) :
    Settles take fonts d (d.started fonts width glyph) []
      ∧ (d.started fonts width glyph).segmenter.Holds ⟨glyph, []⟩ (fonts.face glyph.font) := by
  have hempty : ((d.segmenter.beginPage width).firstRoom glyph).buffer = .empty :=
    (Segmenter.fresh_beginPage d.segmenter width).buffer
  exact ⟨⟨rfl, (List.append_nil _).symm, rfl⟩, Segmenter.append_of_empty hempty fonts glyph⟩

/-- A page is a fault where recording its seams is, and otherwise exactly the paragraphs of the runs
between the ends are offered. -/
theorem page_of_seams (d : Delivery α τ) (take : Paragraph α → Act τ Unit) (fonts : FontTable α)
    (width : Option α) (glyphs : List (Glyph α)) :
    match (d.segmenter.beginPage width).seams fonts glyphs with
    | .error e => d.page take fonts width glyphs = .error e
    | .ok entries => ∃ d', d.page take fonts width glyphs = .ok d'
      ∧ d'.offered = d.offered ++ paragraphs d.segmenter.options fonts (Run.ofSeams entries) := by
  have hbegin : Settles take fonts d { d with segmenter := d.segmenter.beginPage width } [] :=
    ⟨rfl, (List.append_nil _).symm, rfl⟩
  have hfresh := Segmenter.fresh_beginPage d.segmenter width
  cases glyphs with
  | nil => exact ⟨_, rfl, hbegin.offered⟩
  | cons glyph glyphs =>
    have hadvance : (d.segmenter.beginPage width).advance glyph
        = .ok ((d.segmenter.beginPage width).firstRoom glyph, none) :=
      Segmenter.advance_of_fresh hfresh
    -- From the first glyph on the invariant carries the page.
    obtain ⟨hstart, hholds⟩ := settles_started take fonts width glyph d
    have hrest := settles_along glyphs hstart hholds
    simp only [started] at hrest
    rw [page, foldlM_feed_cons (d := { d with segmenter := d.segmenter.beginPage width }) hadvance,
      Segmenter.seams_cons hadvance]
    cases hmore : (((d.segmenter.beginPage width).firstRoom glyph).append fonts glyph).seams fonts
        glyphs with
    | error e =>
      rw [hmore] at hrest
      simp only [offer, hrest]
      rfl
    | ok more =>
      rw [hmore] at hrest
      obtain ⟨d₁, before, r, hfeed, halong, hsettles, hr⟩ := hrest
      obtain ⟨hout, -, hkept, -⟩ := Segmenter.flush_of_holds hr
      have hend := (hsettles.offer (s := d₁.segmenter.endPage.1) hkept r).offered
      simp only [offer, hfeed]
      refine ⟨_, rfl, ?_⟩
      show _ = _ ++ paragraphs _ fonts ((⟨glyph, []⟩ : Run α).along more)
      rw [halong, ← List.nil_append before, ← hend, ← hout]
      rfl

theorem seams_of_page {d' : Delivery α τ} {width : Option α}
    (h : d.page take fonts width glyphs = .ok d') :
    ∃ entries, (d.segmenter.beginPage width).seams fonts glyphs = .ok entries
      ∧ d'.offered = d.offered ++ paragraphs d.segmenter.options fonts (Run.ofSeams entries) := by
  have hpage := page_of_seams d take fonts width glyphs
  cases hseams : (d.segmenter.beginPage width).seams fonts glyphs with
  | error e =>
    rw [hseams, h] at hpage
    cases hpage
  | ok entries =>
    rw [hseams, h] at hpage
    obtain ⟨d₁, hd, hoffered⟩ := hpage
    cases hd
    exact ⟨entries, rfl, hoffered⟩

end Delivery

end Folio
