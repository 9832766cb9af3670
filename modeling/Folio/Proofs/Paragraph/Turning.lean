import Folio.Proofs.Paragraph.Accepted

/-!
# Up and down the page

Of the heights of two glyphs the segmenter asks how far they are apart and nothing else. So the
lines of a paragraph are apart from each other (`Run.apart`), but down the page they go as far as
the glyphs of the page go down from line to line, and no further (`Run.descends_iff`).

That the segmenter cannot tell down from up is said of all its steps at once: a page whose heights
are mapped in a way that keeps distances, such as one turned upside down, is cut into the same
paragraphs (`Segmenter.runs_turned`), with the same lines, the same text and the same line height. A
page that is drawn from the bottom up therefore has its lines in the order in which they are drawn,
which is not the order in which they stand.

Where a box stands is computed from its baseline, which may be rounded. So the steps are compared in
what the segmenter goes on with and not in the paragraphs that they hand out; these are read off the
runs in the end.
-/

namespace Folio

variable {α : Type}

/-! ## Lines and directions -/

namespace Run

variable [Scalar α]

/-- From line to line, what the one ends with and what the next starts with are so related. -/
def LineByLine (relation : Glyph α → Glyph α → Prop) (r : Run α) : Prop :=
  r.lines.IsChain fun line next =>
    ∃ previous ∈ line.getLast?, ∃ start ∈ next.head?, relation previous start

/-- Every line starts further from where the one before it ends, up or down, than either of the two
glyphs there is high. -/
def Apart (r : Run α) : Prop :=
  r.LineByLine fun previous start =>
    Scalar.greater previous.height start.height < Scalar.abs (previous.y - start.y)

/-- Every line starts below where the one before it ends. -/
def Descends (r : Run α) : Prop := r.LineByLine fun previous start => previous.y < start.y

/-- If the second glyph is on a further line, it is below the first. -/
def Falls (previous glyph : Glyph α) : Prop :=
  startsLine previous glyph = true → previous.y < glyph.y

instance : DecidableRel (Falls (α := α)) := fun previous glyph =>
  inferInstanceAs (Decidable (startsLine previous glyph = true → previous.y < glyph.y))

theorem lineByLine_iff (relation : Glyph α → Glyph α → Prop) (r : Run α) :
    r.LineByLine relation
      ↔ r.glyphs.IsChain fun previous glyph =>
        startsLine previous glyph = true → relation previous glyph := by
  induction r using induction_line with
  | single glyph => simp [LineByLine, glyphs]
  | further r glyph hline ih =>
    obtain ⟨before, start, rest, hlines⟩ := r.exists_latest
    have hlast := getLast?_latest hlines
    rw [glyphs_snoc, List.isChain_append, ← ih, getLast?_glyphs, LineByLine, LineByLine,
      lines_snoc_of_startsLine hline, List.isChain_append, hlines]
    simp [hlast, hline]
  | same r glyph hline ih =>
    -- The glyph does not change what its line starts with.
    obtain ⟨before, start, rest, hlines⟩ := r.exists_latest
    rw [glyphs_snoc, List.isChain_append, ← ih, getLast?_glyphs, LineByLine, LineByLine,
      lines_snoc_of_sameLine hline hlines, hlines, List.isChain_append, List.isChain_append]
    simp [hline]

theorem apart (r : Run α) : r.Apart :=
  (lineByLine_iff _ r).mpr (List.pairwise_of_forall fun _ _ => of_decide_eq_true).isChain

/-- The lines of a run go down exactly if its glyphs do where they change the line. -/
theorem descends_iff (r : Run α) : r.Descends ↔ r.glyphs.IsChain Falls := lineByLine_iff _ r

instance (r : Run α) : Decidable r.Descends := decidable_of_iff _ r.descends_iff.symm

end Run

/-! ## Turning -/

section

variable (turn : α → α)

/-- The glyph at another height. -/
def Glyph.turned (glyph : Glyph α) : Glyph α := { glyph with y := turn glyph.y }

/-- The measures of turned glyphs. -/
def Metrics.turned (m : Metrics α) : Metrics α :=
  { m with baseline := turn m.baseline, last := m.last.turned turn }

def ParagraphBuffer.turned (b : ParagraphBuffer α) : ParagraphBuffer α :=
  { b with metrics := b.metrics.map (Metrics.turned turn) }

/-- The segmenter after it has seen turned glyphs. -/
def Segmenter.turned (s : Segmenter α) : Segmenter α :=
  { s with
    buffer := s.buffer.turned turn
    previous := s.previous.map (Glyph.turned turn)
    lineStart := s.lineStart.map (Glyph.turned turn)
    lastLineStart := s.lastLineStart.map (Glyph.turned turn) }

def Run.turned (r : Run α) : Run α := ⟨r.first.turned turn, r.rest.map (Glyph.turned turn)⟩

end

variable [Scalar α] {turn : α → α}

/-- The map keeps how far two heights are apart. -/
def Scalar.KeepsDistances (turn : α → α) : Prop :=
  ∀ a b, Scalar.abs (turn a - turn b) = Scalar.abs (a - b)

namespace Run

theorem lineGap_turned (h : Scalar.KeepsDistances turn) (previous glyph : Glyph α) :
    lineGap (previous.turned turn) (glyph.turned turn) = lineGap previous glyph := h _ _

theorem startsLine_turned (h : Scalar.KeepsDistances turn) (previous glyph : Glyph α) :
    startsLine (previous.turned turn) (glyph.turned turn) = startsLine previous glyph :=
  congrArg (fun gap => decide (Scalar.greater previous.height glyph.height < gap)) (h _ _)

end Run

/-! ## Steps -/

namespace Segmenter

variable (s : Segmenter α) (fonts : FontTable α) (previous glyph : Glyph α)

theorem flush_turned : (s.turned turn).flush.1 = s.flush.1.turned turn := by
  have hempty : (s.turned turn).buffer.isEmpty = s.buffer.isEmpty := rfl
  unfold flush
  rw [hempty]
  split <;> rfl

theorem breakBefore_turned :
    ((s.turned turn).breakBefore (glyph.turned turn)).1 = (s.breakBefore glyph).1.turned turn := by
  show { (s.turned turn).flush.1 with lineStart := some (glyph.turned turn) } = _
  rw [flush_turned]
  rfl

omit [Scalar α] in
theorem appendBlanks_turned (b : ParagraphBuffer α) (room : Nat) (count : Int)
    (placeholder : Text) :
    (b.turned turn).appendBlanks room count placeholder
      = (b.appendBlanks room count placeholder).map (ParagraphBuffer.turned turn) := by
  unfold ParagraphBuffer.appendBlanks
  split
  · rfl
  · cases ParagraphBuffer.blanks room count.toNat placeholder <;> rfl

theorem sameLine_turned :
    ((s.turned turn).sameLine (previous.turned turn) (glyph.turned turn)).map Prod.fst
      = (s.sameLine previous glyph).map fun answer => answer.1.turned turn := by
  have hoptions : (s.turned turn).options = s.options := rfl
  have hbuffer : (s.turned turn).buffer = s.buffer.turned turn := rfl
  have hgap : gap? (previous.turned turn) (glyph.turned turn) = gap? previous glyph := rfl
  rw [sameLine, sameLine, hgap, hoptions]
  cases judge s.options.wordGapTolerance (gap? previous glyph) with
  | error e => rfl
  | ok gap =>
    cases gap with
    | split => exact congrArg Except.ok (breakBefore_turned s glyph)
    | blanks count =>
      simp only [bind, Except.bind, hbuffer, appendBlanks_turned]
      cases s.buffer.appendBlanks s.options.machine.room count s.options.placeholder <;> rfl

variable {s previous glyph}

theorem continues_turned_iff (h : Scalar.KeepsDistances turn) :
    (s.turned turn).Continues (previous.turned turn) (glyph.turned turn)
      ↔ s.Continues previous glyph := by
  have haligned : startsAligned s.options (s.turned turn).lineStart (some (glyph.turned turn))
      = startsAligned s.options s.lineStart (some glyph) := by
    show startsAligned _ (s.lineStart.map (Glyph.turned turn)) _ = _
    cases s.lineStart <;> rfl
  have hspacing : (s.turned turn).spacingChanged
        (Run.lineGap (previous.turned turn) (glyph.turned turn))
      = s.spacingChanged (Run.lineGap previous glyph) := by
    rw [Run.lineGap_turned h]
    rfl
  constructor
  · intro hcontinues
    exact ⟨hcontinues.merges, hspacing ▸ hcontinues.spacing, hcontinues.text,
      haligned ▸ hcontinues.aligned, hcontinues.margins⟩
  · intro hcontinues
    exact ⟨hcontinues.merges, hspacing ▸ hcontinues.spacing, hcontinues.text,
      haligned ▸ hcontinues.aligned, hcontinues.margins⟩

variable (s previous glyph)

theorem mergeLine_turned (spacing : α) :
    (s.turned turn).mergeLine (previous.turned turn) (glyph.turned turn) spacing
      = (s.mergeLine previous glyph spacing).turned turn := by
  have hmetrics : (s.turned turn).buffer.metrics.getD (.start (glyph.turned turn))
      = (s.buffer.metrics.getD (.start glyph)).turned turn := by
    show (s.buffer.metrics.map (Metrics.turned turn)).getD _ = _
    cases s.buffer.metrics <;> rfl
  have hcorrects : (s.turned turn).options.correctsIndent = s.options.correctsIndent := rfl
  have happlied : (s.turned turn).buffer.indentApplied = s.buffer.indentApplied := rfl
  have hindent : ∀ m : Metrics α, (m.turned turn).indent (glyph.turned turn) = m.indent glyph :=
    fun _ => rfl
  simp only [mergeLine, hmetrics, hcorrects, happlied, hindent]
  split
  · split <;> rfl
  · rfl

theorem newLine_turned (h : Scalar.KeepsDistances turn) :
    ((s.turned turn).newLine (previous.turned turn) (glyph.turned turn)
        (Run.lineGap (previous.turned turn) (glyph.turned turn))).1
      = (s.newLine previous glyph (Run.lineGap previous glyph)).1.turned turn := by
  by_cases hcontinues : s.Continues previous glyph
  · rw [newLine_of_continues hcontinues,
      newLine_of_continues ((continues_turned_iff h).mpr hcontinues), Run.lineGap_turned h]
    exact mergeLine_turned ((s.narrowed previous glyph).startLine glyph _) previous glyph _
  · rw [newLine_of_not_continues hcontinues,
      newLine_of_not_continues (fun hturned => hcontinues ((continues_turned_iff h).mp hturned))]
    exact breakBefore_turned (s.narrowed previous glyph) glyph

theorem append_turned : (s.turned turn).append fonts (glyph.turned turn)
    = (s.append fonts glyph).turned turn := by
  have hmetrics : (s.turned turn).buffer.metrics = s.buffer.metrics.map (Metrics.turned turn) := rfl
  unfold append
  rw [hmetrics]
  cases s.buffer.metrics <;> rfl

theorem advance_turned (h : Scalar.KeepsDistances turn) :
    ((s.turned turn).advance (glyph.turned turn)).map Prod.fst
      = (s.advance glyph).map fun answer => answer.1.turned turn := by
  have hprevious : (s.turned turn).previous = s.previous.map (Glyph.turned turn) := rfl
  unfold advance
  rw [hprevious]
  cases s.previous with
  | none => rfl
  | some previous =>
    have hgap : Scalar.abs ((previous.turned turn).y - (glyph.turned turn).y)
        = Scalar.abs (previous.y - glyph.y) := h _ _
    have hheights : Scalar.greater (previous.turned turn).height (glyph.turned turn).height
        = Scalar.greater previous.height glyph.height := rfl
    simp only [Option.map, hgap, hheights]
    split
    · have hnew := newLine_turned s previous glyph h
      rw [Run.lineGap_turned h] at hnew
      exact congrArg Except.ok hnew
    · exact sameLine_turned s previous glyph

variable {s previous glyph} {room : Segmenter α} {out : Option (Paragraph α)}

theorem advance_turned_of_error (h : Scalar.KeepsDistances turn) {e : Fault}
    (hadvance : s.advance glyph = .error e) :
    (s.turned turn).advance (glyph.turned turn) = .error e := by
  have hturned := advance_turned s glyph h
  rw [hadvance] at hturned
  cases hs : (s.turned turn).advance (glyph.turned turn) with
  | error e' => rw [hs] at hturned; exact congrArg Except.error (Except.error.inj hturned)
  | ok answer => rw [hs] at hturned; cases hturned

theorem advance_turned_of_ok (h : Scalar.KeepsDistances turn)
    (hadvance : s.advance glyph = .ok (room, out)) :
    ∃ out', (s.turned turn).advance (glyph.turned turn) = .ok (room.turned turn, out') := by
  have hturned := advance_turned s glyph h
  rw [hadvance] at hturned
  cases hs : (s.turned turn).advance (glyph.turned turn) with
  | error e => rw [hs] at hturned; cases hturned
  | ok answer =>
    rw [hs] at hturned
    exact ⟨answer.2, congrArg (fun s => Except.ok (s, answer.2)) (Except.ok.inj hturned)⟩

/-! ## Pages -/

/-- The same glyphs are faults. -/
theorem accepted_turned (h : Scalar.KeepsDistances turn) (glyphs : List (Glyph α)) :
    accepted fonts (s.turned turn) (glyphs.map (Glyph.turned turn))
      = (accepted fonts s glyphs).map (Glyph.turned turn) := by
  induction glyphs generalizing s with
  | nil => rfl
  | cons glyph glyphs ih =>
    rw [List.map_cons]
    cases hadvance : s.advance glyph with
    | error e =>
      have hfeed : s.feed fonts glyph = .error e := by
        rw [feed, hadvance]
        rfl
      have hfeed' : (s.turned turn).feed fonts (glyph.turned turn) = .error e := by
        rw [feed, advance_turned_of_error h hadvance]
        rfl
      rw [accepted_cons_of_error hfeed, accepted_cons_of_error hfeed', ih]
    | ok answer =>
      obtain ⟨out', hadvance'⟩ := advance_turned_of_ok h hadvance
      have hfeed : s.feed fonts glyph = .ok (answer.1.append fonts glyph, answer.2) := by
        rw [feed, hadvance]
        rfl
      have hfeed' : (s.turned turn).feed fonts (glyph.turned turn)
          = .ok ((answer.1.append fonts glyph).turned turn, out') := by
        rw [feed, hadvance', ← append_turned]
        rfl
      rw [accepted_cons_of_ok hfeed, accepted_cons_of_ok hfeed', ih, List.map_cons]

/-- The same stands before each glyph. -/
theorem seams_turned (h : Scalar.KeepsDistances turn) (glyphs : List (Glyph α)) :
    (s.turned turn).seams fonts (glyphs.map (Glyph.turned turn))
      = (s.seams fonts glyphs).map
        (List.map fun entry => (entry.1, entry.2.turned turn)) := by
  induction glyphs generalizing s with
  | nil => rfl
  | cons glyph glyphs ih =>
    rw [List.map_cons]
    cases hadvance : s.advance glyph with
    | error e =>
      rw [seams_cons_of_error hadvance, seams_cons_of_error (advance_turned_of_error h hadvance)]
      rfl
    | ok answer =>
      obtain ⟨out', hadvance'⟩ := advance_turned_of_ok h hadvance
      rw [seams_cons hadvance, seams_cons hadvance', append_turned, ih]
      cases (answer.1.append fonts glyph).seams fonts glyphs <;> rfl

end Segmenter

namespace Run

omit [Scalar α] in
theorem along_turned (turn : α → α) (entries : List (Seam × Glyph α)) (r : Run α) :
    (r.turned turn).along (entries.map fun entry => (entry.1, entry.2.turned turn))
      = (r.along entries).map (Run.turned turn) := by
  induction entries generalizing r with
  | nil => rfl
  | cons entry entries ih =>
    obtain ⟨seam, glyph⟩ := entry
    cases seam with
    | parting => exact congrArg (r.turned turn :: ·) (ih ⟨glyph, []⟩)
    | filling text =>
      have hsnoc : (r.turned turn).snoc (glyph.turned turn) = (r.snoc glyph).turned turn := by
        simp [snoc, Run.turned]
      show ((r.turned turn).snoc (glyph.turned turn)).along _ = _
      rw [hsnoc, ih]
      rfl

omit [Scalar α] in
theorem ofSeams_turned (turn : α → α) (entries : List (Seam × Glyph α)) :
    ofSeams (entries.map fun entry => (entry.1, entry.2.turned turn))
      = (ofSeams entries).map (Run.turned turn) := by
  cases entries with
  | nil => rfl
  | cons entry entries => exact along_turned turn entries ⟨entry.2, []⟩

end Run

/-- A turned page is cut into the same runs. -/
theorem Segmenter.runs_turned (h : Scalar.KeepsDistances turn) (s : Segmenter α)
    (fonts : FontTable α) (glyphs : List (Glyph α)) :
    (s.turned turn).runs fonts (glyphs.map (Glyph.turned turn))
      = (s.runs fonts glyphs).map (Run.turned turn) := by
  rw [runs, accepted_turned fonts h, seams_turned fonts h, runs]
  cases s.seams fonts (s.accepted fonts glyphs) with
  | error e => rfl
  | ok entries => exact Run.ofSeams_turned turn entries

/-! ## What a turned run makes -/

namespace Run

omit [Scalar α] in
theorem snoc_turned (turn : α → α) (r : Run α) (glyph : Glyph α) :
    (r.snoc glyph).turned turn = (r.turned turn).snoc (glyph.turned turn) := by
  simp [snoc, Run.turned]

omit [Scalar α] in
@[simp] theorem last_turned (turn : α → α) (r : Run α) :
    (r.turned turn).last = r.last.turned turn := by
  simp [last, Run.turned, List.getLastD_eq_getLast?]

section

variable (h : Scalar.KeepsDistances turn) (options : Options α)

include h

theorem lines_turned (r : Run α) :
    (r.turned turn).lines = r.lines.map (List.map (Glyph.turned turn)) := by
  have hlast : ∀ (r : Run α) glyph,
      startsLine (r.turned turn).last (glyph.turned turn) = startsLine r.last glyph := by
    intro r glyph
    rw [last_turned, startsLine_turned h]
  induction r using induction_line with
  | single glyph => rfl
  | further r glyph hline ih =>
    rw [snoc_turned, lines_snoc_of_startsLine hline,
      lines_snoc_of_startsLine ((hlast r glyph).trans hline), ih, List.map_append]
    rfl
  | same r glyph hline ih =>
    obtain ⟨before, start, rest, hlines⟩ := r.exists_latest
    have hturned : (r.turned turn).lines = before.map (List.map (Glyph.turned turn))
        ++ [(start :: rest).map (Glyph.turned turn)] := by
      rw [ih, hlines, List.map_append]
      rfl
    rw [snoc_turned, lines_snoc_of_sameLine hline hlines,
      lines_snoc_of_sameLine ((hlast r glyph).trans hline) hturned, List.map_append,
      List.map_singleton, List.map_append, List.map_singleton]

theorem measure_turned (m : Metrics α) (glyph : Glyph α) :
    measure (m.turned turn) (glyph.turned turn) = (measure m glyph).turned turn := by
  have hline : startsLine (m.turned turn).last (glyph.turned turn) = startsLine m.last glyph :=
    startsLine_turned h _ _
  have hgap : Scalar.abs ((m.turned turn).last.y - (glyph.turned turn).y)
      = Scalar.abs (m.last.y - glyph.y) := h _ _
  rw [measure, measure, hline, hgap]
  split <;> rfl

theorem metrics_turned (r : Run α) : (r.turned turn).metrics = r.metrics.turned turn := by
  induction r using induction_snoc with
  | single glyph => rfl
  | snoc r glyph ih => rw [snoc_turned, metrics_snoc, metrics_snoc, ih, measure_turned h]

theorem blanksBetween_turned (previous glyph : Glyph α) :
    blanksBetween (previous.turned turn) (glyph.turned turn) = blanksBetween previous glyph := by
  rw [blanksBetween, startsLine_turned h]
  rfl

theorem following_turned (previous : Glyph α) (glyphs : List (Glyph α)) :
    following options (previous.turned turn) (glyphs.map (Glyph.turned turn))
      = following options previous glyphs := by
  induction glyphs generalizing previous with
  | nil => rfl
  | cons glyph glyphs ih =>
    rw [List.map_cons, following, following, ih, blanksBetween_turned h]
    rfl

theorem plainFollowing_turned (previous : Glyph α) (glyphs : List (Glyph α)) :
    plainFollowing options (previous.turned turn) (glyphs.map (Glyph.turned turn))
      = plainFollowing options previous glyphs := by
  induction glyphs generalizing previous with
  | nil => rfl
  | cons glyph glyphs ih =>
    rw [List.map_cons, plainFollowing, plainFollowing, ih, blanksBetween_turned h]
    rfl

theorem indentAfter_turned (m : Metrics α) (glyphs : List (Glyph α)) :
    indentAfter (m.turned turn) (glyphs.map (Glyph.turned turn)) = indentAfter m glyphs := by
  induction glyphs generalizing m with
  | nil => rfl
  | cons glyph glyphs ih =>
    have hline : startsLine (m.turned turn).last (glyph.turned turn) = startsLine m.last glyph :=
      startsLine_turned h _ _
    rw [List.map_cons, indentAfter, indentAfter, hline, measure_turned h, ih]
    rfl

theorem isBlank_turned (r : Run α) : (r.turned turn).isBlank options = r.isBlank options :=
  congrArg (fun text => (r.first.text ++ text).isBlank)
    (plainFollowing_turned h options r.first r.rest)

theorem content_turned (r : Run α) : (r.turned turn).content options = r.content options := by
  have hindent : (r.turned turn).indent? options = r.indent? options := by
    unfold indent?
    have hafter := indentAfter_turned h (.start r.first) r.rest
    split
    · exact hafter
    · rfl
  have htext : (r.turned turn).text options = r.text options :=
    congrArg (piece options 0 false r.first ++ ·) (following_turned h options r.first r.rest)
  rw [content, lead, hindent, htext, last_turned]
  rfl

/-- The paragraph of a turned run stands at another height, and if it is a single line its edges may
be apart by another rounding. All else is as it was. -/
theorem paragraph?_turned (face : Face) (r : Run α) :
    (r.turned turn).paragraph? options face = (r.paragraph? options face).map fun p =>
      { p with
        top := (r.turned turn).metrics.top
        lineHeight := (r.turned turn).metrics.lineHeight } := by
  rw [paragraph?, paragraph?, isBlank_turned h]
  split
  · rfl
  · simp only [paragraph, content_turned h, last_turned, metrics_turned h, Option.map]
    rfl

theorem lineHeight_turned (r : Run α) (hmany : 2 ≤ r.lines.length) :
    (r.turned turn).metrics.lineHeight = r.metrics.lineHeight := by
  have hlines := r.manyLines_metrics_iff.mpr hmany
  rw [metrics_turned h, Metrics.lineHeight, Metrics.lineHeight, if_pos hlines]
  exact if_pos hlines

end

end Run

namespace Delivery

variable {τ : Type} (take : Paragraph α → Act τ Unit) (fonts : FontTable α) (d : Delivery α τ)
  (width : Option α)

/-- The lines of each paragraph that a page offers are apart. They go down exactly where its glyphs
do, and so on all of a page that goes down from line to line. This much follows from what a line is,
wherever a page is cut into paragraphs. Where it is cut does not depend on up and down either: a page
that is turned in a way that keeps distances offers the same paragraphs, which differ in nothing but
where they stand and in how high a single line is. -/
theorem lines_apart_pageOver (glyphs : List (Glyph α)) :
    (d.pageOver take fonts width glyphs).offered = d.offered
        ++ paragraphs d.segmenter.options fonts ((d.segmenter.beginPage width).runs fonts glyphs)
      ∧ (∀ r ∈ (d.segmenter.beginPage width).runs fonts glyphs,
        r.Apart ∧ (r.Descends ↔ r.glyphs.IsChain Run.Falls))
      ∧ (((d.segmenter.beginPage width).accepted fonts glyphs).IsChain Run.Falls →
        ∀ r ∈ (d.segmenter.beginPage width).runs fonts glyphs, r.Descends)
      ∧ ∀ turn : α → α, Scalar.KeepsDistances turn →
        (d.pageOver take fonts width (glyphs.map (Glyph.turned turn))).offered = d.offered
            ++ paragraphs d.segmenter.options fonts
              (((d.segmenter.beginPage width).runs fonts glyphs).map (Run.turned turn))
          ∧ ∀ r ∈ (d.segmenter.beginPage width).runs fonts glyphs,
            (r.turned turn).lines = r.lines.map (List.map (Glyph.turned turn))
              ∧ ∀ face, ∃ top lineHeight, (2 ≤ r.lines.length → lineHeight = r.metrics.lineHeight)
                ∧ (r.turned turn).paragraph? d.segmenter.options face
                  = (r.paragraph? d.segmenter.options face).map fun p =>
                    { p with top := top, lineHeight := lineHeight } := by
  refine ⟨offered_pageOver take fonts width glyphs d, fun r _ => ⟨r.apart, r.descends_iff⟩, ?_, ?_⟩
  · intro hfalls r hr
    rw [← flatMap_runs, List.flatMap_def] at hfalls
    have hglyphs : r.glyphs.IsChain Run.Falls :=
      List.IsChain.infix hfalls (List.infix_of_mem_flatten (List.mem_map_of_mem hr))
    exact r.descends_iff.mpr hglyphs
  · intro turn hturn
    refine ⟨?_, fun r _ => ⟨r.lines_turned hturn, fun face => ?_⟩⟩
    · rw [offered_pageOver, ← Segmenter.runs_turned hturn]
      rfl
    · exact ⟨_, _, r.lineHeight_turned hturn, r.paragraph?_turned hturn _ face⟩

/-- Two lines, one below the other. -/
def twoRows : List (Glyph ℚ) :=
  [("A", 10, 0), ("B", 20, 0), ("C", 10, 12), ("D", 20, 12)].map fun g =>
    ⟨Text.lit g.1, g.2.1, g.2.2, 10, 10, none, 10, 10, 10⟩

/-- Upside down, where the second line stands above the first, they are the same paragraph. -/
theorem lines_apart_pageOver_twoRows :
    Scalar.KeepsDistances (Neg.neg : ℚ → ℚ)
      ∧ ((⟨.new .standard, (), []⟩ : Delivery ℚ Unit).pageOver (fun _ => pure ()) ⟨[], [], []⟩ none
          twoRows).offered.map (fun p => (p.top, p.lineHeight, p.content))
        = [(-10, 12, Text.lit "<span class=\"seq\">ABCD</span>")]
      ∧ ∃ r ∈ ((Segmenter.new (.standard : Options ℚ)).beginPage none).runs ⟨[], [], []⟩ twoRows,
        r.Descends ∧ ∀ face, ∃ top, (r.turned Neg.neg).paragraph? .standard face
          = some { r.paragraph .standard face with top := top } := by
  have hkeeps : Scalar.KeepsDistances (Neg.neg : ℚ → ℚ) := by
    intro a b
    show |(-a - -b)| = |a - b|
    rw [neg_sub_neg, abs_sub_comm]
  refine ⟨hkeeps, by decide +kernel, ?_⟩
  have hruns : (((Segmenter.new (.standard : Options ℚ)).beginPage none).runs ⟨[], [], []⟩
      twoRows).map (fun r => (r.isBlank .standard, r.lines.length)) = [(false, 2)] := by
    decide +kernel
  have hfalls : (((Segmenter.new (.standard : Options ℚ)).beginPage none).accepted ⟨[], [], []⟩
      twoRows).IsChain Run.Falls := by
    decide +kernel
  have hmem := List.mem_singleton_self ((false, 2) : Bool × Nat)
  rw [← hruns, List.mem_map] at hmem
  obtain ⟨r, hr, hdata⟩ := hmem
  obtain ⟨hblank, hlines⟩ := Prod.mk.inj hdata
  obtain ⟨-, -, hdescends, hturned⟩ := lines_apart_pageOver (fun _ => pure ()) ⟨[], [], []⟩
    (⟨.new .standard, (), []⟩ : Delivery ℚ Unit) none twoRows
  refine ⟨r, hr, hdescends hfalls r hr, fun face => ?_⟩
  obtain ⟨top, lineHeight, hheight, hparagraph⟩ := ((hturned Neg.neg hkeeps).2 r hr).2 face
  have hmade : r.paragraph? .standard face = some (r.paragraph .standard face) :=
    if_neg (by rw [hblank]; exact Bool.false_ne_true)
  refine ⟨top, hparagraph.trans ((congrArg (Option.map _) hmade).trans ?_)⟩
  rw [hheight hlines.ge]
  rfl

/-- Not every paragraph goes down the page: upside down, the lower of the two lines is the first of
the paragraph. -/
theorem not_descends_overturned :
    ¬ ∀ (width : Option ℚ) (fonts : FontTable ℚ) (glyphs : List (Glyph ℚ)),
      ∀ r ∈ ((Segmenter.new .standard).beginPage width).runs fonts glyphs,
        r.isBlank .standard = false → 2 ≤ r.lines.length → r.Descends := by
  intro h
  have hruns : (((Segmenter.new (.standard : Options ℚ)).beginPage none).runs ⟨[], [], []⟩
      (twoRows.map (Glyph.turned Neg.neg))).map (fun r =>
        (r.isBlank .standard, r.lines.length, decide r.Descends)) = [(false, 2, false)] := by
    decide +kernel
  have hmem := List.mem_singleton_self ((false, 2, false) : Bool × Nat × Bool)
  rw [← hruns, List.mem_map] at hmem
  obtain ⟨r, hr, hdata⟩ := hmem
  simp only [Prod.mk.injEq, decide_eq_false_iff_not] at hdata
  obtain ⟨hblank, hlines, hrises⟩ := hdata
  exact hrises (h none _ _ r hr hblank hlines.ge)

end Delivery

end Folio
