import Folio.Proofs.Paragraph.Accepted

/-!
# Exact geometry of paragraphs

The measures of a paragraph are kept up glyph by glyph, by one rule while there is a single line and
by another from the second line on, and the anchor from which the width counts may move with every
line. With exact coordinates they are nevertheless what they would be if all glyphs were measured at
the end (`Run.Measured`). The anchor is the leftmost start of a line. The right edge is that of the
glyph that is furthest right among those that count, which are the last glyph of the first line and
all glyphs of further lines (`Run.reaching`): on its first line a paragraph goes by its latest
glyph, even if that has been drawn back over others.

The edge is followed rather than the width, for the edge does not change when the anchor moves. This
holds of a run however it was cut, and so at every moment of a page (`measured_begun`).
-/

namespace Folio

/-- No font reaches below the baseline by a positive amount. -/
theorem Glyph.descent_nonpos (glyph : Glyph ℚ) : glyph.descent ≤ 0 := by
  unfold Glyph.descent
  split
  next => exact le_refl _
  next font =>
    simp only
    split
    next h => exact neg_nonpos.mpr h.le
    next h => exact not_lt.mp h

namespace Metrics

/-- Where the widest line ends. -/
def right {α : Type} [Scalar α] (m : Metrics α) : α := m.x + m.width

variable {m : Metrics ℚ}

theorem right_append_of_oneLine (h : m.manyLines = false) (glyph : Glyph ℚ) :
    (m.append glyph).right = m.right - m.last.right + glyph.right := by
  simp only [right, append, h, Bool.false_eq_true, if_false, Glyph.right]
  ring

theorem right_append_of_manyLines (h : m.manyLines = true) (glyph : Glyph ℚ) :
    (m.append glyph).right = max m.right glyph.right := by
  simp only [right, append, h, if_true, Glyph.right, Scalar.greater_eq_max]
  rw [← max_add_add_left]
  congr 1
  ring

theorem right_nextLine (m : Metrics ℚ) (glyph previous : Glyph ℚ) (spacing : ℚ) :
    (m.nextLine glyph previous spacing).right = max m.right previous.right := by
  simp only [right, nextLine, Glyph.right, Scalar.greater_eq_max, Scalar.lesser_eq_min]
  ring

end Metrics

namespace Run

variable {α : Type} [Scalar α]

/-- The first glyphs of the lines. -/
def lineStarts (r : Run α) : List (Glyph α) := r.lines.filterMap List.head?

/-- The glyphs by which the width goes: the last one of the first line and all those of further
lines. -/
def reaching (r : Run α) : List (Glyph α) :=
  match r.lines with
  | [] => []
  | line :: further => line.getLast?.toList ++ further.flatten

section

variable {r : Run α} {glyph : Glyph α}

@[simp] theorem lineStarts_single (glyph : Glyph α) : (⟨glyph, []⟩ : Run α).lineStarts = [glyph] :=
  rfl

theorem lineStarts_snoc_of_startsLine (h : startsLine r.last glyph = true) :
    (r.snoc glyph).lineStarts = r.lineStarts ++ [glyph] := by
  rw [lineStarts, lines_snoc_of_startsLine h, List.filterMap_append]
  rfl

theorem lineStarts_snoc_of_sameLine (h : startsLine r.last glyph = false) :
    (r.snoc glyph).lineStarts = r.lineStarts := by
  obtain ⟨before, start, rest, hlines⟩ := r.exists_latest
  rw [lineStarts, lines_snoc_of_sameLine h hlines, lineStarts, hlines, List.filterMap_append,
    List.filterMap_append]
  rfl

theorem reaching_snoc_of_startsLine (h : startsLine r.last glyph = true) :
    (r.snoc glyph).reaching = r.reaching ++ [glyph] := by
  rw [reaching, lines_snoc_of_startsLine h, reaching]
  cases hlines : r.lines with
  | nil =>
    obtain ⟨before, start, rest, hlatest⟩ := r.exists_latest
    rw [hlines] at hlatest
    simp at hlatest
  | cons line further => simp

/-- On further lines every glyph counts. -/
theorem reaching_snoc_of_manyLines (h : startsLine r.last glyph = false)
    (hmany : 2 ≤ r.lines.length) : (r.snoc glyph).reaching = r.reaching ++ [glyph] := by
  obtain ⟨before, start, rest, hlines⟩ := r.exists_latest
  rw [reaching, lines_snoc_of_sameLine h hlines, reaching, hlines]
  cases before with
  | nil =>
    rw [hlines] at hmany
    simp at hmany
  | cons line further => simp

/-- On the first line the latest glyph counts alone. -/
theorem reaching_of_oneLine (h : r.lines.length = 1) : r.reaching = [r.last] := by
  obtain ⟨line, hlines⟩ := List.length_eq_one_iff.mp h
  have hlatest : r.lines = [] ++ [line] := hlines
  rw [reaching, hlines]
  simp [getLast?_latest hlatest]

/-- The latest glyph always counts. -/
theorem last_mem_reaching (r : Run α) : r.last ∈ r.reaching := by
  obtain ⟨before, start, rest, hlines⟩ := r.exists_latest
  have hlast := getLast?_latest hlines
  rw [reaching, hlines]
  cases before with
  | nil => simp [hlast]
  | cons line further =>
    refine List.mem_append_right _ (List.mem_flatten.mpr ⟨start :: rest, by simp, ?_⟩)
    exact List.mem_of_getLast? hlast

end

/-! ## What a glyph adds -/

section

variable (m : Metrics ℚ) (glyph : Glyph ℚ)

theorem baseline_measure : (measure m glyph).baseline = m.baseline := by
  unfold measure
  split <;> rfl

theorem glyphHeight_measure :
    (measure m glyph).glyphHeight = max m.glyphHeight glyph.height := by
  rw [← Scalar.greater_eq_max]
  unfold measure
  split <;> rfl

theorem ascent_measure : (measure m glyph).ascent = max m.ascent glyph.ascent := by
  rw [← Scalar.greater_eq_max]
  unfold measure
  split <;> rfl

theorem descent_measure : (measure m glyph).descent = min m.descent glyph.descent := by
  rw [← Scalar.lesser_eq_min]
  unfold measure
  split <;> rfl

variable {m glyph}

theorem x_measure_of_startsLine (h : startsLine m.last glyph = true) :
    (measure m glyph).x = min m.x glyph.x := by
  rw [measure, if_pos h, ← Scalar.lesser_eq_min]
  rfl

theorem measure_of_sameLine (h : startsLine m.last glyph = false) :
    measure m glyph = m.append glyph := by
  rw [measure, if_neg (Bool.eq_false_iff.mp h)]

theorem right_measure_of_startsLine (h : startsLine m.last glyph = true) :
    (measure m glyph).right = max (max m.right m.last.right) glyph.right := by
  rw [measure, if_pos h, Metrics.right_append_of_manyLines rfl, Metrics.right_nextLine]

end

/-! ## The measures of a whole run -/

theorem image_concat (f : Glyph ℚ → ℚ) (gs : List (Glyph ℚ)) (glyph : Glyph ℚ) :
    f '' {g | g ∈ gs ++ [glyph]} = insert (f glyph) (f '' {g | g ∈ gs}) := by
  rw [← Set.image_insert_eq]
  congr 1
  ext g
  simp [or_comm]

theorem isGreatest_single (f : Glyph ℚ → ℚ) (glyph : Glyph ℚ) :
    IsGreatest (f '' {g | g ∈ [glyph]}) (f glyph) := by
  simp

theorem isLeast_single (f : Glyph ℚ → ℚ) (glyph : Glyph ℚ) :
    IsLeast (f '' {g | g ∈ [glyph]}) (f glyph) := by
  simp

section

variable {f : Glyph ℚ → ℚ} {gs : List (Glyph ℚ)} {v : ℚ}

theorem isGreatest_concat (h : IsGreatest (f '' {g | g ∈ gs}) v) (glyph : Glyph ℚ) :
    IsGreatest (f '' {g | g ∈ gs ++ [glyph]}) (max v (f glyph)) := by
  rw [image_concat, max_comm]
  exact h.insert (f glyph)

theorem isLeast_concat (h : IsLeast (f '' {g | g ∈ gs}) v) (glyph : Glyph ℚ) :
    IsLeast (f '' {g | g ∈ gs ++ [glyph]}) (min v (f glyph)) := by
  rw [image_concat, min_comm]
  exact h.insert (f glyph)

end

/-- The anchor is where the leftmost line starts. -/
theorem isLeast_x (r : Run ℚ) : IsLeast (Glyph.x '' {g | g ∈ r.lineStarts}) r.metrics.x := by
  induction r using induction_line with
  | single glyph => exact isLeast_single _ _
  | further r glyph hline ih =>
    rw [metrics_snoc, x_measure_of_startsLine (by rw [last_metrics]; exact hline),
      lineStarts_snoc_of_startsLine hline]
    exact isLeast_concat ih glyph
  | same r glyph hline ih =>
    rw [metrics_snoc, measure_of_sameLine (by rw [last_metrics]; exact hline),
      lineStarts_snoc_of_sameLine hline]
    exact ih

/-- The right edge is that of the glyph furthest right among those that count. -/
theorem isGreatest_right (r : Run ℚ) :
    IsGreatest (Glyph.right '' {g | g ∈ r.reaching}) r.metrics.right := by
  induction r using induction_line with
  | single glyph => exact isGreatest_single _ _
  | further r glyph hline ih =>
    -- The line that has ended reaches no further than the edge, for its last glyph counts.
    have hlast : r.last.right ≤ r.metrics.right := ih.2 ⟨r.last, r.last_mem_reaching, rfl⟩
    rw [metrics_snoc, right_measure_of_startsLine (by rw [last_metrics]; exact hline), last_metrics,
      max_eq_left hlast, reaching_snoc_of_startsLine hline]
    exact isGreatest_concat ih glyph
  | same r glyph hline ih =>
    rw [metrics_snoc, measure_of_sameLine (by rw [last_metrics]; exact hline)]
    rcases r.oneLine_or_manyLines with hone | hmany
    · have hsnoc : (r.snoc glyph).lines.length = 1 := by
        rw [length_lines, lineGaps_snoc, hline]
        rw [length_lines] at hone
        simpa using hone
      -- The edge is that of the latest glyph, and what the glyph adds takes it to its own.
      rw [reaching_of_oneLine hone] at ih
      have hedge := ih.unique (isGreatest_single _ _)
      rw [Metrics.right_append_of_oneLine (manyLines_metrics_of_oneLine hone), last_metrics, hedge,
        sub_self, zero_add, reaching_of_oneLine hsnoc, last_snoc]
      exact isGreatest_single _ _
    · rw [Metrics.right_append_of_manyLines (r.manyLines_metrics_iff.mpr hmany),
        reaching_snoc_of_manyLines hline hmany]
      exact isGreatest_concat ih glyph

theorem isGreatest_glyphHeight (r : Run ℚ) :
    IsGreatest (Glyph.height '' {g | g ∈ r.glyphs}) r.metrics.glyphHeight := by
  induction r using induction_snoc with
  | single glyph => exact isGreatest_single _ _
  | snoc r glyph ih =>
    rw [metrics_snoc, glyphHeight_measure, glyphs_snoc]
    exact isGreatest_concat ih glyph

theorem isGreatest_ascent (r : Run ℚ) :
    IsGreatest (Glyph.ascent '' {g | g ∈ r.glyphs}) r.metrics.ascent := by
  induction r using induction_snoc with
  | single glyph => exact isGreatest_single _ _
  | snoc r glyph ih =>
    rw [metrics_snoc, ascent_measure, glyphs_snoc]
    exact isGreatest_concat ih glyph

theorem isLeast_descent (r : Run ℚ) :
    IsLeast (Glyph.descent '' {g | g ∈ r.glyphs}) r.metrics.descent := by
  induction r using induction_snoc with
  | single glyph => exact isLeast_single _ _
  | snoc r glyph ih =>
    rw [metrics_snoc, descent_measure, glyphs_snoc]
    exact isLeast_concat ih glyph

theorem baseline_metrics (r : Run ℚ) : r.metrics.baseline = r.first.y := by
  induction r using induction_snoc with
  | single glyph => rfl
  | snoc r glyph ih =>
    rw [metrics_snoc, baseline_measure]
    exact ih

/-- While there is one line, the height is that of the highest glyph. -/
theorem height_metrics_of_oneLine {r : Run ℚ} (h : r.metrics.manyLines = false) :
    r.metrics.height = r.metrics.glyphHeight := by
  induction r using induction_snoc with
  | single glyph => rfl
  | snoc r glyph ih =>
    rw [metrics_snoc, manyLines_measure, Bool.or_eq_false_iff] at h
    rw [metrics_snoc, measure_of_sameLine h.2]
    simp only [Metrics.append, h.1, Bool.false_eq_true, if_false, ih h.1]

/-- The measures are those of the run, taken at the end from all its glyphs. -/
structure Measured (r : Run ℚ) (m : Metrics ℚ) : Prop where
  baseline : m.baseline = r.first.y
  x : IsLeast (Glyph.x '' {g | g ∈ r.lineStarts}) m.x
  /-- On a single line the latest glyph gives the right edge and the highest one the height. -/
  oneLine : r.lines.length = 1 →
    m.x + m.width = r.last.right ∧ IsGreatest (Glyph.height '' {g | g ∈ r.glyphs}) m.height
  /-- With further lines the height is the distance to the latest one. -/
  manyLines : 2 ≤ r.lines.length →
    IsGreatest (Glyph.right '' {g | (∃ line ∈ r.lines.head?, g ∈ line.getLast?)
      ∨ ∃ line ∈ r.lines.tail, g ∈ line}) (m.x + m.width)
    ∧ r.lineGaps.getLast? = some m.height
  glyphHeight : IsGreatest (Glyph.height '' {g | g ∈ r.glyphs}) m.glyphHeight
  ascent : IsGreatest (Glyph.ascent '' {g | g ∈ r.glyphs}) m.ascent
  descent : IsLeast (Glyph.descent '' {g | g ∈ r.glyphs}) m.descent
  descent_nonpos : m.descent ≤ 0

theorem mem_reaching_iff {r : Run ℚ} {glyph : Glyph ℚ} :
    glyph ∈ r.reaching ↔ (∃ line ∈ r.lines.head?, glyph ∈ line.getLast?)
      ∨ ∃ line ∈ r.lines.tail, glyph ∈ line := by
  rw [reaching]
  cases r.lines with
  | nil => simp
  | cons line further => simp

theorem measured (r : Run ℚ) : r.Measured r.metrics where
  baseline := r.baseline_metrics
  x := r.isLeast_x
  oneLine h := by
    have hright := r.isGreatest_right
    rw [reaching_of_oneLine h] at hright
    refine ⟨hright.unique (isGreatest_single _ _), ?_⟩
    rw [height_metrics_of_oneLine (manyLines_metrics_of_oneLine h)]
    exact r.isGreatest_glyphHeight
  manyLines h := by
    refine ⟨?_, ?_⟩
    · have hright := r.isGreatest_right
      simp only [mem_reaching_iff] at hright
      exact hright
    · have hmany := r.manyLines_metrics_iff.mpr h
      rw [lineHeight_of_two_le h, Metrics.lineHeight, if_pos hmany]
  glyphHeight := r.isGreatest_glyphHeight
  ascent := r.isGreatest_ascent
  descent := r.isLeast_descent
  descent_nonpos := by
    obtain ⟨glyph, -, hglyph⟩ := r.isLeast_descent.1
    rw [← hglyph]
    exact glyph.descent_nonpos

end Run

namespace Delivery

variable {τ : Type}

/-- Whatever glyphs a page has been fed, the paragraph under construction has been measured exactly:
of the runs that the glyphs so far are cut into, all but the last one have been handed out, and the
measures are those of the last one. -/
theorem measured_begun (take : Paragraph ℚ → Act τ Unit) (fonts : FontTable ℚ) (d : Delivery ℚ τ)
    (width : Option ℚ) (glyphs : List (Glyph ℚ)) :
    (glyphs = [] ∧ (d.begun take fonts width glyphs).segmenter.buffer.metrics = none)
    ∨ ∃ before, ∃ r : Run ℚ, ∃ m,
      (d.segmenter.beginPage width).runs fonts glyphs = before ++ [r]
      ∧ before.flatMap Run.glyphs ++ r.glyphs
        = (d.segmenter.beginPage width).accepted fonts glyphs
      ∧ (d.begun take fonts width glyphs).offered
        = d.offered ++ paragraphs d.segmenter.options fonts before
      ∧ (d.begun take fonts width glyphs).segmenter.buffer.metrics = some m
      ∧ r.Measured m := by
  cases glyphs with
  | nil => exact .inl ⟨rfl, rfl⟩
  | cons glyph glyphs =>
    obtain ⟨before, r, hruns, hsettles, hr⟩ := settles_begun take fonts width glyphs d glyph
    have hglyphs := flatMap_runs fonts width (glyph :: glyphs) d
    rw [hruns, List.flatMap_append, List.flatMap_singleton] at hglyphs
    exact .inr ⟨before, r, r.metrics, hruns, hglyphs, hsettles.offered, hr.metrics, r.measured⟩

end Delivery

end Folio
