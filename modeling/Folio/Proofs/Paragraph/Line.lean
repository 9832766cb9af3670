import Folio.Proofs.Paragraph.Run
import Mathlib.Data.List.SplitBy

/-!
# Visual lines of a run

A run of glyphs falls into visual lines: a new one starts where the baseline of a glyph is further
from that of the glyph before it than either of the two is high. `Run.lines` cuts the run there and
`Run.lineGaps` are the distances from line to line.

For an induction along the run there is an equation for one more glyph at its end: it lengthens the
latest line (`lines_snoc_of_sameLine`) or is a line of its own (`lines_snoc_of_startsLine`). The
measures of a run know whether there is a second line, and their height is then the latest distance
(`height_metrics`).
-/

namespace Folio.Run

variable {α : Type}

/-- Runs are made of one glyph and then one more at a time. -/
theorem induction_snoc {P : Run α → Prop} (single : ∀ glyph, P ⟨glyph, []⟩)
    (snoc : ∀ r glyph, P r → P (r.snoc glyph)) (r : Run α) : P r := by
  obtain ⟨first, rest⟩ := r
  induction rest using List.reverseRecOn with
  | nil => exact single first
  | append_singleton rest glyph ih => exact snoc ⟨first, rest⟩ glyph ih

theorem getLast?_glyphs (r : Run α) : r.glyphs.getLast? = some r.last := by
  rw [glyphs, List.getLast?_cons, last, List.getLastD_eq_getLast?]

variable [Scalar α]

/-- One more glyph starts a further line or goes on with the latest one. -/
theorem induction_line {P : Run α → Prop} (single : ∀ glyph, P ⟨glyph, []⟩)
    (further : ∀ r glyph, startsLine r.last glyph = true → P r → P (r.snoc glyph))
    (same : ∀ r glyph, startsLine r.last glyph = false → P r → P (r.snoc glyph)) (r : Run α) :
    P r := by
  induction r using induction_snoc with
  | single glyph => exact single glyph
  | snoc r glyph ih =>
    by_cases hline : startsLine r.last glyph = true
    · exact further r glyph hline ih
    · exact same r glyph (Bool.eq_false_iff.mpr hline) ih

/-- How far the baselines of two glyphs are apart. -/
def lineGap (previous glyph : Glyph α) : α := Scalar.abs (previous.y - glyph.y)

/-- The visual lines of the run. -/
def lines (r : Run α) : List (List (Glyph α)) :=
  r.glyphs.splitBy fun previous glyph => !startsLine previous glyph

/-- The distances to the lines that start among the glyphs that follow a glyph. -/
def gapsAfter : Glyph α → List (Glyph α) → List α
  | _, [] => []
  | previous, glyph :: rest =>
    (if startsLine previous glyph then [lineGap previous glyph] else []) ++ gapsAfter glyph rest

/-- The distances from line to line. -/
def lineGaps (r : Run α) : List α := gapsAfter r.first r.rest

/-! ## One more glyph -/

@[simp] theorem lines_single (glyph : Glyph α) : (⟨glyph, []⟩ : Run α).lines = [[glyph]] := rfl

@[simp] theorem lineGaps_single (glyph : Glyph α) : (⟨glyph, []⟩ : Run α).lineGaps = [] := rfl

theorem lines_snoc_of_startsLine {r : Run α} {glyph : Glyph α}
    (h : startsLine r.last glyph = true) : (r.snoc glyph).lines = r.lines ++ [[glyph]] := by
  have hparted : ∀ previous ∈ r.glyphs.getLast?, (!startsLine previous glyph) = false := by
    intro previous hprevious
    rw [getLast?_glyphs] at hprevious
    cases hprevious
    rw [h]
    rfl
  exact List.splitBy_append_cons (r := fun previous glyph => !startsLine previous glyph) [] hparted

/-- The latest line ends with the latest glyph. -/
theorem getLast?_latest {r : Run α} {before : List (List (Glyph α))} {line : List (Glyph α)}
    (hlines : r.lines = before ++ [line]) : line.getLast? = some r.last := by
  obtain ⟨hglyphs, hnil, -⟩ := List.splitBy_eq_iff.mp hlines
  have hline : line ≠ [] := fun hempty => hnil (by simp [hempty])
  rw [← getLast?_glyphs, hglyphs]
  simp [List.getLast?_append, List.getLast?_eq_some_getLast hline]

/-- A glyph on the same line lengthens the latest line. -/
theorem lines_snoc_of_sameLine {r : Run α} {glyph : Glyph α} (h : startsLine r.last glyph = false)
    {before : List (List (Glyph α))} {line : List (Glyph α)} (hlines : r.lines = before ++ [line]) :
    (r.snoc glyph).lines = before ++ [line ++ [glyph]] := by
  obtain ⟨hglyphs, hnil, hchains, hparted⟩ := List.splitBy_eq_iff.mp hlines
  have hline : line ≠ [] := fun hempty => hnil (by simp [hempty])
  have hlast := getLast?_latest hlines
  refine List.splitBy_eq_iff.mpr ⟨?_, ?_, ?_, ?_⟩
  · rw [glyphs_snoc, hglyphs]
    simp
  · intro hmem
    rcases List.mem_append.mp hmem with hmem | hmem
    · exact hnil (List.mem_append_left _ hmem)
    · simp at hmem
  · intro other hother
    rcases List.mem_append.mp hother with hother | hother
    · exact hchains other (List.mem_append_left _ hother)
    · obtain rfl := List.mem_singleton.mp hother
      refine (hchains line (by simp)).append (.singleton glyph)
        fun previous hprevious next hnext => ?_
      rw [hlast] at hprevious
      cases hprevious
      cases hnext
      rw [h]
      rfl
  · obtain ⟨hbefore, -, hseam⟩ := List.isChain_append.mp hparted
    refine hbefore.append (.singleton _) fun other hother next hnext => ?_
    cases hnext
    obtain ⟨hne, hhead, hparts⟩ := hseam other hother line rfl
    exact ⟨hne, by simp, by rw [List.head_append_of_ne_nil hline]; exact hparts⟩

theorem gapsAfter_concat (glyph : Glyph α) : ∀ (previous : Glyph α) (gs : List (Glyph α)),
    gapsAfter previous (gs ++ [glyph]) = gapsAfter previous gs
      ++ if startsLine (gs.getLastD previous) glyph then [lineGap (gs.getLastD previous) glyph]
        else [] := by
  intro previous gs
  induction gs generalizing previous with
  | nil => simp [gapsAfter]
  | cons g gs ih =>
    rw [List.cons_append, gapsAfter, gapsAfter, ih g, List.append_assoc, List.getLastD_cons]

theorem lineGaps_snoc (r : Run α) (glyph : Glyph α) : (r.snoc glyph).lineGaps = r.lineGaps
    ++ if startsLine r.last glyph then [lineGap r.last glyph] else [] :=
  gapsAfter_concat glyph _ _

/-- The latest line has a first glyph. -/
theorem exists_latest (r : Run α) :
    ∃ before start rest, r.lines = before ++ [start :: rest] := by
  induction r using induction_line with
  | single glyph => exact ⟨[], glyph, [], rfl⟩
  | further r glyph hline ih => exact ⟨r.lines, glyph, [], lines_snoc_of_startsLine hline⟩
  | same r glyph hline ih =>
    obtain ⟨before, start, rest, hlines⟩ := ih
    exact ⟨before, start, rest ++ [glyph], lines_snoc_of_sameLine hline hlines⟩

/-- There is a distance to every line but the first. -/
theorem length_lines (r : Run α) : r.lines.length = r.lineGaps.length + 1 := by
  induction r using induction_line with
  | single glyph => rfl
  | further r glyph hline ih =>
    rw [lineGaps_snoc, lines_snoc_of_startsLine hline, if_pos hline, List.length_append,
      List.length_append, ih]
    rfl
  | same r glyph hline ih =>
    obtain ⟨before, start, rest, hlines⟩ := r.exists_latest
    rw [lineGaps_snoc, lines_snoc_of_sameLine hline hlines, if_neg (Bool.eq_false_iff.mp hline),
      List.append_nil, ← ih, hlines, List.length_append, List.length_append]
    rfl

/-! ## What the measures know -/

theorem manyLines_metrics (r : Run α) : r.metrics.manyLines = !r.lineGaps.isEmpty := by
  induction r using induction_snoc with
  | single glyph => rfl
  | snoc r glyph ih =>
    rw [metrics_snoc, manyLines_measure, last_metrics, lineGaps_snoc, ih]
    by_cases hline : startsLine r.last glyph = true <;> simp [hline]

theorem height_measure_of_manyLines {m : Metrics α} (h : m.manyLines = true) (glyph : Glyph α) :
    (measure m glyph).height
      = if startsLine m.last glyph then lineGap m.last glyph else m.height := by
  unfold measure
  split
  · rfl
  · simp [Metrics.append, h]

/-- With a second line, the height is the distance to the latest line. -/
theorem height_metrics (r : Run α) : ∀ gap ∈ r.lineGaps.getLast?, r.metrics.height = gap := by
  induction r using induction_snoc with
  | single glyph => exact fun gap hgap => by cases hgap
  | snoc r glyph ih =>
    intro gap hgap
    rw [lineGaps_snoc] at hgap
    rw [metrics_snoc]
    by_cases hline : startsLine r.last glyph = true
    · rw [if_pos hline, List.getLast?_concat] at hgap
      cases hgap
      rw [measure, last_metrics, if_pos hline]
      rfl
    · rw [if_neg hline, List.append_nil] at hgap
      have hmany : r.metrics.manyLines = true := by
        rw [manyLines_metrics]
        cases hgaps : r.lineGaps with
        | nil => rw [hgaps] at hgap; cases hgap
        | cons => rfl
      rw [height_measure_of_manyLines hmany, last_metrics, if_neg hline]
      exact ih gap hgap

theorem manyLines_metrics_iff (r : Run α) : r.metrics.manyLines = true ↔ 2 ≤ r.lines.length := by
  rw [manyLines_metrics, length_lines]
  cases r.lineGaps <;> simp

theorem oneLine_or_manyLines (r : Run α) : r.lines.length = 1 ∨ 2 ≤ r.lines.length := by
  rw [length_lines]
  omega

theorem manyLines_metrics_of_oneLine {r : Run α} (h : r.lines.length = 1) :
    r.metrics.manyLines = false := by
  rw [Bool.eq_false_iff, ne_eq, manyLines_metrics_iff, h]
  decide

/-- The height of a paragraph of several lines is the distance to the latest one. -/
theorem lineHeight_of_two_le {r : Run α} (h : 2 ≤ r.lines.length) :
    r.lineGaps.getLast? = some r.metrics.lineHeight := by
  have hmany := r.manyLines_metrics_iff.mpr h
  rw [length_lines] at h
  have hgaps : r.lineGaps ≠ [] := by
    intro hnil
    rw [hnil] at h
    simp at h
  have hlast := List.getLast?_eq_some_getLast hgaps
  rw [hlast, Metrics.lineHeight, if_pos hmany, r.height_metrics _ hlast]

/-- Only a run of two lines or more has an indent. -/
theorem two_le_length_lines_of_indent? {options : Options α} {r : Run α}
    (h : (r.indent? options).isSome = true) : 2 ≤ r.lines.length := by
  rw [length_lines]
  cases hgaps : r.lineGaps with
  | cons => simp
  | nil =>
    have hone : r.metrics.manyLines = false := by rw [manyLines_metrics, hgaps]; rfl
    rw [indent?_of_oneLine options hone] at h
    cases h

end Folio.Run
