import Folio.Proofs.Paragraph.Geometry

/-!
# What a box holds of its glyphs

The box of a paragraph reaches from the anchor to a glyph's width behind the right edge. Since the
anchor goes by the starts of lines alone, and the edge on the first line by its latest glyph alone,
a box holds all its glyphs as long as none is drawn back over others, and what sticks out of it
otherwise can be told exactly (`boxes_pageOver`).

The spacer of an indented first line is settled by the second line, while the anchor moves on with
every further one. So the first line stands where its first glyph was as long as no line from the
third on starts further left than both of the first two, and too far left otherwise
(`indents_pageOver`).
-/

namespace Folio

/-- Where the box of a paragraph ends. -/
def Paragraph.right {α : Type} [Scalar α] (p : Paragraph α) : α := p.left + p.width

namespace Run

section

variable {α : Type} [Scalar α] (r : Run α)

/-- Every line has a first glyph. -/
theorem length_lineStarts : r.lineStarts.length = r.lines.length := by
  induction r using induction_line with
  | single glyph => rfl
  | further r glyph hline ih =>
    rw [lineStarts_snoc_of_startsLine hline, lines_snoc_of_startsLine hline, List.length_append,
      List.length_append, ih]
    rfl
  | same r glyph hline ih =>
    obtain ⟨before, start, rest, hlines⟩ := r.exists_latest
    rw [lineStarts_snoc_of_sameLine hline, lines_snoc_of_sameLine hline hlines, ih, hlines,
      List.length_append, List.length_append]
    rfl

theorem head?_lineStarts : r.lineStarts.head? = some r.first := by
  induction r using induction_line with
  | single glyph => rfl
  | further r glyph hline ih =>
    rw [lineStarts_snoc_of_startsLine hline, List.head?_append, ih]
    rfl
  | same r glyph hline ih =>
    rw [lineStarts_snoc_of_sameLine hline]
    exact ih

variable {r}

theorem lineStarts_of_oneLine (h : r.lines.length = 1) : r.lineStarts = [r.first] := by
  have hlength := r.length_lineStarts
  have hfirst := r.head?_lineStarts
  rw [h] at hlength
  obtain ⟨start, hstarts⟩ := List.length_eq_one_iff.mp hlength
  rw [hstarts] at hfirst ⊢
  exact congrArg (fun glyph => [glyph]) (Option.some.inj hfirst)

theorem lineStarts_of_manyLines (h : 2 ≤ r.lines.length) :
    ∃ second rest, r.lineStarts = r.first :: second :: rest := by
  have hlength := r.length_lineStarts
  have hfirst := r.head?_lineStarts
  cases hstarts : r.lineStarts with
  | nil =>
    rw [hstarts] at hfirst
    cases hfirst
  | cons first starts =>
    rw [hstarts] at hlength hfirst
    cases hfirst
    cases starts with
    | nil =>
      rw [← hlength] at h
      simp at h
    | cons second rest => exact ⟨second, rest, rfl⟩

end

/-! ## The spacer -/

/-- A glyph that starts the second line settles the indent, by how far it is left of the first. -/
theorem indentAfter_metrics_of_oneLine {r : Run ℚ} (hone : r.lines.length = 1) {glyph : Glyph ℚ}
    (hline : startsLine r.last glyph = true) :
    indentAfter r.metrics [glyph]
      = if glyph.x < r.first.x then some (r.first.x - glyph.x) else none := by
  have hx := r.isLeast_x
  rw [lineStarts_of_oneLine hone] at hx
  have hanchor : r.metrics.x = r.first.x := hx.unique (isLeast_single _ _)
  simp only [indentAfter, last_metrics, hline, if_true, Metrics.indent, hanchor,
    Scalar.greater_eq_max]
  by_cases hleft : glyph.x < r.first.x
  · have hpos : 0 < r.first.x - glyph.x := sub_pos.mpr hleft
    rw [if_pos hleft, max_eq_right hpos.le, if_pos hpos]
  · have hnonpos : r.first.x - glyph.x ≤ 0 := sub_nonpos.mpr (not_lt.mp hleft)
    rw [if_neg hleft, max_eq_left hnonpos, if_neg (lt_irrefl _)]

/-- The indent is how far the second line starts left of the first, whatever lines follow. -/
theorem indent?_of_lineStarts {options : Options ℚ} (h : options.correctsIndent = true) {r : Run ℚ}
    {second : Glyph ℚ} {rest : List (Glyph ℚ)}
    (hstarts : r.lineStarts = r.first :: second :: rest) :
    r.indent? options = if second.x < r.first.x then some (r.first.x - second.x) else none := by
  induction r using induction_line generalizing rest with
  | single glyph => simp at hstarts
  | further r glyph hline ih =>
    rw [lineStarts_snoc_of_startsLine hline] at hstarts
    rw [indent?_snoc, if_pos h]
    rcases r.oneLine_or_manyLines with hone | hmany
    · have hflat : ¬ r.metrics.manyLines = true :=
        Bool.eq_false_iff.mp (manyLines_metrics_of_oneLine hone)
      rw [lineStarts_of_oneLine hone] at hstarts
      cases hstarts
      rw [if_neg hflat]
      exact indentAfter_metrics_of_oneLine hone hline
    · obtain ⟨second', rest', hbefore⟩ := lineStarts_of_manyLines hmany
      rw [hbefore] at hstarts
      cases hstarts
      rw [if_pos (r.manyLines_metrics_iff.mpr hmany)]
      exact ih hbefore
  | same r glyph hline ih =>
    rw [lineStarts_snoc_of_sameLine hline] at hstarts
    have hmany : 2 ≤ r.lines.length := by
      rw [← length_lineStarts, hstarts]
      exact Nat.le_add_left 2 rest.length
    rw [indent?_snoc, if_pos (r.manyLines_metrics_iff.mpr hmany)]
    exact ih hstarts

/-! ## Where the box begins and ends -/

section

variable (options : Options ℚ) (face : Face) (r : Run ℚ)

theorem left_paragraph_le_iff (x : ℚ) :
    (r.paragraph options face).left ≤ x ↔ ∃ start ∈ r.lineStarts, start.x ≤ x := by
  have hleft : (r.paragraph options face).left = r.metrics.x := rfl
  obtain ⟨⟨start, hstart, hx⟩, hleast⟩ := r.isLeast_x
  rw [hleft]
  constructor
  · intro hle
    exact ⟨start, hstart, hx.le.trans hle⟩
  · intro hstarts
    obtain ⟨other, hother, hle⟩ := hstarts
    exact (hleast ⟨other, hother, rfl⟩).trans hle

theorem le_right_paragraph_iff (x : ℚ) :
    x ≤ (r.paragraph options face).right ↔ ∃ far ∈ r.reaching, x ≤ far.right + r.last.width := by
  have hright : (r.paragraph options face).right = r.metrics.right + r.last.width :=
    (add_assoc _ _ _).symm
  obtain ⟨⟨far, hfar, hedge⟩, hgreatest⟩ := r.isGreatest_right
  rw [hright]
  constructor
  · intro hle
    exact ⟨far, hfar, by rw [hedge]; exact hle⟩
  · intro hreaching
    obtain ⟨other, hother, hle⟩ := hreaching
    exact hle.trans (add_le_add_left (hgreatest ⟨other, hother, rfl⟩) _)

/-- With its spacer, the first line starts where its first glyph is exactly if no line from the
third on starts further left than both of the first two. -/
theorem left_add_indent_eq_iff {second : Glyph ℚ} {rest : List (Glyph ℚ)}
    (hstarts : r.lineStarts = r.first :: second :: rest) :
    (r.paragraph options face).left + max 0 (r.first.x - second.x) = r.first.x
      ↔ ∀ start ∈ rest, min r.first.x second.x ≤ start.x := by
  have hfirst : min r.first.x second.x + max 0 (r.first.x - second.x) = r.first.x := by
    rcases le_total r.first.x second.x with hle | hle
    · rw [min_eq_left hle, max_eq_left (sub_nonpos.mpr hle), add_zero]
    · rw [min_eq_right hle, max_eq_right (sub_nonneg.mpr hle), add_sub_cancel]
  have hleft : (r.paragraph options face).left ≤ min r.first.x second.x := by
    rw [le_min_iff, left_paragraph_le_iff, left_paragraph_le_iff, hstarts]
    exact ⟨⟨r.first, by simp, le_refl _⟩, ⟨second, by simp, le_refl _⟩⟩
  have hanchor : min r.first.x second.x ≤ (r.paragraph options face).left
      ↔ ∀ start ∈ rest, min r.first.x second.x ≤ start.x := by
    constructor
    · intro hle start hstart
      have hmem : start ∈ r.lineStarts := by simp [hstarts, hstart]
      exact hle.trans ((left_paragraph_le_iff options face r _).mpr ⟨start, hmem, le_refl _⟩)
    · intro hrest
      obtain ⟨start, hstart, hle⟩ := (left_paragraph_le_iff options face r _).mp (le_refl _)
      refine le_trans ?_ hle
      rw [hstarts, List.mem_cons, List.mem_cons] at hstart
      rcases hstart with rfl | rfl | hstart
      · exact min_le_left _ _
      · exact min_le_right _ _
      · exact hrest start hstart
  rw [← hanchor]
  constructor
  · intro heq
    exact (add_right_cancel (heq.trans hfirst.symm)).ge
  · intro hle
    rw [le_antisymm hleft hle, hfirst]

end

/-! ## Glyphs that are not drawn back -/

/-- The glyph is not drawn back over the one before it. -/
def Forward (previous glyph : Glyph ℚ) : Prop :=
  previous.x ≤ glyph.x ∧ previous.right ≤ glyph.right

instance : IsTrans (Glyph ℚ) Forward where
  trans _ _ _ h₁ h₂ := ⟨h₁.1.trans h₂.1, h₁.2.trans h₂.2⟩

theorem start_le_of_forward {start : Glyph ℚ} {rest : List (Glyph ℚ)}
    (h : (start :: rest).IsChain Forward) : ∀ glyph ∈ start :: rest, start.x ≤ glyph.x := by
  intro glyph hglyph
  rcases List.mem_cons.mp hglyph with rfl | hglyph
  · exact le_refl _
  · exact (List.rel_of_pairwise_cons h.pairwise hglyph).1

theorem right_le_of_forward {line : List (Glyph ℚ)} (h : line.IsChain Forward) {last : Glyph ℚ}
    (hlast : line.getLast? = some last) : ∀ glyph ∈ line, glyph.right ≤ last.right := by
  intro glyph hglyph
  obtain ⟨before, rfl⟩ := List.getLast?_eq_some_iff.mp hlast
  rcases List.mem_append.mp hglyph with hglyph | hglyph
  · exact ((List.pairwise_append.mp h.pairwise).2.2 glyph hglyph last (by simp)).2
  · rw [List.mem_singleton.mp hglyph]

section

variable (options : Options ℚ) (face : Face) {r : Run ℚ}

theorem exists_line_of_mem_glyphs {glyph : Glyph ℚ} (h : glyph ∈ r.glyphs) :
    ∃ line ∈ r.lines, glyph ∈ line := by
  have hflatten : r.lines.flatten = r.glyphs := List.flatten_splitBy _ _
  rw [← hflatten] at h
  exact List.mem_flatten.mp h

/-- What counts for the width is in the box. -/
theorem right_le_of_mem_reaching (hlast : 0 ≤ r.last.width) {glyph : Glyph ℚ}
    (h : glyph ∈ r.reaching) : glyph.right ≤ (r.paragraph options face).right :=
  (le_right_paragraph_iff options face r _).mpr ⟨glyph, h, le_add_of_nonneg_right hlast⟩

/-- A paragraph in which no glyph is drawn back is in its box. -/
theorem inside_of_forward (hlast : 0 ≤ r.last.width)
    (h : ∀ line ∈ r.lines, line.IsChain Forward) {glyph : Glyph ℚ} (hglyph : glyph ∈ r.glyphs) :
    (r.paragraph options face).left ≤ glyph.x ∧ glyph.right ≤ (r.paragraph options face).right := by
  obtain ⟨line, hline, hmem⟩ := exists_line_of_mem_glyphs hglyph
  have hforward := h line hline
  constructor
  · cases line with
    | nil => cases hmem
    | cons start rest =>
      have hstart : start ∈ r.lineStarts := List.mem_filterMap.mpr ⟨_, hline, rfl⟩
      exact (left_paragraph_le_iff options face r _).mpr
        ⟨start, hstart, start_le_of_forward hforward glyph hmem⟩
  · -- On the first line the last glyph is furthest right, and on the others each glyph counts.
    cases hlines : r.lines with
    | nil =>
      rw [hlines] at hline
      cases hline
    | cons first further =>
      rw [hlines] at hline
      rcases List.mem_cons.mp hline with rfl | hfurther
      · have hne : line ≠ [] := List.ne_nil_of_mem hmem
        have hend := List.getLast?_eq_some_getLast hne
        have hreaching : line.getLast hne ∈ r.reaching :=
          mem_reaching_iff.mpr (.inl ⟨line, by rw [hlines]; rfl, hend⟩)
        exact (right_le_of_forward hforward hend glyph hmem).trans
          (right_le_of_mem_reaching options face hlast hreaching)
      · have hreaching : glyph ∈ r.reaching :=
          mem_reaching_iff.mpr (.inr ⟨line, by rw [hlines]; exact hfurther, hmem⟩)
        exact right_le_of_mem_reaching options face hlast hreaching

end

/-! ## What is known of a box -/

/-- How the first line of a paragraph of several lines is set off in its box: the further lines
start with `second` and `rest`. -/
structure SetOff (options : Options ℚ) (r : Run ℚ) (second : Glyph ℚ) (rest : List (Glyph ℚ))
    (box : Paragraph ℚ) : Prop where
  starts : r.lineStarts = r.first :: second :: rest
  /-- There is a spacer as wide as the second line is left of the first, or none. -/
  content : box.content
    = (if second.x < r.first.x then
        ParagraphBuffer.spacer (r.first.x - second.x) options.unit else [])
      ++ r.text options
      ++ (if endsSentence options r.last then [] else ParagraphBuffer.sentenceEnd)
  left : IsLeast (Glyph.x '' {g | g ∈ r.lineStarts}) box.left
  /-- The first line is in its place if no line from the third on starts left of the first two. -/
  inPlace : box.left + max 0 (r.first.x - second.x) = r.first.x
    ↔ ∀ start ∈ rest, min r.first.x second.x ≤ start.x

theorem setOff {options : Options ℚ} (h : options.correctsIndent = true) (face : Face) {r : Run ℚ}
    {second : Glyph ℚ} {rest : List (Glyph ℚ)}
    (hstarts : r.lineStarts = r.first :: second :: rest) :
    r.SetOff options second rest (r.paragraph options face) where
  starts := hstarts
  content := by
    have hlead : r.lead options = if second.x < r.first.x then
        ParagraphBuffer.spacer (r.first.x - second.x) options.unit else [] := by
      rw [lead, indent?_of_lineStarts h hstarts]
      split <;> rfl
    rw [← hlead]
    rfl
  left := r.isLeast_x
  inPlace := left_add_indent_eq_iff options face r hstarts

/-- Which glyphs of a paragraph are in its box. -/
structure Boxed (r : Run ℚ) (box : Paragraph ℚ) : Prop where
  /-- On the left it holds what some line starts left of. -/
  left : ∀ glyph ∈ r.glyphs, box.left ≤ glyph.x ↔ ∃ start ∈ r.lineStarts, start.x ≤ glyph.x
  /-- On the right it holds what is not further than the last width behind a glyph that counts. -/
  right : ∀ glyph ∈ r.glyphs,
    glyph.right ≤ box.right ↔ ∃ far ∈ r.reaching, glyph.right ≤ far.right + r.last.width
  further : ∀ line ∈ r.lines.tail, ∀ glyph ∈ line, glyph.right ≤ box.right
  forward : (∀ line ∈ r.lines, line.IsChain Forward) →
    ∀ glyph ∈ r.glyphs, box.left ≤ glyph.x ∧ glyph.right ≤ box.right

theorem boxed (options : Options ℚ) (face : Face) {r : Run ℚ} (hlast : 0 ≤ r.last.width) :
    r.Boxed (r.paragraph options face) where
  left _ _ := left_paragraph_le_iff options face r _
  right _ _ := le_right_paragraph_iff options face r _
  further line hline _ hglyph :=
    right_le_of_mem_reaching options face hlast (mem_reaching_iff.mpr (.inr ⟨line, hline, hglyph⟩))
  forward hforward _ hglyph := inside_of_forward options face hlast hforward hglyph

end Run

namespace Delivery

variable {τ : Type} (take : Paragraph ℚ → Act τ Unit) (fonts : FontTable ℚ) (d : Delivery ℚ τ)
  (width : Option ℚ)

/-- In every paragraph of several lines that a page offers, the spacer is settled by the second line
and the left edge by all of them. So the first line is in its place exactly if no line from the
third on starts further left than both of the first two. -/
theorem indents_pageOver (h : d.segmenter.options.correctsIndent = true)
    (glyphs : List (Glyph ℚ)) :
    (d.pageOver take fonts width glyphs).offered = d.offered
        ++ paragraphs d.segmenter.options fonts ((d.segmenter.beginPage width).runs fonts glyphs)
      ∧ ∀ r ∈ (d.segmenter.beginPage width).runs fonts glyphs, 2 ≤ r.lines.length → ∀ face,
        ∃ second rest, r.SetOff d.segmenter.options second rest
          (r.paragraph d.segmenter.options face) := by
  refine ⟨offered_pageOver take fonts width glyphs d, ?_⟩
  intro r hr hmany face
  obtain ⟨second, rest, hstarts⟩ := Run.lineStarts_of_manyLines hmany
  exact ⟨second, rest, Run.setOff h face hstarts⟩

/-- Two lines that start at the same place and a third one further left. -/
def lateOutdent : List (Glyph ℚ) :=
  [("A", 20, 0), ("B", 30, 0), ("C", 20, 12), ("D", 30, 12), ("E", 10, 24)].map fun g =>
    ⟨Text.lit g.1, g.2.1, g.2.2, 10, 10, none, 10, 10, 10⟩

/-- The three lines are one paragraph that starts where the third line does and has no spacer, so
that its first line is not in its place. -/
theorem indents_pageOver_lateOutdent :
    (Segmenter.new (.standard : Options ℚ)).options.correctsIndent = true
      ∧ ((⟨.new .standard, (), []⟩ : Delivery ℚ Unit).pageOver (fun _ => pure ()) ⟨[], [], []⟩ none
          lateOutdent).offered.map (fun p => (p.left, p.content))
        = [(10, Text.lit "<span class=\"seq\">ABCDE</span>")]
      ∧ ∃ r ∈ ((Segmenter.new (.standard : Options ℚ)).beginPage none).runs ⟨[], [], []⟩
          lateOutdent,
        2 ≤ r.lines.length ∧ ∀ face, ∃ second rest,
          r.SetOff .standard second rest (r.paragraph .standard face)
          ∧ (r.paragraph .standard face).left + max 0 (r.first.x - second.x) ≠ r.first.x := by
  refine ⟨rfl, by decide +kernel, ?_⟩
  have hruns : (((Segmenter.new (.standard : Options ℚ)).beginPage none).runs ⟨[], [], []⟩
      lateOutdent).map (fun r => r.lineStarts.map Glyph.x) = [[20, 20, 10]] := by
    decide +kernel
  have hmem := List.mem_singleton_self ([20, 20, 10] : List ℚ)
  rw [← hruns, List.mem_map] at hmem
  obtain ⟨r, hr, hstarts⟩ := hmem
  have hmany : 2 ≤ r.lines.length := by
    rw [← r.length_lineStarts, ← List.length_map, hstarts]
    decide
  refine ⟨r, hr, hmany, fun face => ?_⟩
  obtain ⟨second, rest, hsetOff⟩ := (indents_pageOver (fun _ => pure ()) ⟨[], [], []⟩
    (⟨.new .standard, (), []⟩ : Delivery ℚ Unit) none rfl lateOutdent).2 r hr hmany face
  refine ⟨second, rest, hsetOff, fun heq => ?_⟩
  have hinPlace := hsetOff.inPlace.mp heq
  rw [hsetOff.starts] at hstarts
  obtain ⟨hfirst, hsecond, hrest⟩ : r.first.x = 20 ∧ second.x = 20 ∧ rest.map Glyph.x = [10] := by
    simpa using hstarts
  obtain ⟨third, rfl, hthird⟩ := List.map_eq_singleton_iff.mp hrest
  have hle := hinPlace third (List.mem_singleton_self _)
  rw [hfirst, hsecond, hthird] at hle
  exact absurd hle (by decide)

/-- A paragraph that a page offers holds a glyph exactly as far as the starts of its lines, its
further lines and the last glyph of its first one reach. It holds its further lines up to their ends
in any case, and all its glyphs if none is drawn back. -/
theorem boxes_pageOver {glyphs : List (Glyph ℚ)} (h : ∀ glyph ∈ glyphs, 0 ≤ glyph.width) :
    (d.pageOver take fonts width glyphs).offered = d.offered
        ++ paragraphs d.segmenter.options fonts ((d.segmenter.beginPage width).runs fonts glyphs)
      ∧ ∀ r ∈ (d.segmenter.beginPage width).runs fonts glyphs, ∀ face,
        r.Boxed (r.paragraph d.segmenter.options face) := by
  refine ⟨offered_pageOver take fonts width glyphs d, ?_⟩
  intro r hr face
  have hmem : r.last ∈ ((d.segmenter.beginPage width).runs fonts glyphs).flatMap Run.glyphs :=
    List.mem_flatMap.mpr ⟨r, hr, List.mem_of_getLast? r.getLast?_glyphs⟩
  rw [flatMap_runs] at hmem
  exact Run.boxed _ face (h _ (Segmenter.mem_of_mem_accepted hmem))

/-- A letter and an accent that is drawn back over it. -/
def accented : List (Glyph ℚ) :=
  [("e", 10, 10), ("^", 8, 4)].map fun g => ⟨Text.lit g.1, g.2.1, 0, g.2.2, 10, none, 10, 10, 10⟩

/-- The accent begins left of the box, and the letter ends right of it. -/
theorem boxes_pageOver_accented :
    (∀ glyph ∈ accented, 0 ≤ glyph.width)
      ∧ ((⟨.new .standard, (), []⟩ : Delivery ℚ Unit).pageOver (fun _ => pure ()) ⟨[], [], []⟩ none
          accented).offered.map (fun p => (p.left, p.right)) = [(10, 16)]
      ∧ ∃ r ∈ ((Segmenter.new (.standard : Options ℚ)).beginPage none).runs ⟨[], [], []⟩ accented,
        ∀ face, (∃ glyph ∈ r.glyphs, ¬ (r.paragraph .standard face).left ≤ glyph.x)
          ∧ ∃ glyph ∈ r.glyphs, ¬ glyph.right ≤ (r.paragraph .standard face).right := by
  have hwidth : ∀ glyph ∈ accented, 0 ≤ glyph.width := by decide +kernel
  refine ⟨hwidth, by decide +kernel, ?_⟩
  have hruns : (((Segmenter.new (.standard : Options ℚ)).beginPage none).runs ⟨[], [], []⟩
      accented).map (fun r => (r.glyphs.map (fun glyph => (glyph.x, glyph.right)),
        r.lineStarts.map Glyph.x, r.reaching.map Glyph.right, r.last.width))
        = [([(10, 20), (8, 12)], [10], [12], 4)] := by
    decide +kernel
  have hmem := List.mem_singleton_self
    ((([(10, 20), (8, 12)], [10], [12], 4) : List (ℚ × ℚ) × List ℚ × List ℚ × ℚ))
  rw [← hruns, List.mem_map] at hmem
  obtain ⟨r, hr, hdata⟩ := hmem
  simp only [Prod.mk.injEq] at hdata
  obtain ⟨hglyphs, hstarts, hreaching, hlast⟩ := hdata
  obtain ⟨letter, hletter, hends⟩ : ∃ glyph ∈ r.glyphs, (glyph.x, glyph.right) = (10, 20) :=
    List.mem_map.mp (by rw [hglyphs]; simp)
  obtain ⟨accent, haccent, hbegins⟩ : ∃ glyph ∈ r.glyphs, (glyph.x, glyph.right) = (8, 12) :=
    List.mem_map.mp (by rw [hglyphs]; simp)
  refine ⟨r, hr, fun face => ?_⟩
  have hboxed : r.Boxed (r.paragraph .standard face) :=
    (boxes_pageOver (fun _ => pure ()) ⟨[], [], []⟩ (⟨.new .standard, (), []⟩ : Delivery ℚ Unit)
      none hwidth).2 r hr face
  constructor
  · refine ⟨accent, haccent, fun hle => ?_⟩
    obtain ⟨start, hstart, hx⟩ := (hboxed.left accent haccent).mp hle
    have hmem : start.x ∈ r.lineStarts.map Glyph.x := List.mem_map_of_mem hstart
    rw [hstarts, List.mem_singleton] at hmem
    rw [hmem, (Prod.mk.inj hbegins).1] at hx
    exact absurd hx (by decide)
  · refine ⟨letter, hletter, fun hle => ?_⟩
    obtain ⟨far, hfar, hx⟩ := (hboxed.right letter hletter).mp hle
    have hmem : far.right ∈ r.reaching.map Glyph.right := List.mem_map_of_mem hfar
    rw [hreaching, List.mem_singleton] at hmem
    rw [hmem, hlast, (Prod.mk.inj hends).2] at hx
    exact absurd hx (by decide +kernel)

end Delivery

end Folio
