import Folio.Proofs.Html.Sheet
import Folio.Proofs.Paragraph.Seam

/-!
# What is merged

Every paragraph that is offered answers to the options that it was merged by: no line of it has a
wide gap, each line starts near the one before it and at the same distance from it as that one from
its predecessor, a line that another follows does not end with a space, and a spacer stands in front
of several lines or nowhere (`sound_page`).

The segmenter decides by three things that it remembers, where the latest line starts, how far it is
from the one before it and what the latest glyph is. `Tracks` says that these are still those of the
run it holds back, however often paragraphs have ended while a glyph was being taken in.
-/

namespace Folio

namespace Run

variable {α : Type} [Scalar α]

/-- The gap between two glyphs of a line is a number, and not above the tolerance. -/
def Near (options : Options α) (previous glyph : Glyph α) : Prop :=
  ∃ gap, Segmenter.gap? previous glyph = some gap ∧ ¬ options.wordGapTolerance < gap

/-- What two lines of a paragraph have in common that follow each other. -/
structure Follows (options : Options α) (line next : List (Glyph α)) : Prop where
  aligned : ∃ a ∈ line.head?, ∃ b ∈ next.head?,
    Scalar.abs (a.x - b.x) < Scalar.greater a.width b.width * options.alignmentFactor
  text : ∃ last ∈ line.getLast?, last.text ≠ Text.lit " "

/-- The next distance between lines is about the one before. -/
def Steady (options : Options α) (gap next : α) : Prop :=
  ¬ options.lineSpacingTolerance < Scalar.abs (next - gap)

/-- The lines of the run belong together by the options. -/
structure Coherent (options : Options α) (r : Run α) : Prop where
  near : ∀ line ∈ r.lines, line.IsChain (Near options)
  follows : r.lines.IsChain (Follows options)
  steady : r.lineGaps.IsChain (Steady options)
  single : options.mergesLines = false → r.lines.length = 1

theorem coherent_single (options : Options α) (glyph : Glyph α) :
    (⟨glyph, []⟩ : Run α).Coherent options where
  near line hline := by
    obtain rfl := List.mem_singleton.mp hline
    exact .singleton glyph
  follows := .singleton _
  steady := .nil
  single _ := rfl

/-- A glyph near the latest one may join it on its line. -/
theorem Coherent.snoc_of_sameLine {options : Options α} {r : Run α} (h : r.Coherent options)
    {glyph : Glyph α} (hline : startsLine r.last glyph = false)
    (hnear : Near options r.last glyph) :
    (r.snoc glyph).Coherent options := by
  obtain ⟨before, start, rest, hlines⟩ := r.exists_latest
  have hlonger := lines_snoc_of_sameLine hline hlines
  have hgaps : (r.snoc glyph).lineGaps = r.lineGaps := by
    rw [lineGaps_snoc, hline]
    exact List.append_nil _
  have hlast := getLast?_latest hlines
  refine ⟨?_, ?_, ?_, ?_⟩
  · intro line hmem
    rw [hlonger] at hmem
    rcases List.mem_append.mp hmem with hmem | hmem
    · exact h.near line (hlines ▸ List.mem_append_left _ hmem)
    · obtain rfl := List.mem_singleton.mp hmem
      refine (h.near _ (hlines ▸ by simp)).append (.singleton glyph) fun a ha b hb => ?_
      rw [hlast] at ha
      cases ha
      cases hb
      exact hnear
  · -- The line has become longer at its end, and the line before it is compared with its start.
    have hfollows := h.follows
    rw [hlines] at hfollows
    obtain ⟨hbefore, -, hseam⟩ := List.isChain_append.mp hfollows
    rw [hlonger]
    refine hbefore.append (.singleton _) fun line hmem next hnext => ?_
    cases hnext
    obtain ⟨haligned, htext⟩ := hseam line hmem _ rfl
    exact ⟨haligned, htext⟩
  · rw [hgaps]
    exact h.steady
  · intro hsingle
    have hone := h.single hsingle
    rw [hlines, List.length_append] at hone
    rw [hlonger, List.length_append]
    exact hone

/-- A line that starts where the options want it may join the lines before. -/
theorem Coherent.snoc_of_startsLine {options : Options α} {r : Run α} (h : r.Coherent options)
    {glyph : Glyph α} (hline : startsLine r.last glyph = true)
    (hfollows : ∀ line ∈ r.lines.getLast?, Follows options line [glyph])
    (hsteady : ∀ gap ∈ r.lineGaps.getLast?, Steady options gap (lineGap r.last glyph))
    (hmerges : options.mergesLines = true) : (r.snoc glyph).Coherent options := by
  have hlonger := lines_snoc_of_startsLine hline
  refine ⟨?_, ?_, ?_, ?_⟩
  · intro line hmem
    rw [hlonger] at hmem
    rcases List.mem_append.mp hmem with hmem | hmem
    · exact h.near line hmem
    · obtain rfl := List.mem_singleton.mp hmem
      exact .singleton glyph
  · rw [hlonger]
    refine h.follows.append (.singleton _) fun line hmem next hnext => ?_
    cases hnext
    exact hfollows line hmem
  · rw [lineGaps_snoc, if_pos hline]
    refine h.steady.append (.singleton _) fun gap hmem next hnext => ?_
    cases hnext
    exact hsteady gap hmem
  · intro hsingle
    rw [hmerges] at hsingle
    cases hsingle

/-- The paragraph of the run shows that the lines belong together: its height is the distance to the
latest line, and before the sentences there is a spacer if there are several lines, or nothing. -/
structure Sound (options : Options α) (r : Run α) : Prop extends r.Coherent options where
  height : 2 ≤ r.lines.length → r.lineGaps.getLast? = some r.metrics.lineHeight
  content : ∃ lead : Text, r.content options = lead ++ r.text options
      ++ (if endsSentence options r.last then [] else ParagraphBuffer.sentenceEnd)
    ∧ (lead = []
      ∨ 2 ≤ r.lines.length ∧ ∃ width : α, lead = ParagraphBuffer.spacer width options.unit)

theorem Coherent.sound {options : Options α} {r : Run α} (h : r.Coherent options) :
    r.Sound options where
  toCoherent := h
  height := lineHeight_of_two_le
  content := by
    refine ⟨r.lead options, rfl, ?_⟩
    cases hindent : r.indent? options with
    | none =>
      refine .inl ?_
      rw [lead, hindent]
      rfl
    | some width =>
      refine .inr ⟨two_le_length_lines_of_indent? (by rw [hindent]; rfl), width, ?_⟩
      rw [lead, hindent]
      rfl

end Run

namespace Segmenter

variable {α : Type} [Scalar α]

/-- The segmenter knows the latest line of the run, whose lines belong together. -/
structure Tracks (s : Segmenter α) (r : Run α) : Prop where
  lineStart : s.lineStart = r.lines.getLast?.bind List.head?
  spacing : s.spacing = r.lineGaps.getLast?
  coherent : r.Coherent s.options

theorem tracks_single {s : Segmenter α} {glyph : Glyph α} (hstart : s.lineStart = some glyph)
    (hspacing : s.spacing = none) : s.Tracks ⟨glyph, []⟩ :=
  ⟨hstart, hspacing, Run.coherent_single s.options glyph⟩

theorem lineStart_of_parts {s room : Segmenter α} {previous glyph : Glyph α}
    {out : Option (Paragraph α)} (h : s.Parts previous glyph (room, out)) :
    room.lineStart = some glyph ∧ room.spacing = none := by
  have hspacing : ∀ s : Segmenter α, s.flush.1.spacing = none := by
    intro s
    unfold flush
    split <;> rfl
  generalize hanswer : (room, out) = answer at h
  cases h with
  | split hline hjudge =>
    cases hanswer
    exact ⟨rfl, hspacing s⟩
  | refuse hline hcontinues =>
    cases hanswer
    exact ⟨rfl, hspacing (s.narrowed previous glyph)⟩

theorem carried_tracks (fonts : FontTable α) : Carried fonts (Tracks (α := α)) where
  joins := by
    intro s room r face glyph h htracks hjoins
    cases hjoins with
    | fill hline hjudge hblanks =>
      obtain ⟨before, start, rest, hlines⟩ := r.exists_latest
      refine ⟨?_, ?_, htracks.coherent.snoc_of_sameLine hline (exists_gap_of_judge hjudge)⟩
      · show s.lineStart = _
        rw [htracks.lineStart, Run.lines_snoc_of_sameLine hline hlines, hlines]
        simp
      · show s.spacing = _
        rw [htracks.spacing, Run.lineGaps_snoc, hline]
        simp
    | merge hline hcontinues =>
      refine ⟨?_, ?_, htracks.coherent.snoc_of_startsLine hline ?_ ?_ hcontinues.merges⟩
      · show some glyph = _
        rw [Run.lines_snoc_of_startsLine hline]
        simp
      · show some (Run.lineGap r.last glyph) = _
        rw [Run.lineGaps_snoc, if_pos hline]
        simp
      · intro line hmem
        obtain ⟨before, start, rest, hlines⟩ := r.exists_latest
        rw [hlines, List.getLast?_concat] at hmem
        cases hmem
        refine ⟨⟨start, rfl, glyph, rfl, ?_⟩, r.last, Run.getLast?_latest hlines, hcontinues.text⟩
        have haligned := hcontinues.aligned
        rw [htracks.lineStart, hlines, List.getLast?_concat] at haligned
        exact of_decide_eq_true haligned
      · intro gap hmem
        have hspacing := hcontinues.spacing
        rw [spacingChanged, htracks.spacing, Option.mem_def.mp hmem] at hspacing
        exact of_decide_eq_false hspacing
  parts := by
    intro s room r face glyph out h htracks hparts
    obtain ⟨hstart, hspacing⟩ := lineStart_of_parts hparts
    exact tracks_single hstart hspacing

end Segmenter

namespace Delivery

variable {α τ : Type} [Scalar α]

/-- Every paragraph that a page offers is that of a run between two ends, and such a run answers to
the options that it was merged by. -/
theorem sound_page {take : Paragraph α → Act τ Unit} {fonts : FontTable α} {d d' : Delivery α τ}
    {width : Option α} {glyphs : List (Glyph α)} (h : d.page take fonts width glyphs = .ok d') :
    ∃ entries, (d.segmenter.beginPage width).seams fonts glyphs = .ok entries
      ∧ entries.map Prod.snd = glyphs
      ∧ d'.offered = d.offered ++ paragraphs d.segmenter.options fonts (Run.ofSeams entries)
      ∧ ∀ r ∈ Run.ofSeams entries, r.Sound d.segmenter.options
        ∧ (d.segmenter.options.unit.IsPlain → d.segmenter.options.placeholder.HasNoAngle →
          Html.Reads (r.content d.segmenter.options)
            (r.leadTags d.segmenter.options
              ++ Run.sentencesTags (r.sentences d.segmenter.options))) := by
  obtain ⟨entries, hseams, hoffered⟩ := seams_of_page h
  refine ⟨entries, hseams, Segmenter.map_snd_of_seams hseams, hoffered, fun r hmem => ⟨?_, ?_⟩⟩
  · obtain ⟨s, face, hoptions, -, htracks⟩ :=
      (Segmenter.carried_tracks fonts).exists_of_mem_ofSeams
        (Segmenter.fresh_beginPage d.segmenter width)
        (fun glyph => Segmenter.tracks_single rfl rfl) hseams r hmem
    have hcoherent := htracks.coherent
    rw [hoptions] at hcoherent
    exact hcoherent.sound
  · exact fun hunit hplaceholder => Html.reads_content hunit hplaceholder r

/-- Three lines, of which the first starts further right, and a glyph far below them. -/
def threeLines : List (Glyph ℚ) :=
  [("A", 20, 0), ("B", 30, 0), ("C", 10, 12), ("D", 20, 12), ("E", 10, 24), ("F", 10, 60)].map
    fun g => ⟨Text.lit g.1, g.2.1, g.2.2, 10, 10, none, 10, 10, 10⟩

/-- The three lines are merged behind a spacer, and the glyph below is a paragraph of its own. -/
theorem sound_page_threeLines :
    ∃ d', (⟨.new .standard, (), []⟩ : Delivery ℚ Unit).page (fun _ => pure ()) ⟨[], [], []⟩ none
        threeLines = .ok d'
      ∧ d'.offered.map (fun p => (p.lineHeight, p.content))
        = [(12, Text.lit "<span style=\"display:inline-block;width:10pt;\"></span>"
            ++ Text.lit "<span class=\"seq\">ABCDE</span>"),
          (10, Text.lit "<span class=\"seq\">F</span>")]
      ∧ ∃ entries : List (Seam × Glyph ℚ), entries.map Prod.snd = threeLines
        ∧ d'.offered = paragraphs .standard ⟨[], [], []⟩ (Run.ofSeams entries)
        ∧ ∀ r ∈ Run.ofSeams entries, r.Sound .standard := by
  have hpage : ((⟨.new .standard, (), []⟩ : Delivery ℚ Unit).page (fun _ => pure ()) ⟨[], [], []⟩
      none threeLines).toOption.map (fun d => d.offered.map fun p => (p.lineHeight, p.content))
        = some [(12, Text.lit "<span style=\"display:inline-block;width:10pt;\"></span>"
            ++ Text.lit "<span class=\"seq\">ABCDE</span>"),
          (10, Text.lit "<span class=\"seq\">F</span>")] := by
    decide +kernel
  cases h : (⟨.new .standard, (), []⟩ : Delivery ℚ Unit).page (fun _ => pure ()) ⟨[], [], []⟩ none
      threeLines with
  | error e => rw [h] at hpage; cases hpage
  | ok d' =>
    rw [h] at hpage
    obtain ⟨entries, -, hglyphs, hoffered, hsound⟩ := sound_page h
    exact ⟨d', rfl, Option.some.inj hpage, entries, hglyphs, hoffered,
      fun r hmem => (hsound r hmem).1⟩

end Delivery

end Folio
