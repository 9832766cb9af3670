import Folio.Proofs.Paragraph.Delivery
import Folio.Proofs.Paragraph.Failures
import Folio.Proofs.Scalar.Rational

/-!
# Paragraphs move with their glyphs

With exact coordinates it does not matter to segmentation where a page has its origin, nor how wide
it is. Glyphs that are all moved by the same vector, on a page of any other width, are cut at the
same places into the same paragraphs, which are moved by that vector (`cutPage_moved`).

The segmenter compares positions by their differences only, and so does what it keeps of them. Of
the two margins the left one is a position and moves along; the right one is measured from the far
edge of the page, so that it changes by the difference of the widths less the way that the glyphs
have moved. With that (`Segmenter.moved`) every step on moved glyphs is the step on the glyphs where
they were, moved (`feed_moved`).
-/

namespace Folio

variable (v : Point ℚ)

/-! ## Moving -/

/-- The glyph somewhere else. -/
def Glyph.moved (glyph : Glyph ℚ) : Glyph ℚ :=
  { glyph with x := glyph.x + v.x, y := glyph.y + v.y }

/-- The geometry of moved glyphs. -/
def Metrics.moved (m : Metrics ℚ) : Metrics ℚ :=
  { m with x := m.x + v.x, baseline := m.baseline + v.y, last := m.last.moved v }

def ParagraphBuffer.moved (b : ParagraphBuffer ℚ) : ParagraphBuffer ℚ :=
  { b with metrics := b.metrics.map (Metrics.moved v) }

/-- The paragraph somewhere else; all but its corner stays. -/
def Paragraph.moved (p : Paragraph ℚ) : Paragraph ℚ :=
  { p with left := p.left + v.x, top := p.top + v.y }

/-- The segmenter after it has seen moved glyphs, on a page of that width. -/
def Segmenter.moved (width : ℚ) (s : Segmenter ℚ) : Segmenter ℚ :=
  { s with
    buffer := s.buffer.moved v
    previous := s.previous.map (Glyph.moved v)
    lineStart := s.lineStart.map (Glyph.moved v)
    lastLineStart := s.lastLineStart.map (Glyph.moved v)
    pageWidth := width
    leftMargin := s.leftMargin.map (· + v.x)
    rightMargin := s.rightMargin.map (· + (width - s.pageWidth - v.x)) }

namespace Scalar

theorem lesser_add (a b c : ℚ) : lesser (a + c) (b + c) = lesser a b + c := by
  unfold lesser
  simp only [add_lt_add_iff_right]
  split <;> rfl

theorem greater_add (a b c : ℚ) : greater (a + c) (b + c) = greater a b + c := by
  unfold greater
  simp only [add_lt_add_iff_right]
  split <;> rfl

end Scalar

/-! ## Measures -/

namespace Metrics

variable (m : Metrics ℚ) (glyph previous : Glyph ℚ)

theorem append_moved : (m.moved v).append (glyph.moved v) = (m.append glyph).moved v := by
  have hreach : glyph.x + v.x + glyph.width - (m.x + v.x) = glyph.x + glyph.width - m.x := by ring
  have hstep : glyph.x + v.x - (m.last.x + v.x) - m.last.width
      = glyph.x - m.last.x - m.last.width := by ring
  simp only [append, moved, Glyph.moved, hreach, hstep]
  rfl

theorem nextLine_moved (spacing : ℚ) :
    (m.moved v).nextLine (glyph.moved v) (previous.moved v) spacing
      = (m.nextLine glyph previous spacing).moved v := by
  have hline : m.x + v.x + m.width = m.x + m.width + v.x := by ring
  have hprevious : previous.x + v.x + previous.width = previous.x + previous.width + v.x := by ring
  simp only [nextLine, moved, Glyph.moved, hline, hprevious, Scalar.greater_add, Scalar.lesser_add,
    add_sub_add_right_eq_sub]

theorem indent_moved : (m.moved v).indent (glyph.moved v) = m.indent glyph := by
  simp only [indent, moved, Glyph.moved, add_sub_add_right_eq_sub]

theorem top_moved : (m.moved v).top = m.top + v.y := by
  have hsub : ∀ h : ℚ, m.baseline + v.y - h = m.baseline - h + v.y := fun h => by ring
  have hbox : (m.last.moved v).boxAscent = m.last.boxAscent := rfl
  simp only [top, moved, hbox, hsub]
  split
  · rfl
  · split <;> rfl

theorem lineHeight_moved : (m.moved v).lineHeight = m.lineHeight := by
  have hbottom : (m.moved v).bottom = m.bottom + v.y := by
    have hsub : ∀ h : ℚ, m.baseline + v.y - h = m.baseline - h + v.y := fun h => by ring
    have hbox : (m.last.moved v).boxDescent = m.last.boxDescent := rfl
    simp only [bottom, moved, hbox, hsub]
    split <;> rfl
  rw [lineHeight, hbottom, top_moved, add_sub_add_right_eq_sub]
  rfl

end Metrics

/-! ## Steps -/

namespace Segmenter

variable (width : ℚ) (s : Segmenter ℚ) (fonts : FontTable ℚ) (previous glyph : Glyph ℚ)

theorem paragraph_moved (fallback : Text) (b : ParagraphBuffer ℚ) (m : Metrics ℚ) :
    paragraph fallback (b.moved v) (m.moved v) = (paragraph fallback b m).moved v := by
  simp only [paragraph, Paragraph.moved, Metrics.top_moved, Metrics.lineHeight_moved]
  rfl

theorem flush_moved : (s.moved v width).flush
    = (s.flush.1.moved v width, s.flush.2.map (Paragraph.moved v)) := by
  have hempty : (s.moved v width).buffer.isEmpty = s.buffer.isEmpty := rfl
  have hblank : (s.moved v width).buffer.isBlank = s.buffer.isBlank := rfl
  simp only [flush, hempty, hblank]
  split
  · rfl
  · split
    · rfl
    · refine Prod.ext rfl ?_
      show (s.buffer.metrics.map (Metrics.moved v)).map (paragraph _ (s.buffer.moved v)) = _
      cases s.buffer.metrics with
      | none => rfl
      | some m => exact congrArg some (paragraph_moved v _ s.buffer m)

theorem endPage_moved : (s.moved v width).endPage
    = (s.endPage.1.moved v width, s.endPage.2.map (Paragraph.moved v)) := by
  rw [endPage, flush_moved]
  rfl

theorem breakBefore_moved : (s.moved v width).breakBefore (glyph.moved v)
    = ((s.breakBefore glyph).1.moved v width, (s.breakBefore glyph).2.map (Paragraph.moved v)) := by
  rw [breakBefore, flush_moved]
  rfl

theorem gap?_moved : gap? (previous.moved v) (glyph.moved v) = gap? previous glyph := by
  have hgap : glyph.x + v.x - (previous.x + v.x + previous.width)
      = glyph.x - (previous.x + previous.width) := by ring
  simp only [gap?, Glyph.moved, hgap]

theorem appendBlanks_moved (b : ParagraphBuffer ℚ) (room : Nat) (count : Int)
    (placeholder : Text) :
    (b.moved v).appendBlanks room count placeholder
      = (b.appendBlanks room count placeholder).map (ParagraphBuffer.moved v) := by
  unfold ParagraphBuffer.appendBlanks
  split
  · rfl
  · cases ParagraphBuffer.blanks room count.toNat placeholder <;> rfl

theorem sameLine_moved : (s.moved v width).sameLine (previous.moved v) (glyph.moved v)
    = (s.sameLine previous glyph).map fun answer =>
      (answer.1.moved v width, answer.2.map (Paragraph.moved v)) := by
  have hoptions : (s.moved v width).options = s.options := rfl
  have hbuffer : (s.moved v width).buffer = s.buffer.moved v := rfl
  rw [sameLine, sameLine, gap?_moved, hoptions]
  cases judge s.options.wordGapTolerance (gap? previous glyph) with
  | error e => rfl
  | ok gap =>
    cases gap with
    | split => exact congrArg Except.ok (breakBefore_moved v width s glyph)
    | blanks count =>
      simp only [bind, Except.bind, hbuffer, appendBlanks_moved]
      cases s.buffer.appendBlanks s.options.machine.room count s.options.placeholder with
      | error e => rfl
      | ok b => rfl

theorem narrow_map (margin : Option ℚ) (value shift : ℚ) :
    narrow (margin.map (· + shift)) (value + shift) = (narrow margin value).map (· + shift) := by
  cases margin with
  | none => rfl
  | some m => exact congrArg some (Scalar.lesser_add m value shift)

theorem startsAligned_moved (options : Options ℚ) (last current : Option (Glyph ℚ)) :
    startsAligned options (last.map (Glyph.moved v)) (current.map (Glyph.moved v))
      = startsAligned options last current := by
  cases last <;> cases current
  · rfl
  · rfl
  · rfl
  · simp only [startsAligned, Option.map, Glyph.moved, add_sub_add_right_eq_sub]

/-- What is left at the two ends of a line does not depend on where it is measured from. -/
theorem marginsAgree_moved : (s.moved v width).marginsAgree (previous.moved v) (glyph.moved v)
    = s.marginsAgree previous glyph := by
  unfold marginsAgree
  cases hleft : s.leftMargin with
  | none => simp only [moved, hleft, Option.map]
  | some left =>
    cases hright : s.rightMargin with
    | none => simp only [moved, hleft, hright, Option.map]
    | some right =>
      have hspace : width - (previous.x + v.x + previous.width)
            - (right + (width - s.pageWidth - v.x))
          = s.pageWidth - (previous.x + previous.width) - right := by ring
      simp only [moved, hleft, hright, Option.map, Glyph.moved, hspace, add_sub_add_right_eq_sub]

theorem mergeLine_moved (spacing : ℚ) :
    (s.moved v width).mergeLine (previous.moved v) (glyph.moved v) spacing
      = (s.mergeLine previous glyph spacing).moved v width := by
  have hmetrics : (s.moved v width).buffer.metrics.getD (.start (glyph.moved v))
      = (s.buffer.metrics.getD (.start glyph)).moved v := by
    show (s.buffer.metrics.map (Metrics.moved v)).getD _ = _
    cases s.buffer.metrics <;> rfl
  have hcorrects : (s.moved v width).options.correctsIndent = s.options.correctsIndent := rfl
  have happlied : (s.moved v width).buffer.indentApplied = s.buffer.indentApplied := rfl
  simp only [mergeLine, hmetrics, Metrics.indent_moved, Metrics.nextLine_moved, hcorrects, happlied]
  split
  · split <;> rfl
  · rfl

theorem newLine_moved (spacing : ℚ) :
    (s.moved v width).newLine (previous.moved v) (glyph.moved v) spacing
      = ((s.newLine previous glyph spacing).1.moved v width,
        (s.newLine previous glyph spacing).2.map (Paragraph.moved v)) := by
  unfold newLine
  extract_lets narrowed' spaced' narrowed spaced
  have hnarrowed : narrowed' = narrowed.moved v width := by
    -- The right margin of the line that has ended moves as the one before it does.
    have hright : width - (previous.x + v.x + previous.width)
        = s.pageWidth - (previous.x + previous.width) + (width - s.pageWidth - v.x) := by ring
    have hmargin : narrow (s.rightMargin.map (· + (width - s.pageWidth - v.x)))
          (width - (previous.x + v.x + previous.width))
        = (narrow s.rightMargin (s.pageWidth - (previous.x + previous.width))).map
          (· + (width - s.pageWidth - v.x)) := by
      rw [hright, narrow_map]
    have hleft := narrow_map s.leftMargin glyph.x v.x
    show { s.moved v width with
        rightMargin := narrow (s.rightMargin.map (· + (width - s.pageWidth - v.x)))
          (width - (previous.x + v.x + previous.width))
        leftMargin := narrow (s.leftMargin.map (· + v.x)) (glyph.x + v.x) } = _
    rw [hmargin, hleft]
    rfl
  have hspaced : spaced' = spaced.moved v width := by
    show { narrowed' with spacing := _, lastLineStart := _, lineStart := _ } = _
    rw [hnarrowed]
    rfl
  have hchanged : narrowed'.spacingChanged spacing = narrowed.spacingChanged spacing := by
    rw [hnarrowed]
    rfl
  have haligned : startsAligned spaced'.options spaced'.lastLineStart spaced'.lineStart
      = startsAligned spaced.options spaced.lastLineStart spaced.lineStart := by
    rw [hspaced]
    exact startsAligned_moved v spaced.options spaced.lastLineStart spaced.lineStart
  have hagree : spaced'.marginsAgree (previous.moved v) (glyph.moved v)
      = spaced.marginsAgree previous glyph := by
    rw [hspaced]
    exact marginsAgree_moved v width spaced previous glyph
  rw [hchanged, haligned, hagree, hspaced, hnarrowed]
  show (if (!narrowed.options.mergesLines || narrowed.spacingChanged spacing) = true then _ else
    if (previous.text != Text.lit " " && startsAligned spaced.options spaced.lastLineStart
      spaced.lineStart && spaced.marginsAgree previous glyph) = true then _ else _) = _
  split
  · exact breakBefore_moved v width narrowed glyph
  · split
    · rw [mergeLine_moved]
      rfl
    · exact breakBefore_moved v width spaced glyph

theorem append_moved : (s.moved v width).append fonts (glyph.moved v)
    = (s.append fonts glyph).moved v width := by
  have hmetrics : (s.moved v width).buffer.metrics = s.buffer.metrics.map (Metrics.moved v) := rfl
  unfold append
  rw [hmetrics]
  cases hm : s.buffer.metrics with
  | none => rfl
  | some m =>
    simp only [Option.map, Metrics.append_moved]
    rfl

theorem advance_moved : (s.moved v width).advance (glyph.moved v)
    = (s.advance glyph).map fun answer =>
      (answer.1.moved v width, answer.2.map (Paragraph.moved v)) := by
  have hprevious : (s.moved v width).previous = s.previous.map (Glyph.moved v) := rfl
  unfold advance
  rw [hprevious]
  cases s.previous with
  | none => rfl
  | some previous =>
    have hspacing : previous.y + v.y - (glyph.y + v.y) = previous.y - glyph.y :=
      add_sub_add_right_eq_sub _ _ _
    simp only [Option.map, Glyph.moved, hspacing]
    split
    · exact congrArg Except.ok (newLine_moved v width s previous glyph _)
    · exact sameLine_moved v width s previous glyph

/-- A moved glyph does what the glyph does where it was, moved. -/
theorem feed_moved : (s.moved v width).feed fonts (glyph.moved v)
    = (s.feed fonts glyph).map fun answer =>
      (answer.1.moved v width, answer.2.map (Paragraph.moved v)) := by
  rw [feed, advance_moved, feed]
  cases s.advance glyph with
  | error e => rfl
  | ok answer =>
    exact congrArg (fun s => Except.ok (s, _)) (append_moved v width answer.1 fonts glyph)

/-- Whether the glyph would start a paragraph. -/
def breaksBefore (s : Segmenter ℚ) (glyph : Glyph ℚ) : Bool :=
  match s.advance glyph with
  | .ok (room, _) => room.buffer.isEmpty
  | .error _ => false

theorem breaksBefore_moved : (s.moved v width).breaksBefore (glyph.moved v)
    = s.breaksBefore glyph := by
  rw [breaksBefore, advance_moved, breaksBefore]
  cases s.advance glyph with
  | error e => rfl
  | ok answer => rfl

theorem breaksBefore_withFailures (n : Nat) : (s.withFailures n).breaksBefore glyph
    = s.breaksBefore glyph := by
  rw [breaksBefore, advance_withFailures, breaksBefore]
  cases s.advance glyph with
  | error e => rfl
  | ok answer => rfl

end Segmenter

/-! ## Pages -/

namespace Delivery

variable {τ τ₁ τ₂ : Type}

/-- Feeds a glyph and tells whether it starts a paragraph. A glyph that is a fault is passed over:
the next one goes on where the segmenter was. -/
def cut (take : Paragraph ℚ → Act τ Unit) (fonts : FontTable ℚ) (d : Delivery ℚ τ)
    (glyph : Glyph ℚ) : Delivery ℚ τ × Except Fault Bool :=
  match d.feed take fonts glyph with
  | .ok d' => (d', .ok (d.segmenter.breaksBefore glyph))
  | .error e => (d, .error e)

def cutAll (take : Paragraph ℚ → Act τ Unit) (fonts : FontTable ℚ) :
    Delivery ℚ τ → List (Glyph ℚ) → Delivery ℚ τ × List (Except Fault Bool)
  | d, [] => (d, [])
  | d, glyph :: rest =>
    let (d, first) := d.cut take fonts glyph
    let (d, more) := d.cutAll take fonts rest
    (d, first :: more)

/-- Begins a page, feeds glyphs, passing over faults, and ends the page. -/
def cutPage (take : Paragraph ℚ → Act τ Unit) (fonts : FontTable ℚ) (width : Option ℚ)
    (glyphs : List (Glyph ℚ)) (d : Delivery ℚ τ) : Delivery ℚ τ × List (Except Fault Bool) :=
  let (d, cuts) :=
    { d with segmenter := d.segmenter.beginPage width }.cutAll take fonts glyphs
  let (segmenter, out) := d.segmenter.endPage
  ({ d with segmenter := segmenter }.offer take out, cuts)

/-- Since `b₁` and `b₂` the deliveries `d₁` and `d₂` have been offered the same paragraphs but for
where they stand, and their segmenters differ by that and by their failures. -/
structure Shifted (width : ℚ) (b₁ d₁ : Delivery ℚ τ₁) (b₂ d₂ : Delivery ℚ τ₂) : Prop where
  segmenter : ∃ n, d₂.segmenter = (d₁.segmenter.moved v width).withFailures n
  offered : ∃ boxes, d₁.offered = b₁.offered ++ boxes
    ∧ d₂.offered = b₂.offered ++ boxes.map (Paragraph.moved v)

variable {v} {width : ℚ} {b₁ d₁ : Delivery ℚ τ₁} {b₂ d₂ : Delivery ℚ τ₂}
  (take₁ : Paragraph ℚ → Act τ₁ Unit) (take₂ : Paragraph ℚ → Act τ₂ Unit)

/-- What the takers make of a paragraph does not part the two. -/
theorem Shifted.offer (h : Shifted v width b₁ d₁ b₂ d₂) (s : Segmenter ℚ) (n : Nat)
    (out : Option (Paragraph ℚ)) :
    Shifted v width b₁ ({ d₁ with segmenter := s }.offer take₁ out) b₂
      ({ d₂ with segmenter := (s.moved v width).withFailures n }.offer take₂
        (out.map (Paragraph.moved v))) := by
  obtain ⟨boxes, h₁, h₂⟩ := h.offered
  refine ⟨?_, boxes ++ out.toList, ?_, ?_⟩
  · rcases segmenter_offer take₁ { d₁ with segmenter := s } out with hs₁ | hs₁ <;>
      rcases segmenter_offer take₂ { d₂ with segmenter := (s.moved v width).withFailures n }
        (out.map (Paragraph.moved v)) with hs₂ | hs₂ <;>
      rw [hs₁, hs₂] <;> exact ⟨_, rfl⟩
  · rw [offered_offer, ← List.append_assoc, ← h₁]
  · rw [offered_offer, List.map_append, ← List.append_assoc, ← h₂]
    cases out <;> rfl

theorem Shifted.cut (h : Shifted v width b₁ d₁ b₂ d₂) (fonts : FontTable ℚ) (glyph : Glyph ℚ) :
    Shifted v width b₁ (d₁.cut take₁ fonts glyph).1 b₂ (d₂.cut take₂ fonts (glyph.moved v)).1
      ∧ (d₂.cut take₂ fonts (glyph.moved v)).2 = (d₁.cut take₁ fonts glyph).2 := by
  obtain ⟨n, hs⟩ := h.segmenter
  have hbreaks : d₂.segmenter.breaksBefore (glyph.moved v) = d₁.segmenter.breaksBefore glyph := by
    rw [hs, Segmenter.breaksBefore_withFailures, Segmenter.breaksBefore_moved]
  have hfeed : d₂.segmenter.feed fonts (glyph.moved v)
      = (d₁.segmenter.feed fonts glyph).map fun answer =>
        ((answer.1.moved v width).withFailures n, answer.2.map (Paragraph.moved v)) := by
    rw [hs, Segmenter.feed_withFailures, Segmenter.feed_moved]
    cases d₁.segmenter.feed fonts glyph <;> rfl
  unfold Delivery.cut Delivery.feed
  rw [hfeed, hbreaks]
  cases d₁.segmenter.feed fonts glyph with
  | error e => exact ⟨h, rfl⟩
  | ok answer => exact ⟨h.offer take₁ take₂ answer.1 n answer.2, rfl⟩

theorem Shifted.cutAll (h : Shifted v width b₁ d₁ b₂ d₂) (fonts : FontTable ℚ)
    (glyphs : List (Glyph ℚ)) :
    Shifted v width b₁ (d₁.cutAll take₁ fonts glyphs).1 b₂
        (d₂.cutAll take₂ fonts (glyphs.map (Glyph.moved v))).1
      ∧ (d₂.cutAll take₂ fonts (glyphs.map (Glyph.moved v))).2
        = (d₁.cutAll take₁ fonts glyphs).2 := by
  induction glyphs generalizing d₁ d₂ with
  | nil => exact ⟨h, rfl⟩
  | cons glyph glyphs ih =>
    obtain ⟨hnext, hcut⟩ := h.cut take₁ take₂ fonts glyph
    obtain ⟨hrest, hcuts⟩ := ih hnext
    exact ⟨hrest, congrArg₂ List.cons hcut hcuts⟩

/-- Moved glyphs on a page of another width are cut at the same places, and the paragraphs that are
offered differ by where they stand and by nothing else, whichever of them are refused on either
side. -/
theorem cutPage_moved (d₁ : Delivery ℚ τ₁) (d₂ : Delivery ℚ τ₂)
    (h : d₂.segmenter.options = d₁.segmenter.options) (v : Point ℚ) (fonts : FontTable ℚ)
    (width₁ width₂ : Option ℚ) (glyphs : List (Glyph ℚ)) :
    ∃ boxes,
      (d₁.cutPage take₁ fonts width₁ glyphs).1.offered = d₁.offered ++ boxes
      ∧ (d₂.cutPage take₂ fonts width₂ (glyphs.map (Glyph.moved v))).1.offered
        = d₂.offered ++ boxes.map (Paragraph.moved v)
      ∧ (d₂.cutPage take₂ fonts width₂ (glyphs.map (Glyph.moved v))).2
        = (d₁.cutPage take₁ fonts width₁ glyphs).2 := by
  have hbegin : Shifted v (width₂.getD 0) d₁
      { d₁ with segmenter := d₁.segmenter.beginPage width₁ } d₂
      { d₂ with segmenter := d₂.segmenter.beginPage width₂ } := by
    refine ⟨⟨d₂.segmenter.failures, ?_⟩, [], (List.append_nil _).symm, (List.append_nil _).symm⟩
    show Segmenter.beginPage _ _ = _
    unfold Segmenter.beginPage Segmenter.reset
    rw [h]
    rfl
  obtain ⟨hall, hcuts⟩ := hbegin.cutAll take₁ take₂ fonts glyphs
  obtain ⟨n, hs⟩ := hall.segmenter
  generalize hd₁ : ({ d₁ with segmenter := d₁.segmenter.beginPage width₁ } : Delivery ℚ τ₁).cutAll
    take₁ fonts glyphs = end₁ at *
  generalize hd₂ : ({ d₂ with segmenter := d₂.segmenter.beginPage width₂ } : Delivery ℚ τ₂).cutAll
    take₂ fonts (glyphs.map (Glyph.moved v)) = end₂ at *
  have hlast := hall.offer take₁ take₂ end₁.1.segmenter.endPage.1 n end₁.1.segmenter.endPage.2
  obtain ⟨boxes, h₁, h₂⟩ := hlast.offered
  have hendPage : end₂.1.segmenter.endPage
      = ((end₁.1.segmenter.endPage.1.moved v (width₂.getD 0)).withFailures n,
        end₁.1.segmenter.endPage.2.map (Paragraph.moved v)) := by
    rw [hs, Segmenter.endPage_withFailures, Segmenter.endPage_moved]
  refine ⟨boxes, ?_, ?_, ?_⟩
  · simpa only [cutPage, hd₁] using h₁
  · simpa only [cutPage, hd₂, hendPage] using h₂
  · simpa only [cutPage, hd₁, hd₂] using hcuts

/-- Two lines, of which the first starts further right, and a glyph far off. -/
def indentedLines : List (Glyph ℚ) :=
  [("A", 20, 0), ("B", 30, 0), ("C", 10, 12), ("D", 20, 12), ("E", 60, 12)].map fun g =>
    ⟨Text.lit g.1, g.2.1, g.2.2, 10, 10, none, 10, 10, 10⟩

/-- The two lines make one paragraph with a spacer and the glyph another, also on a wider page where
they stand lower and further right and are all refused. -/
theorem cutPage_moved_indentedLines :
    (Segmenter.new .standard).noteFailure.options = (Segmenter.new (.standard : Options ℚ)).options
      ∧ ∃ boxes : List (Paragraph ℚ),
        boxes.map (fun p => (p.left, p.top)) = [(10, -10), (60, 2)]
        ∧ ((⟨.new .standard, (), []⟩ : Delivery ℚ Unit).cutPage (fun _ => pure ()) ⟨[], [], []⟩ none
            indentedLines).1.offered = boxes
        ∧ ((⟨(Segmenter.new .standard).noteFailure, (), []⟩ : Delivery ℚ Unit).cutPage
            (fun _ => throw (.device [])) ⟨[], [], []⟩ (some 500)
            (indentedLines.map (Glyph.moved ⟨3, 7⟩))).1.offered
          = boxes.map (Paragraph.moved ⟨3, 7⟩) := by
  obtain ⟨boxes, h₁, h₂, -⟩ := cutPage_moved (fun _ => pure ()) (fun _ => throw (.device []))
    ⟨.new .standard, (), []⟩ ⟨(Segmenter.new .standard).noteFailure, (), []⟩ rfl ⟨3, 7⟩
    ⟨[], [], []⟩ none (some 500) indentedLines
  have hcorners : ((⟨.new .standard, (), []⟩ : Delivery ℚ Unit).cutPage (fun _ => pure ())
      ⟨[], [], []⟩ none indentedLines).1.offered.map (fun p => (p.left, p.top))
        = [(10, -10), (60, 2)] := by
    decide +kernel
  rw [h₁] at hcorners
  exact ⟨rfl, boxes, hcorners, h₁, h₂⟩

end Delivery

end Folio
