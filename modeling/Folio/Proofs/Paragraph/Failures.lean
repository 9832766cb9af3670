import Folio.Paragraph.Segmenter

/-!
# Segmentation does not look at failures

How many paragraphs could not be taken in is for the caller alone: with another number of failures
the segmenter hands out the same paragraphs, fails at the same glyphs and goes on the same way
(`feed_withFailures`, `endPage_withFailures`). It does not change the number either.
-/

namespace Folio.Segmenter

variable {α : Type} [Scalar α]

/-- The segmenter with that many failures. -/
def withFailures (n : Nat) (s : Segmenter α) : Segmenter α := { s with failures := n }

omit [Scalar α] in
@[simp] theorem failures_withFailures (n : Nat) (s : Segmenter α) :
    (s.withFailures n).failures = n := rfl

omit [Scalar α] in
@[simp] theorem options_withFailures (n : Nat) (s : Segmenter α) :
    (s.withFailures n).options = s.options := rfl

omit [Scalar α] in
@[simp] theorem withFailures_self (s : Segmenter α) : s.withFailures s.failures = s := rfl

omit [Scalar α] in
@[simp] theorem withFailures_withFailures (m n : Nat) (s : Segmenter α) :
    (s.withFailures m).withFailures n = s.withFailures n := rfl

theorem flush_withFailures (n : Nat) (s : Segmenter α) :
    (s.withFailures n).flush = (s.flush.1.withFailures n, s.flush.2) := by
  have hbuffer : (s.withFailures n).buffer = s.buffer := rfl
  unfold flush
  rw [hbuffer]
  split <;> rfl

theorem endPage_withFailures (n : Nat) (s : Segmenter α) :
    (s.withFailures n).endPage = (s.endPage.1.withFailures n, s.endPage.2) := by
  rw [endPage, flush_withFailures]
  rfl

theorem breakBefore_withFailures (n : Nat) (s : Segmenter α) (glyph : Glyph α) :
    (s.withFailures n).breakBefore glyph
      = ((s.breakBefore glyph).1.withFailures n, (s.breakBefore glyph).2) := by
  rw [breakBefore, flush_withFailures]
  rfl

theorem newLine_withFailures (n : Nat) (s : Segmenter α) (previous glyph : Glyph α) (spacing : α) :
    (s.withFailures n).newLine previous glyph spacing
      = ((s.newLine previous glyph spacing).1.withFailures n,
        (s.newLine previous glyph spacing).2) := by
  unfold newLine
  extract_lets narrowed' spaced' narrowed spaced
  have hnarrowed : narrowed' = narrowed.withFailures n := rfl
  have hspaced : spaced' = spaced.withFailures n := rfl
  rw [hnarrowed, hspaced, breakBefore_withFailures, breakBefore_withFailures]
  show (if (!narrowed.options.mergesLines || narrowed.spacingChanged spacing) = true then _ else
    if (previous.text != Text.lit " " && startsAligned narrowed.options spaced.lastLineStart
      spaced.lineStart && spaced.marginsAgree previous glyph) = true then _ else _) = _
  split
  · rfl
  · split <;> rfl

theorem sameLine_withFailures (n : Nat) (s : Segmenter α) (previous glyph : Glyph α) :
    (s.withFailures n).sameLine previous glyph
      = (s.sameLine previous glyph).map fun answer => (answer.1.withFailures n, answer.2) := by
  unfold sameLine
  rw [options_withFailures]
  cases judge s.options.wordGapTolerance (gap? previous glyph) with
  | error e => rfl
  | ok gap =>
    cases gap with
    | split => exact congrArg Except.ok (breakBefore_withFailures n s glyph)
    | blanks count =>
      have hbuffer : (s.withFailures n).buffer = s.buffer := rfl
      simp only [bind, Except.bind, hbuffer]
      cases s.buffer.appendBlanks s.options.machine.room count s.options.placeholder with
      | error e => rfl
      | ok buffer => rfl

theorem advance_withFailures (n : Nat) (s : Segmenter α) (glyph : Glyph α) :
    (s.withFailures n).advance glyph
      = (s.advance glyph).map fun answer => (answer.1.withFailures n, answer.2) := by
  have hprevious : (s.withFailures n).previous = s.previous := rfl
  unfold advance
  rw [hprevious]
  cases s.previous with
  | none => rfl
  | some previous =>
    simp only
    split
    · exact congrArg Except.ok (newLine_withFailures n s previous glyph _)
    · exact sameLine_withFailures n s previous glyph

theorem feed_withFailures (n : Nat) (s : Segmenter α) (fonts : FontTable α) (glyph : Glyph α) :
    (s.withFailures n).feed fonts glyph
      = (s.feed fonts glyph).map fun answer => (answer.1.withFailures n, answer.2) := by
  rw [feed, advance_withFailures, feed]
  cases s.advance glyph with
  | error e => rfl
  | ok answer => rfl

section

variable {s t : Segmenter α}

theorem endPage_congr (h : s.withFailures 0 = t.withFailures 0) :
    s.endPage.2 = t.endPage.2 ∧ s.endPage.1.withFailures 0 = t.endPage.1.withFailures 0 := by
  have hsame := congrArg endPage h
  rw [endPage_withFailures, endPage_withFailures] at hsame
  exact (Prod.ext_iff.mp hsame).symm

/-- A glyph is a fault to both segmenters, or to neither. -/
theorem feed_congr (h : s.withFailures 0 = t.withFailures 0) (fonts : FontTable α)
    (glyph : Glyph α) :
    (∃ e, s.feed fonts glyph = .error e ∧ t.feed fonts glyph = .error e)
      ∨ ∃ s' t' out, s.feed fonts glyph = .ok (s', out) ∧ t.feed fonts glyph = .ok (t', out)
        ∧ s'.withFailures 0 = t'.withFailures 0 := by
  have hsame : (s.feed fonts glyph).map (fun fed => (fed.1.withFailures 0, fed.2))
      = (t.feed fonts glyph).map fun fed => (fed.1.withFailures 0, fed.2) := by
    rw [← feed_withFailures, ← feed_withFailures, h]
  rcases hs : s.feed fonts glyph with e | ⟨s', out⟩ <;>
    rcases ht : t.feed fonts glyph with e' | ⟨t', out'⟩ <;>
    rw [hs, ht] at hsame
  · exact .inl ⟨e, rfl, by rw [Except.error.inj hsame]⟩
  · cases hsame
  · cases hsame
  · obtain ⟨hafter, hout⟩ := Prod.ext_iff.mp (Except.ok.inj hsame)
    have hout : out = out' := hout
    exact .inr ⟨s', t', out, rfl, by rw [hout], hafter⟩

end

theorem failures_endPage (s : Segmenter α) : s.endPage.1.failures = s.failures :=
  congrArg (·.1.failures) (endPage_withFailures s.failures s)

theorem failures_feed {s s' : Segmenter α} {fonts : FontTable α} {glyph : Glyph α}
    {out : Option (Paragraph α)} (h : s.feed fonts glyph = .ok (s', out)) :
    s'.failures = s.failures := by
  have hsame := feed_withFailures s.failures s fonts glyph
  rw [withFailures_self, h] at hsame
  exact congrArg (·.1.failures) (Except.ok.inj hsame)

end Folio.Segmenter
