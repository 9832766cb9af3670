import Folio.Proofs.Paragraph.Refused
import Folio.Proofs.Paragraph.Seam
import Folio.Proofs.Scalar.Lawful

/-!
# Gaps that can be filled

A call is a fault exactly if it feeds a glyph that stands on the line of the one before and whose
gap does not fit: it neither splits the line nor comes to a number of blanks that a text can hold.
A gap can fail to fit in three ways (`Segmenter.Fits`).

* Between glyphs without width it is boundless, and no infinite or undefined tolerance is below it.
  `Options.check` lets both pass, because neither is at most zero.
* It has no whole part, being undefined or infinite itself. Coordinates that are finite come to
  that when a sum of two of them is not.
* It comes to more blanks than a text can hold, which the tolerance has to allow first.

With a tolerance below some whole number whose blanks a text can hold, only an undefined gap is
left, and over exact numbers there is none.
-/

namespace Folio

open Run (startsLine)

/-! ## Blanks -/

namespace ParagraphBuffer

variable {α : Type}

/-- So many blanks are no more than a text can hold and there is room for. -/
def Holdable (room : Nat) (count : Int) (placeholder : Text) : Prop :=
  count.toNat ≤ maxIndex ∧ count.toNat * placeholder.length ≤ min maxIndex room

theorem exists_blanks_iff (room count : Nat) (placeholder : Text) :
    (∃ t, blanks room count placeholder = .ok t)
      ↔ count ≤ maxIndex ∧ count * placeholder.length ≤ min maxIndex room := by
  unfold blanks
  split
  next hcount => simp only [reduceCtorEq, exists_false, false_iff]; omega
  next hcount =>
    cases hempty : placeholder.isEmpty with
    | true =>
      rw [List.isEmpty_iff] at hempty
      subst hempty
      simp only [if_true, Except.ok.injEq, exists_eq', List.length_nil, Nat.mul_zero, true_iff]
      omega
    | false =>
      simp only [Bool.false_eq_true, if_false]
      split
      next hlong => simp only [reduceCtorEq, exists_false, false_iff]; omega
      next hlong =>
        split
        next hmemory => simp only [reduceCtorEq, exists_false, false_iff]; omega
        next hmemory => simp only [Except.ok.injEq, exists_eq', true_iff]; omega

theorem exists_appendBlanks_iff (b : ParagraphBuffer α) (room : Nat) (count : Int)
    (placeholder : Text) :
    (∃ b', b.appendBlanks room count placeholder = .ok b')
      ↔ Holdable room count placeholder := by
  unfold appendBlanks Holdable
  by_cases hcount : count ≤ 0
  · have hnone : count.toNat = 0 := Int.toNat_eq_zero.mpr hcount
    simp [hcount, hnone]
  · rw [if_neg hcount, ← exists_blanks_iff]
    cases blanks room count.toNat placeholder <;> simp [Except.map]

end ParagraphBuffer

/-! ## One glyph -/

namespace Segmenter

variable {α : Type} [Scalar α]

/-- The gap between two glyphs of a line splits it or comes to blanks that a text can hold. -/
def Fits (options : Options α) (previous glyph : Glyph α) : Prop :=
  match gap? previous glyph with
  | none => Scalar.isBelowInfinity options.wordGapTolerance = true
  | some gap => options.wordGapTolerance < gap
      ∨ ∃ count, Scalar.truncate gap = .ok count
        ∧ ParagraphBuffer.Holdable options.machine.room count options.placeholder

theorem exists_sameLine_iff (s : Segmenter α) (previous glyph : Glyph α) :
    (∃ answer, s.sameLine previous glyph = .ok answer) ↔ Fits s.options previous glyph := by
  unfold sameLine Fits judge
  cases gap? previous glyph with
  | none =>
    cases Scalar.isBelowInfinity s.options.wordGapTolerance <;>
      simp [bind, Except.bind, pure, Except.pure]
  | some gap =>
    by_cases hsplit : s.options.wordGapTolerance < gap
    · simp [hsplit, bind, Except.bind, pure, Except.pure]
    · cases htruncate : Scalar.truncate gap with
      | error e => simp [hsplit, htruncate, bind, Except.bind, Except.map]
      | ok count =>
        have hholdable := 
          s.buffer.exists_appendBlanks_iff s.options.machine.room count s.options.placeholder
        cases happend : s.buffer.appendBlanks s.options.machine.room count s.options.placeholder <;>
          simp only [happend, reduceCtorEq, exists_false, false_iff, Except.ok.injEq, exists_eq',
            true_iff] at hholdable <;>
          simp [hsplit, htruncate, happend, hholdable, bind, Except.bind, Except.map, pure,
            Except.pure]

/-- A glyph is no fault exactly if it is the first one, starts a line or has a gap that fits. -/
theorem exists_feed_iff (s : Segmenter α) (fonts : FontTable α) (glyph : Glyph α) :
    (∃ answer, s.feed fonts glyph = .ok answer) ↔ ∀ previous, s.previous = some previous →
      startsLine previous glyph = false → Fits s.options previous glyph := by
  have hadvance : (∃ answer, s.feed fonts glyph = .ok answer)
      ↔ ∃ answer, s.advance glyph = .ok answer := by
    unfold feed
    cases s.advance glyph <;> simp [bind, Except.bind, pure, Except.pure]
  rw [hadvance]
  unfold advance
  cases s.previous with
  | none => simp
  | some previous =>
    simp only [Option.some.injEq, forall_eq', startsLine, decide_eq_false_iff_not]
    by_cases hline : Scalar.greater previous.height glyph.height < Scalar.abs (previous.y - glyph.y)
    · simp [hline]
    · rw [if_neg hline, exists_sameLine_iff]
      simp [hline]

/-- Under a tolerance below a whole number whose blanks a text can hold, every gap fits that is not
undefined. -/
theorem fits_or_undefined [Scalar.Lawful α] {options : Options α} {n : Nat}
    (htolerance : options.wordGapTolerance < Scalar.ofNat n) (hn : n ≤ 2 ^ 53)
    (hholdable : n * options.placeholder.length
      ≤ min ParagraphBuffer.maxIndex options.machine.room)
    (previous glyph : Glyph α) :
    Fits options previous glyph
      ∨ ∃ gap, gap? previous glyph = some gap ∧ Scalar.truncate gap = .error .undefinedWhole := by
  have hbound : ∀ count : Int, count ≤ n →
      ParagraphBuffer.Holdable options.machine.room count options.placeholder := by
    intro count hcount
    have hcount' : count.toNat ≤ n := Int.toNat_le.mpr hcount
    have hindex : (2 : Nat) ^ 53 ≤ ParagraphBuffer.maxIndex := by decide
    exact ⟨by omega, (Nat.mul_le_mul_right _ hcount').trans hholdable⟩
  unfold Fits gap?
  extract_lets gap average
  by_cases haverage : 0 < average
  · rw [if_pos haverage]
    by_cases hsplit : options.wordGapTolerance < gap / average
    · exact .inl (.inl hsplit)
    · have hle : ¬ Scalar.ofNat n < gap / average := fun h => hsplit (Scalar.lt_trans htolerance h)
      rcases Scalar.truncate_abs_div hn haverage hle with hundefined | ⟨count, hcount, htruncate⟩
      · exact .inr ⟨_, rfl, hundefined⟩
      · exact .inl (.inr ⟨count, htruncate, hbound count hcount⟩)
  · -- Without an average width there is no gap, or a boundless one, which the tolerance is below.
    rw [if_neg haverage]
    by_cases hgap : (gap == 0) = true
    · rw [if_pos hgap]
      exact .inl (.inr ⟨0, Scalar.truncate_zero, hbound 0 (Int.natCast_nonneg n)⟩)
    · rw [if_neg hgap]
      exact .inl (Scalar.isBelowInfinity_of_lt htolerance)

/-- So under such a tolerance only an undefined gap makes a glyph a fault. -/
theorem feed_or_undefined [Scalar.Lawful α] {s : Segmenter α} {n : Nat}
    (htolerance : s.options.wordGapTolerance < Scalar.ofNat n) (hn : n ≤ 2 ^ 53)
    (hholdable : n * s.options.placeholder.length
      ≤ min ParagraphBuffer.maxIndex s.options.machine.room)
    (fonts : FontTable α) (glyph : Glyph α) :
    (∃ answer, s.feed fonts glyph = .ok answer)
      ∨ s.feed fonts glyph = .error .undefinedWhole := by
  by_cases hfeed : ∃ answer, s.feed fonts glyph = .ok answer
  · exact .inl hfeed
  · refine .inr ?_
    rw [exists_feed_iff] at hfeed
    simp only [not_forall] at hfeed
    obtain ⟨previous, hprevious, hline, hunfit⟩ := hfeed
    obtain ⟨gap, hgap, hundefined⟩ :=
      (fits_or_undefined htolerance hn hholdable previous glyph).resolve_left hunfit
    have hnear : ¬ s.options.wordGapTolerance < gap := by
      intro hsplit
      refine hunfit ?_
      unfold Fits
      rw [hgap]
      exact .inl hsplit
    have hsame : ¬ Scalar.greater previous.height glyph.height
        < Scalar.abs (previous.y - glyph.y) := of_decide_eq_false hline
    have hjudge : judge s.options.wordGapTolerance (gap? previous glyph)
        = .error .undefinedWhole := by
      rw [hgap, judge, if_neg hnear, hundefined]
      rfl
    unfold feed advance
    rw [hprevious]
    simp only [if_neg hsame]
    rw [sameLine, hjudge]
    rfl

end Segmenter

/-! ## A sequence of calls -/

namespace Delivery

variable {α τ : Type} [Scalar α]

namespace Call

/-- The glyph that the next one is compared with after the call. -/
def leaves (previous : Option (Glyph α)) : Call α → Option (Glyph α)
  | feed glyph => some glyph
  | flush => previous
  | beginPage _ | endPage => none

/-- The two glyphs that the call compares. -/
def compares (previous : Option (Glyph α)) : Call α → List (Glyph α × Glyph α)
  | feed glyph => previous.toList.map (·, glyph)
  | flush | beginPage _ | endPage => []

end Call

/-- Each glyph with the one before it on its page, in the order of the calls. -/
def neighbours : Option (Glyph α) → List (Call α) → List (Glyph α × Glyph α)
  | _, [] => []
  | previous, call :: calls => call.compares previous ++ neighbours (call.leaves previous) calls

variable (take : Paragraph α → Act τ Unit) (fonts : FontTable α)

theorem Call.exists_apply_iff (call : Call α) (s : Segmenter α) :
    (∃ answer, call.apply fonts s = .ok answer)
      ↔ ∀ pair ∈ call.compares s.previous, startsLine pair.1 pair.2 = false →
        Segmenter.Fits s.options pair.1 pair.2 := by
  cases call with
  | feed glyph =>
    rw [apply, Segmenter.exists_feed_iff, compares]
    simp [Option.mem_toList]
  | beginPage width => simp [apply, compares]
  | flush => simp [apply, compares]
  | endPage => simp [apply, compares]

theorem Call.options_and_previous_of_apply {call : Call α} {s s' : Segmenter α}
    {out : Option (Paragraph α)} (h : call.apply fonts s = .ok (s', out)) :
    s'.options = s.options ∧ s'.previous = call.leaves s.previous := by
  cases call with
  | beginPage width =>
    cases h
    exact ⟨rfl, rfl⟩
  | feed glyph => exact Segmenter.options_and_previous_of_feed h
  | flush =>
    have hprevious : s.flush.1.previous = s.previous := by
      unfold Segmenter.flush
      split <;> rfl
    have hanswer : s.flush = (s', out) := Except.ok.inj h
    have hkept := And.intro s.options_flush hprevious
    rw [hanswer] at hkept
    exact hkept
  | endPage =>
    cases h
    exact ⟨s.options_flush, rfl⟩

omit [Scalar α] in
/-- An offer changes nothing that later gaps are judged by. -/
theorem options_and_previous_offer (d : Delivery α τ) (out : Option (Paragraph α)) :
    (d.offer take out).segmenter.options = d.segmenter.options
      ∧ (d.offer take out).segmenter.previous = d.segmenter.previous := by
  rcases segmenter_offer take d out with h | h <;> rw [h] <;> exact ⟨rfl, rfl⟩

/-- The calls of a sequence are no faults exactly if on every line of it each gap fits. -/
theorem exists_run_iff (calls : List (Call α)) (d : Delivery α τ) :
    (∃ d', (calls.forM (Call.perform take fonts)).run d = (.ok (), d'))
      ↔ ∀ pair ∈ neighbours d.segmenter.previous calls, startsLine pair.1 pair.2 = false →
        Segmenter.Fits d.segmenter.options pair.1 pair.2 := by
  induction calls generalizing d with
  | nil => exact ⟨fun _ pair hpair => absurd hpair List.not_mem_nil, fun _ => ⟨d, rfl⟩⟩
  | cons call calls ih =>
    have happly := call.exists_apply_iff fonts d.segmenter
    have hcons : ((call :: calls).forM (Call.perform take fonts))
        = call.perform take fonts >>= fun _ => calls.forM (Call.perform take fonts) := rfl
    have hrun := inPlace_perform take fonts call d
    rw [hcons, neighbours, List.forall_mem_append, ← happly]
    cases hcall : call.apply fonts d.segmenter with
    | error e =>
      rw [hcall] at hrun
      rw [Act.run_bind_error hrun]
      simp
    | ok answer =>
      obtain ⟨s, out⟩ := answer
      obtain ⟨hoptions, hprevious⟩ := Call.options_and_previous_of_apply fonts hcall
      obtain ⟨hoptions', hprevious'⟩ := options_and_previous_offer take (d.withSegmenter s) out
      rw [hcall] at hrun
      rw [Act.run_bind_ok hrun, ih, hoptions', hprevious', withSegmenter, hoptions, hprevious]
      simp

/-- What makes layout fail. No call of a sequence is a fault exactly if every gap on a line splits
the line or comes to blanks that a text can hold, whatever the options. Under a tolerance that is
below a whole number whose blanks a text can hold, a fault means that some gap is undefined. -/
theorem calls_succeed_iff_fits (calls : List (Call α)) (d : Delivery α τ) :
    ((∃ d', (calls.forM (Call.perform take fonts)).run d = (.ok (), d'))
      ↔ ∀ pair ∈ neighbours d.segmenter.previous calls, startsLine pair.1 pair.2 = false →
        Segmenter.Fits d.segmenter.options pair.1 pair.2)
    ∧ (Scalar.Lawful α → ∀ n ≤ 2 ^ 53, d.segmenter.options.wordGapTolerance < Scalar.ofNat n →
      n * d.segmenter.options.placeholder.length
        ≤ min ParagraphBuffer.maxIndex d.segmenter.options.machine.room →
      (∃ d', (calls.forM (Call.perform take fonts)).run d = (.ok (), d'))
        ∨ ∃ pair ∈ neighbours d.segmenter.previous calls, startsLine pair.1 pair.2 = false
          ∧ ∃ gap, Segmenter.gap? pair.1 pair.2 = some gap
            ∧ Scalar.truncate gap = .error .undefinedWhole) := by
  refine ⟨exists_run_iff take fonts calls d, fun hlawful n hn htolerance hholdable => ?_⟩
  rw [exists_run_iff]
  by_cases hfits : ∀ pair ∈ neighbours d.segmenter.previous calls,
      startsLine pair.1 pair.2 = false → Segmenter.Fits d.segmenter.options pair.1 pair.2
  · exact .inl hfits
  · simp only [not_forall] at hfits
    obtain ⟨pair, hpair, hline, hunfit⟩ := hfits
    have hcases := Segmenter.fits_or_undefined htolerance hn hholdable pair.1 pair.2
    exact .inr ⟨pair, hpair, hline, hcases.resolve_left hunfit⟩

/-- A glyph without width. -/
def thin (text : String) (x : Float) : Glyph Float :=
  ⟨Text.lit text, x, 20, 0, 10, none, 10, 10, 10⟩

/-- An infinite tolerance is accepted, and fails between two glyphs without width that stand apart;
with the usual options and over exact numbers three glyphs go through. -/
theorem calls_succeed_iff_fits_thin :
    let endless : Options Float := { Options.standard with wordGapTolerance := 1 / 0 }
    let thins : List (Call Float) :=
      [.beginPage (some 100), .feed (thin "A" 10), .feed (thin "B" 15), .endPage]
    let page : List (Call ℚ) := .beginPage none :: wideGap.map .feed ++ [.endPage]
    (endless.check.toOption = some ()
      ∧ ¬ ∃ d', (thins.forM (Call.perform (fun _ => (pure () : Act Unit Unit)) ⟨[], [], []⟩)).run
        ⟨.new endless, (), []⟩ = (.ok (), d'))
    ∧ ∃ d', (page.forM (Call.perform refuseFirst ⟨[], [], []⟩)).run ⟨.new .standard, 0, []⟩
      = (.ok (), d') := by
  intro endless thins page
  refine ⟨⟨by decide +kernel, ?_⟩, ?_⟩
  · rw [(calls_succeed_iff_fits _ _ thins _).1]
    intro hfits
    have hfit := hfits (thin "A" 10, thin "B" 15) List.mem_cons_self (by decide +kernel)
    have hgap : Segmenter.gap? (thin "A" 10) (thin "B" 15) = none :=
      Option.isNone_iff_eq_none.mp (by decide +kernel)
    simp only [Segmenter.Fits, hgap] at hfit
    exact absurd hfit (by decide +kernel)
  · have hcases := (calls_succeed_iff_fits refuseFirst ⟨[], [], []⟩ page
      ⟨.new .standard, 0, []⟩).2 inferInstance 3 (by decide) (by decide +kernel) (by decide)
    refine hcases.resolve_right ?_
    rintro ⟨pair, -, -, gap, -, hundefined⟩
    -- An exact number has a whole part.
    cases hundefined

end Delivery

end Folio
