import Folio.Paragraph.Segmenter

/-!
# Runs of glyphs

What a stretch of glyphs makes when it becomes one paragraph, computed from the glyphs alone and
without any state. `Run.content` is the marked-up text: one spacer at most in front, then glyph by
glyph the blanks of the gap before it, the opening of a sentence where none is open, the escaped
text and the closing where it ends one; a sentence that is still open at the end is closed.

The segmenter is compared with this in `Conservation`. For that every part of a run comes with an
equation for one more glyph at its end (`text_snoc`, `plain_snoc`, `metrics_snoc`, `indent?_snoc`).
-/

namespace Folio

/-- The glyphs of one paragraph, of which there is at least one. -/
structure Run (α : Type) where
  first : Glyph α
  rest : List (Glyph α) := []

namespace Run

variable {α : Type}

def glyphs (r : Run α) : List (Glyph α) := r.first :: r.rest

def last (r : Run α) : Glyph α := r.rest.getLastD r.first

/-- The run with one more glyph. -/
def snoc (r : Run α) (glyph : Glyph α) : Run α := ⟨r.first, r.rest ++ [glyph]⟩

@[simp] theorem glyphs_snoc (r : Run α) (glyph : Glyph α) :
    (r.snoc glyph).glyphs = r.glyphs ++ [glyph] := rfl

@[simp] theorem last_snoc (r : Run α) (glyph : Glyph α) : (r.snoc glyph).last = glyph := by
  simp [last, snoc]

@[simp] theorem last_single (glyph : Glyph α) : (⟨glyph, []⟩ : Run α).last = glyph := rfl

variable [Scalar α]

/-! ## The text -/

/-- Whether a glyph stands on another visual line than the one before it. -/
def startsLine (previous glyph : Glyph α) : Bool :=
  Scalar.greater previous.height glyph.height < Scalar.abs (previous.y - glyph.y)

/-- How many blanks stand between two glyphs of a run: the whole part of their gap, in average glyph
widths, on one line and none from one line to the next. -/
def blanksBetween (previous glyph : Glyph α) : Nat :=
  if startsLine previous glyph then 0
  else match Segmenter.gap? previous glyph with
    | none => 0
    | some gap =>
      match Scalar.truncate gap with
      | .ok count => count.toNat
      | .error _ => 0

/-- The text that is shown for a glyph: quotes are set off by spaces if the options say so. -/
def shown (options : Options α) (glyph : Glyph α) : Text :=
  if options.spacesQuotes && options.quotes.contains glyph.text then
    Text.lit " " ++ glyph.text ++ Text.lit " "
  else glyph.text

/-- Whether the glyph ends its sentence. -/
def endsSentence (options : Options α) (glyph : Glyph α) : Bool :=
  options.terminators.contains glyph.text

/-- One glyph in markup behind `count` blanks; `isOpen` says whether a sentence is open. -/
def piece (options : Options α) (count : Nat) (isOpen : Bool) (glyph : Glyph α) : Text :=
  Text.replicate count options.placeholder
    ++ (if isOpen then [] else ParagraphBuffer.sentenceStart)
    ++ (shown options glyph).escape
    ++ (if endsSentence options glyph then ParagraphBuffer.sentenceEnd else [])

/-- The markup of the glyphs that follow a glyph. -/
def following (options : Options α) : Glyph α → List (Glyph α) → Text
  | _, [] => []
  | previous, glyph :: rest =>
    piece options (blanksBetween previous glyph) (!endsSentence options previous) glyph
      ++ following options glyph rest

/-- The markup of all glyphs; the last sentence may still be open. -/
def text (options : Options α) (r : Run α) : Text :=
  piece options 0 false r.first ++ following options r.first r.rest

/-- The same without markup, for the glyphs that follow a glyph. -/
def plainFollowing (options : Options α) : Glyph α → List (Glyph α) → Text
  | _, [] => []
  | previous, glyph :: rest =>
    Text.replicate (blanksBetween previous glyph) options.placeholder ++ glyph.text
      ++ plainFollowing options glyph rest

/-- The texts of all glyphs with the blanks between them. -/
def plain (options : Options α) (r : Run α) : Text :=
  r.first.text ++ plainFollowing options r.first r.rest

/-- Whether the run is blank throughout, so that it makes no paragraph. -/
def isBlank (options : Options α) (r : Run α) : Bool := (r.plain options).isBlank

theorem following_concat (options : Options α) (glyph : Glyph α) :
    ∀ (previous : Glyph α) (gs : List (Glyph α)),
      following options previous (gs ++ [glyph]) = following options previous gs
        ++ piece options (blanksBetween (gs.getLastD previous) glyph)
            (!endsSentence options (gs.getLastD previous)) glyph := by
  intro previous gs
  induction gs generalizing previous with
  | nil => simp [following]
  | cons g gs ih =>
    rw [List.cons_append, following, following, ih g, List.append_assoc, List.getLastD_cons]

theorem plainFollowing_concat (options : Options α) (glyph : Glyph α) :
    ∀ (previous : Glyph α) (gs : List (Glyph α)),
      plainFollowing options previous (gs ++ [glyph]) = plainFollowing options previous gs
        ++ (Text.replicate (blanksBetween (gs.getLastD previous) glyph) options.placeholder
          ++ glyph.text) := by
  intro previous gs
  induction gs generalizing previous with
  | nil => simp [plainFollowing]
  | cons g gs ih =>
    rw [List.cons_append, plainFollowing, plainFollowing, ih g, List.getLastD_cons]
    simp only [List.append_assoc]

/-- One more glyph adds its blanks and its piece. -/
theorem text_snoc (options : Options α) (r : Run α) (glyph : Glyph α) :
    (r.snoc glyph).text options = r.text options
      ++ piece options (blanksBetween r.last glyph) (!endsSentence options r.last) glyph := by
  rw [text, text, List.append_assoc]
  exact congrArg (piece options 0 false r.first ++ ·) (following_concat options glyph _ _)

theorem plain_snoc (options : Options α) (r : Run α) (glyph : Glyph α) :
    (r.snoc glyph).plain options = r.plain options
      ++ (Text.replicate (blanksBetween r.last glyph) options.placeholder ++ glyph.text) := by
  rw [plain, plain, List.append_assoc]
  exact congrArg (r.first.text ++ ·) (plainFollowing_concat options glyph _ _)

/-! ## The geometry -/

/-- The geometry after one more glyph, on the same line or on a further one. -/
def measure (m : Metrics α) (glyph : Glyph α) : Metrics α :=
  if startsLine m.last glyph then
    (m.nextLine glyph m.last (Scalar.abs (m.last.y - glyph.y))).append glyph
  else m.append glyph

/-- The geometry of the run. -/
def metrics (r : Run α) : Metrics α := r.rest.foldl measure (.start r.first)

/-- How far glyphs measured by `m`, which are all on one line, are indented against the given glyphs
when these follow: it goes by the first glyph that starts a further line and by no other. -/
def indentAfter : Metrics α → List (Glyph α) → Option α
  | _, [] => none
  | m, glyph :: rest =>
    if startsLine m.last glyph then
      if 0 < m.indent glyph then some (m.indent glyph) else none
    else indentAfter (measure m glyph) rest

/-- How wide the spacer in front of the run is, if it has one. -/
def indent? (options : Options α) (r : Run α) : Option α :=
  if options.correctsIndent then indentAfter (.start r.first) r.rest else none

/-- The spacer in front of the run, if it has one. -/
def lead (options : Options α) (r : Run α) : Text :=
  ((r.indent? options).map fun width => ParagraphBuffer.spacer width options.unit).getD []

@[simp] theorem last_measure (m : Metrics α) (glyph : Glyph α) : (measure m glyph).last = glyph := by
  unfold measure
  split <;> rfl

theorem manyLines_measure (m : Metrics α) (glyph : Glyph α) :
    (measure m glyph).manyLines = (m.manyLines || startsLine m.last glyph) := by
  unfold measure
  split
  next h => rw [h, Bool.or_true]; rfl
  next h => rw [Bool.eq_false_iff.mpr h, Bool.or_false]; rfl

theorem manyLines_foldl_measure : ∀ (gs : List (Glyph α)) (m : Metrics α),
    m.manyLines = true → (gs.foldl measure m).manyLines = true := by
  intro gs
  induction gs with
  | nil => intro m h; exact h
  | cons g gs ih =>
    intro m h
    exact ih _ (by rw [manyLines_measure, h, Bool.true_or])

@[simp] theorem metrics_single (glyph : Glyph α) : (⟨glyph, []⟩ : Run α).metrics = .start glyph := rfl

/-- One more glyph is measured after the others. -/
theorem metrics_snoc (r : Run α) (glyph : Glyph α) :
    (r.snoc glyph).metrics = measure r.metrics glyph := by
  rw [metrics, snoc, List.foldl_append]
  rfl

theorem last_foldl_measure : ∀ (gs : List (Glyph α)) (m : Metrics α),
    (gs.foldl measure m).last = gs.getLastD m.last := by
  intro gs
  induction gs with
  | nil => intro m; rfl
  | cons g gs ih =>
    intro m
    rw [List.foldl_cons, ih, last_measure, List.getLastD_cons]

/-- The measures know the latest glyph. -/
@[simp] theorem last_metrics (r : Run α) : r.metrics.last = r.last := last_foldl_measure _ _

/-- An indent is settled by the first further line; glyphs after that do not change it. -/
theorem indentAfter_concat (glyph : Glyph α) :
    ∀ (gs : List (Glyph α)) (m : Metrics α), m.manyLines = false →
      indentAfter m (gs ++ [glyph]) =
        if (gs.foldl measure m).manyLines then indentAfter m gs
        else indentAfter (gs.foldl measure m) [glyph] := by
  intro gs
  induction gs with
  | nil => intro m hm; simp [hm]
  | cons g gs ih =>
    intro m hm
    rw [List.cons_append, indentAfter, indentAfter, List.foldl_cons]
    -- The first further line settles the indent on both sides; before it the glyph is one of many.
    by_cases hline : startsLine m.last g = true
    · have hmany : (gs.foldl measure (measure m g)).manyLines = true :=
        manyLines_foldl_measure _ _ (by rw [manyLines_measure, hline, Bool.or_true])
      rw [if_pos hline, if_pos hline, if_pos hmany]
    · have hflat : (measure m g).manyLines = false := by
        rw [manyLines_measure, hm, Bool.eq_false_iff.mpr hline, Bool.or_false]
      rw [if_neg hline, if_neg hline]
      exact ih _ hflat

/-- Without a further line there is no indent. -/
theorem indentAfter_of_oneLine :
    ∀ (gs : List (Glyph α)) (m : Metrics α), (gs.foldl measure m).manyLines = false →
      indentAfter m gs = none := by
  intro gs
  induction gs with
  | nil => intro m _; rfl
  | cons g gs ih =>
    intro m h
    rw [List.foldl_cons] at h
    have hline : ¬ startsLine m.last g = true := by
      intro hline
      have hmany := manyLines_foldl_measure gs (measure m g)
        (by rw [manyLines_measure, hline, Bool.or_true])
      rw [hmany] at h
      exact absurd h (by simp)
    rw [indentAfter, if_neg hline]
    exact ih _ h

/-- What one more glyph does to the indent. -/
theorem indent?_snoc (options : Options α) (r : Run α) (glyph : Glyph α) :
    (r.snoc glyph).indent? options =
      if r.metrics.manyLines then r.indent? options
      else if options.correctsIndent then indentAfter r.metrics [glyph] else none := by
  unfold indent? snoc
  by_cases hc : options.correctsIndent = true
  · rw [if_pos hc, if_pos hc, if_pos hc, indentAfter_concat glyph _ _ rfl]
    rfl
  · rw [if_neg hc, if_neg hc, if_neg hc, ite_self]

theorem indent?_of_oneLine (options : Options α) {r : Run α} (h : r.metrics.manyLines = false) :
    r.indent? options = none := by
  unfold indent?
  rw [indentAfter_of_oneLine _ _ h, ite_self]

theorem lead_of_oneLine (options : Options α) {r : Run α} (h : r.metrics.manyLines = false) :
    r.lead options = [] := by
  rw [lead, indent?_of_oneLine options h]
  rfl

/-- A glyph that starts the second line decides about the spacer; later ones do not. -/
theorem lead_snoc_of_startsLine {options : Options α} {r : Run α} {glyph : Glyph α}
    (hline : startsLine r.last glyph = true) :
    (r.snoc glyph).lead options = if r.metrics.manyLines then r.lead options
      else if options.correctsIndent then
        if 0 < r.metrics.indent glyph then
          ParagraphBuffer.spacer (r.metrics.indent glyph) options.unit
        else []
      else [] := by
  rw [lead, indent?_snoc]
  by_cases hmany : r.metrics.manyLines = true
  · rw [if_pos hmany, if_pos hmany]
    rfl
  · rw [if_neg hmany, if_neg hmany]
    simp only [indentAfter, last_metrics, hline, if_true]
    by_cases hcorrects : options.correctsIndent = true
    · rw [if_pos hcorrects, if_pos hcorrects]
      split <;> rfl
    · rw [if_neg hcorrects, if_neg hcorrects]
      rfl

/-! ## The paragraph -/

/-- The marked-up text of the run. -/
def content (options : Options α) (r : Run α) : Text :=
  r.lead options ++ r.text options
    ++ (if endsSentence options r.last then [] else ParagraphBuffer.sentenceEnd)

/-- The paragraph that the run makes when its last glyph has that look. -/
def paragraph (options : Options α) (face : Face) (r : Run α) : Paragraph α where
  left := r.metrics.x
  top := r.metrics.top
  width := r.metrics.width + r.last.width
  lineHeight := r.metrics.lineHeight
  content := r.content options
  fontSize := r.last.xScale
  family := face.family
  weight := face.weight
  slant := face.slant

/-- The paragraph that the run makes, if it makes one. -/
def paragraph? (options : Options α) (face : Face) (r : Run α) : Option (Paragraph α) :=
  if r.isBlank options then none else some (r.paragraph options face)

end Run

end Folio
