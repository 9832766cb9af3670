import Folio.Proofs.Act
import Folio.Proofs.Paragraph.Delivery

/-!
# One field at a time

The segmenter at work in place: every field is set by a step of its own, a paragraph is offered in
the middle of a call, before the glyph that ended it is taken in, and a fault stops the call where
it arises and keeps what has been set by then. `Segmenter.feed` and `Segmenter.flush` say the same
as functions from one state to the next, with the paragraph that is handed out beside the state.

That is no difference. A call in place ends where the function ends (`handsOut_flushing`,
`inPlace_feeding`), whatever becomes of the paragraphs offered on the way, and where the function
is a fault nothing has been set yet. The fault has only two places to arise at, the judgement of
the gap and the making of the blanks, and on their branch both stand in front of everything that
sets a field (`inPlace_stayingOnLine`).
-/

namespace Folio.Delivery

open Segmenter (gap? judge narrow startsAligned)

variable {α τ : Type}

/-! ## Setting fields -/

def alter (f : Segmenter α → Segmenter α) : Act (Delivery α τ) Unit :=
  modify fun d => { d with segmenter := f d.segmenter }

def alterBuffer (f : ParagraphBuffer α → ParagraphBuffer α) : Act (Delivery α τ) Unit :=
  alter fun s => { s with buffer := f s.buffer }

def look : Act (Delivery α τ) (Segmenter α) := do return (← get).segmenter

def whenever (p : Prop) [Decidable p] (x : Act (Delivery α τ) Unit) : Act (Delivery α τ) Unit :=
  if p then x else pure ()

/-- Offers a paragraph. A refusal is the fault of whoever offers it. -/
def hand (take : Paragraph α → Act τ Unit) (p : Paragraph α) : Act (Delivery α τ) Unit := do
  modify fun d => { d with offered := d.offered ++ [p] }
  (take p).onPart (·.taker) fun t d => { d with taker := t }

/-! ## Calls in place -/

section

variable [Scalar α] (take : Paragraph α → Act τ Unit) (fonts : FontTable α)

/-- Hands out the paragraph being assembled, unless it is blank, and starts afresh. -/
def flushing : Act (Delivery α τ) Unit := do
  let b := (← look).buffer
  alter fun s => { s with spacing := none }
  alter fun s => { s with lastLineStart := none }
  alter fun s => { s with lineStart := none }
  if b.isEmpty then pure ()
  else
    alter fun s => { s with buffer := .empty }
    if b.isBlank then pure ()
    else
      match b.metrics with
      | none => pure ()
      | some m =>
        let fallback := (← look).options.fallbackFamily
        tryCatch (hand take (Segmenter.paragraph fallback b m)) fun _ => alter Segmenter.noteFailure

/-- Ends the paragraph so that `glyph` starts the next one. -/
def breakingOff (glyph : Glyph α) : Act (Delivery α τ) Unit := do
  flushing take
  alter fun s => { s with lineStart := some glyph }

/-- Deals with a gap that has been judged. -/
def takingGap (room : Nat) (placeholder : Text) (glyph : Glyph α) :
    Segmenter.Gap → Act (Delivery α τ) Unit
  | .split => breakingOff take glyph
  | .blanks count =>
    if count ≤ 0 then pure ()
    else do
      let t ← Act.ofExcept (ParagraphBuffer.blanks room count.toNat placeholder)
      alterBuffer fun b => { b with parts := t :: b.parts }
      alterBuffer fun b => { b with plain := t :: b.plain }

/-- Goes on with a glyph on the same line. -/
def stayingOnLine (previous glyph : Glyph α) : Act (Delivery α τ) Unit := do
  let s ← look
  let gap ← Act.ofExcept (judge s.options.wordGapTolerance (gap? previous glyph))
  takingGap take s.options.machine.room s.options.placeholder glyph gap

/-- Takes the line that starts at `glyph` into the paragraph. -/
def mergingLine (previous glyph : Glyph α) (spacing : α) : Act (Delivery α τ) Unit := do
  alterBuffer fun b => { b with metrics := some (b.metrics.getD (.start glyph)) }
  let s ← look
  let indent := (s.buffer.metrics.getD (.start glyph)).indent glyph
  alterBuffer fun b =>
    { b with metrics := b.metrics.map fun m => m.nextLine glyph previous spacing }
  whenever (s.options.correctsIndent && !s.buffer.indentApplied) do
    whenever (0 < indent) (alterBuffer fun b => b.insertIndent indent s.options.unit)
    alterBuffer fun b => { b with indentApplied := true }

/-- Takes a further line into the paragraph if it belongs there. -/
def addingLine (previous glyph : Glyph α) (spacing : α) : Act (Delivery α τ) Unit := do
  alter fun s => { s with spacing := some spacing }
  alter fun s => { s with lastLineStart := s.lineStart }
  alter fun s => { s with lineStart := some glyph }
  let s ← look
  if previous.text != Text.lit " " && startsAligned s.options s.lastLineStart s.lineStart
      && s.marginsAgree previous glyph then
    mergingLine previous glyph spacing
  else breakingOff take glyph

/-- Goes on with a glyph on a further line. -/
def turningLine (previous glyph : Glyph α) (spacing : α) : Act (Delivery α τ) Unit := do
  let right := previous.x + previous.width
  alter fun s => { s with rightMargin := narrow s.rightMargin (s.pageWidth - right) }
  alter fun s => { s with leftMargin := narrow s.leftMargin glyph.x }
  let s ← look
  if !s.options.mergesLines || s.spacingChanged spacing then breakingOff take glyph
  else addingLine take previous glyph spacing

/-- Puts marked-up text in; `raw` is the same without markup. A terminator ends its sentence. -/
def puttingText (markup raw : Text) (terminator : Bool) : Act (Delivery α τ) Unit := do
  let b := (← look).buffer
  whenever (!b.sentenceOpen) do
    alterBuffer fun b => { b with parts := ParagraphBuffer.sentenceStart :: b.parts }
    alterBuffer fun b => { b with sentenceOpen := true }
  alterBuffer fun b => { b with parts := markup :: b.parts }
  alterBuffer fun b => { b with plain := raw :: b.plain }
  whenever terminator do
    alterBuffer fun b => { b with parts := ParagraphBuffer.sentenceEnd :: b.parts }
    alterBuffer fun b => { b with sentenceOpen := false }

/-- Puts the glyph into the paragraph. -/
def puttingIn (glyph : Glyph α) : Act (Delivery α τ) Unit := do
  alterBuffer fun b =>
    { b with
      metrics :=
        match b.metrics with
        | none => some (.start glyph)
        | some m => some (m.append glyph) }
  alterBuffer fun b => { b with face := some (fonts.face glyph.font) }
  alterBuffer fun b => { b with fontSize := glyph.xScale }
  let options := (← look).options
  let shown :=
    if options.spacesQuotes && options.quotes.contains glyph.text then
      Text.lit " " ++ glyph.text ++ Text.lit " "
    else glyph.text
  puttingText shown.escape glyph.text (options.terminators.contains glyph.text)

/-- Makes room for a glyph: blanks, a merged line or a new paragraph. -/
def makingRoom (glyph : Glyph α) : Act (Delivery α τ) Unit := do
  match (← look).previous with
  | none =>
    alter fun s => { s with lineStart := some glyph }
    alter fun s => { s with lastLineStart := none }
    alter fun s => { s with leftMargin := some glyph.x }
  | some previous =>
    let spacing := Scalar.abs (previous.y - glyph.y)
    if Scalar.greater previous.height glyph.height < spacing then
      turningLine take previous glyph spacing
    else stayingOnLine take previous glyph

/-- Takes one glyph. -/
def feeding (glyph : Glyph α) : Act (Delivery α τ) Unit := do
  makingRoom take glyph
  puttingIn fonts glyph
  alter fun s => { s with previous := some glyph }

/-- Forgets everything about the page. -/
def forgetting : Act (Delivery α τ) Unit := do
  alterBuffer fun _ => .empty
  alter fun s => { s with previous := none }
  alter fun s => { s with lineStart := none }
  alter fun s => { s with lastLineStart := none }
  alter fun s => { s with spacing := none }
  alter fun s => { s with leftMargin := none }
  alter fun s => { s with rightMargin := none }

end

/-! ## What they come to -/

/-- The delivery with another segmenter. -/
def withSegmenter (d : Delivery α τ) (s : Segmenter α) : Delivery α τ := { d with segmenter := s }

/-- The step changes the segmenter by `f` and nothing else. -/
def Alters (x : Act (Delivery α τ) Unit) (f : Segmenter α → Segmenter α) : Prop :=
  ∀ d, x.run d = (.ok (), d.withSegmenter (f d.segmenter))

namespace Alters

variable {x y : Act (Delivery α τ) Unit} {f g : Segmenter α → Segmenter α}

theorem alter (f : Segmenter α → Segmenter α) : Alters (alter f : Act (Delivery α τ) Unit) f :=
  fun _ => rfl

theorem alterBuffer (f : ParagraphBuffer α → ParagraphBuffer α) :
    Alters (alterBuffer f : Act (Delivery α τ) Unit) fun s => { s with buffer := f s.buffer } :=
  fun _ => rfl

theorem skip : Alters (pure () : Act (Delivery α τ) Unit) id := fun _ => rfl

theorem bind (hx : Alters x f) (hy : Alters y g) :
    Alters (x >>= fun _ => y) fun s => g (f s) := by
  intro d
  rw [Act.run_bind_ok (hx d), hy]
  rfl

theorem look {x : Segmenter α → Act (Delivery α τ) Unit}
    {f : Segmenter α → Segmenter α → Segmenter α} (hx : ∀ s, Alters (x s) (f s)) :
    Alters (look >>= x) fun s => f s s := fun d => hx d.segmenter d

theorem ite {p : Prop} [Decidable p] (hx : Alters x f) (hy : Alters y g) :
    Alters (if p then x else y) fun s => if p then f s else g s := by
  intro d
  split
  · exact hx d
  · exact hy d

theorem whenever {p : Prop} [Decidable p] (hx : Alters x f) :
    Alters (whenever p x) fun s => if p then f s else s := ite hx skip

theorem of_eq (hx : Alters x f) (h : ∀ s, f s = g s) : Alters x g := by
  rw [← funext h]
  exact hx

end Alters

variable [Scalar α] {take : Paragraph α → Act τ Unit} {fonts : FontTable α}

/-- The step changes the segmenter by `f` and offers the paragraph that `f` hands out. -/
def HandsOut (take : Paragraph α → Act τ Unit) (x : Act (Delivery α τ) Unit)
    (f : Segmenter α → Segmenter α × Option (Paragraph α)) : Prop :=
  ∀ d, x.run d
    = (.ok (), (d.withSegmenter (f d.segmenter).1).offer take (f d.segmenter).2)

/-- The step does in place what the function says: it ends where the function ends with the
paragraph offered, and where the function is a fault the step is, with everything as it was. -/
def InPlace (take : Paragraph α → Act τ Unit) (x : Act (Delivery α τ) Unit)
    (f : Segmenter α → Except Fault (Segmenter α × Option (Paragraph α))) : Prop :=
  ∀ d, x.run d = match f d.segmenter with
    | .ok (s, out) => (.ok (), (d.withSegmenter s).offer take out)
    | .error e => (.error e, d)

omit [Scalar α] in
/-- What is changed besides the count of refusals may be changed before the offer. -/
theorem withSegmenter_offer {f : Segmenter α → Segmenter α}
    (hf : ∀ s, f s.noteFailure = (f s).noteFailure) (d : Delivery α τ)
    (out : Option (Paragraph α)) :
    (d.offer take out).withSegmenter (f (d.offer take out).segmenter)
      = (d.withSegmenter (f d.segmenter)).offer take out := by
  cases out with
  | none => rfl
  | some p =>
    simp only [offer, withSegmenter]
    cases ((take p).run d.taker).1 with
    | ok => rfl
    | error e => simp only [hf]

namespace HandsOut

variable {x y : Act (Delivery α τ) Unit} {f : Segmenter α → Segmenter α}
  {g h : Segmenter α → Segmenter α × Option (Paragraph α)}

omit [Scalar α]

theorem of_alters (hx : Alters x f) : HandsOut take x fun s => (f s, none) := hx

theorem after (hx : Alters x f) (hy : HandsOut take y g) :
    HandsOut take (x >>= fun _ => y) fun s => g (f s) := by
  intro d
  rw [Act.run_bind_ok (hx d), hy]
  rfl

theorem followed (hx : HandsOut take x g) (hy : Alters y f)
    (hf : ∀ s, f s.noteFailure = (f s).noteFailure) :
    HandsOut take (x >>= fun _ => y) fun s => (f (g s).1, (g s).2) := by
  intro d
  rw [Act.run_bind_ok (hx d), hy, withSegmenter_offer hf]
  rfl

theorem look {x : Segmenter α → Act (Delivery α τ) Unit}
    {g : Segmenter α → Segmenter α → Segmenter α × Option (Paragraph α)}
    (hx : ∀ s, HandsOut take (x s) (g s)) : HandsOut take (look >>= x) fun s => g s s :=
  fun d => hx d.segmenter d

theorem ite {p : Prop} [Decidable p] (hx : HandsOut take x g) (hy : HandsOut take y h) :
    HandsOut take (if p then x else y) fun s => if p then g s else h s := by
  intro d
  by_cases hp : p
  · simp only [if_pos hp]
    exact hx d
  · simp only [if_neg hp]
    exact hy d

theorem inPlace (hx : HandsOut take x g) : InPlace take x fun s => .ok (g s) := hx

end HandsOut

namespace InPlace

variable {x y : Act (Delivery α τ) Unit} {f : Segmenter α → Segmenter α}
  {F G : Segmenter α → Except Fault (Segmenter α × Option (Paragraph α))}

omit [Scalar α]

/-- A change after which nothing else can be a fault. -/
theorem followed (hx : InPlace take x F) (hy : Alters y f)
    (hf : ∀ s, f s.noteFailure = (f s).noteFailure) :
    InPlace take (x >>= fun _ => y) fun s => (F s).map fun answer => (f answer.1, answer.2) := by
  intro d
  have hfirst := hx d
  cases hF : F d.segmenter with
  | error e =>
    rw [hF] at hfirst
    rw [Act.run_bind_error hfirst]
    simp only [hF, Except.map]
  | ok answer =>
    rw [hF] at hfirst
    rw [Act.run_bind_ok hfirst, hy, withSegmenter_offer hf]
    simp only [hF, Except.map]
    rfl

theorem look {x : Segmenter α → Act (Delivery α τ) Unit}
    {F : Segmenter α → Segmenter α → Except Fault (Segmenter α × Option (Paragraph α))}
    (hx : ∀ s, InPlace take (x s) (F s)) : InPlace take (look >>= x) fun s => F s s :=
  fun d => hx d.segmenter d

/-- A fault that arises before anything is changed. -/
theorem ofExcept {β : Type} {r : Except Fault β} {x : β → Act (Delivery α τ) Unit}
    {F : β → Segmenter α → Except Fault (Segmenter α × Option (Paragraph α))}
    (hx : ∀ b, InPlace take (x b) (F b)) :
    InPlace take (Act.ofExcept r >>= x) fun s => r >>= fun b => F b s := by
  intro d
  cases r with
  | error e => rfl
  | ok b => exact hx b d

theorem ite {p : Prop} [Decidable p] (hx : InPlace take x F) (hy : InPlace take y G) :
    InPlace take (if p then x else y) fun s => if p then F s else G s := by
  intro d
  by_cases hp : p
  · simp only [if_pos hp]
    exact hx d
  · simp only [if_neg hp]
    exact hy d

theorem of_eq (hx : InPlace take x F) (h : ∀ s, F s = G s) : InPlace take x G := by
  rw [← funext h]
  exact hx

end InPlace

/-! ## Each call -/

omit [Scalar α] in
/-- A refusal is counted, and the call goes on. -/
theorem run_hand_caught (p : Paragraph α) (d : Delivery α τ) :
    (tryCatch (hand take p) fun _ => alter Segmenter.noteFailure).run d
      = (.ok (), d.offer take (some p)) := by
  rw [Act.run_tryCatch, hand, Act.run_bind_ok (Act.run_modify _ d), Act.run_onPart, offer]
  rcases (take p).run d.taker with ⟨_ | _, t⟩ <;> rfl

theorem handsOut_flushing : HandsOut take (flushing take) Segmenter.flush := by
  intro d
  unfold flushing Segmenter.flush
  have hlook : (look : Act (Delivery α τ) _).run d = (.ok d.segmenter, d) := rfl
  rw [Act.run_bind_ok hlook]
  simp only [Act.run_bind, Alters.alter _ _, Act.run_ite]
  by_cases hempty : d.segmenter.buffer.isEmpty = true
  · simp only [if_pos hempty]
    rfl
  · by_cases hblank : d.segmenter.buffer.isBlank = true
    · simp only [if_neg hempty, if_pos hblank]
      rfl
    · simp only [if_neg hempty, if_neg hblank]
      cases d.segmenter.buffer.metrics with
      | none => rfl
      | some m => exact run_hand_caught _ _

theorem handsOut_breakingOff (glyph : Glyph α) :
    HandsOut take (breakingOff take glyph) fun s => s.breakBefore glyph :=
  handsOut_flushing.followed (.alter _) fun _ => rfl

theorem inPlace_takingGap (room : Nat) (placeholder : Text) (glyph : Glyph α)
    (gap : Segmenter.Gap) :
    InPlace take (takingGap take room placeholder glyph gap) fun s =>
      match gap with
      | .split => .ok (s.breakBefore glyph)
      | .blanks count =>
        (s.buffer.appendBlanks room count placeholder).map fun b =>
          ({ s with buffer := b }, none) := by
  cases gap with
  | split => exact (handsOut_breakingOff glyph).inPlace
  | blanks count =>
    refine (InPlace.ite (HandsOut.of_alters .skip).inPlace (.ofExcept fun t =>
      (HandsOut.of_alters (.bind (.alterBuffer _) (.alterBuffer _))).inPlace)).of_eq fun s => ?_
    simp only [ParagraphBuffer.appendBlanks]
    split
    · rfl
    · cases ParagraphBuffer.blanks room count.toNat placeholder <;> rfl

theorem inPlace_stayingOnLine (previous glyph : Glyph α) :
    InPlace take (stayingOnLine take previous glyph) fun s => s.sameLine previous glyph := by
  refine (InPlace.look fun s => .ofExcept fun gap =>
    inPlace_takingGap s.options.machine.room s.options.placeholder glyph gap).of_eq fun s => ?_
  unfold Segmenter.sameLine
  cases judge s.options.wordGapTolerance (gap? previous glyph) with
  | error e => rfl
  | ok gap =>
    cases gap with
    | split => rfl
    | blanks count =>
      simp only [bind, Except.bind]
      cases s.buffer.appendBlanks s.options.machine.room count s.options.placeholder <;> rfl

theorem alters_mergingLine (previous glyph : Glyph α) (spacing : α) :
    Alters (mergingLine previous glyph spacing : Act (Delivery α τ) Unit) fun s =>
      s.mergeLine previous glyph spacing := by
  refine (Alters.bind (.alterBuffer _) (.look fun s => .bind (.alterBuffer _)
    (.whenever (.bind (.whenever (.alterBuffer _)) (.alterBuffer _))))).of_eq fun s => ?_
  unfold Segmenter.mergeLine
  dsimp only
  by_cases hfirst : (s.options.correctsIndent && !s.buffer.indentApplied) = true
  · rw [if_pos hfirst, if_pos hfirst]
    by_cases hindent : 0 < (s.buffer.metrics.getD (.start glyph)).indent glyph
    · simp only [Option.getD_some, if_pos hindent]
      rfl
    · simp only [Option.getD_some, if_neg hindent]
      rfl
  · rw [if_neg hfirst, if_neg hfirst]
    rfl

theorem handsOut_addingLine (previous glyph : Glyph α) (spacing : α) :
    HandsOut take (addingLine take previous glyph spacing) fun s =>
      let s := { s with spacing := some spacing, lastLineStart := s.lineStart,
                        lineStart := some glyph }
      if previous.text != Text.lit " " && startsAligned s.options s.lastLineStart s.lineStart
          && s.marginsAgree previous glyph then
        (s.mergeLine previous glyph spacing, none)
      else s.breakBefore glyph :=
  .after (.alter _) (.after (.alter _) (.after (.alter _) (.look fun _ =>
    .ite (.of_alters (alters_mergingLine previous glyph spacing)) (handsOut_breakingOff glyph))))

theorem handsOut_turningLine (previous glyph : Glyph α) (spacing : α) :
    HandsOut take (turningLine take previous glyph spacing) fun s =>
      s.newLine previous glyph spacing :=
  .after (.alter _) (.after (.alter _) (.look fun _ =>
    .ite (handsOut_breakingOff glyph) (handsOut_addingLine previous glyph spacing)))

omit [Scalar α] in
theorem alters_puttingText (markup raw : Text) (terminator : Bool) :
    Alters (puttingText markup raw terminator : Act (Delivery α τ) Unit) fun s =>
      { s with buffer := s.buffer.appendText markup raw terminator } := by
  refine (Alters.look fun s => .bind (.whenever (.bind (.alterBuffer _) (.alterBuffer _)))
    (.bind (.alterBuffer _) (.bind (.alterBuffer _)
      (.whenever (.bind (.alterBuffer _) (.alterBuffer _)))))).of_eq ?_
  rintro ⟨options, ⟨parts, plain, metrics, face, size, sentenceOpen, indentApplied⟩⟩
  cases sentenceOpen <;> cases terminator <;> rfl

theorem alters_puttingIn (glyph : Glyph α) :
    Alters (puttingIn fonts glyph : Act (Delivery α τ) Unit) fun s =>
      { s.append fonts glyph with previous := s.previous } := by
  refine (Alters.bind (.alterBuffer _) (.bind (.alterBuffer _) (.bind (.alterBuffer _)
    (.look fun _ => alters_puttingText _ _ _)))).of_eq fun s => ?_
  unfold Segmenter.append
  cases s.buffer.metrics <;> rfl

theorem inPlace_makingRoom (glyph : Glyph α) :
    InPlace take (makingRoom take glyph) fun s => s.advance glyph := by
  -- The state that is looked at is the one that is changed, but the steps do not know.
  refine InPlace.look (F := fun seen s => match seen.previous with
    | none =>
      .ok ({ s with lineStart := some glyph, lastLineStart := none, leftMargin := some glyph.x },
        none)
    | some previous =>
      if Scalar.greater previous.height glyph.height < Scalar.abs (previous.y - glyph.y) then
        .ok (s.newLine previous glyph (Scalar.abs (previous.y - glyph.y)))
      else s.sameLine previous glyph) fun seen => ?_
  cases seen.previous with
  | none => exact (HandsOut.of_alters (.bind (.alter _) (.bind (.alter _) (.alter _)))).inPlace
  | some previous =>
    exact .ite (handsOut_turningLine previous glyph _).inPlace
      (inPlace_stayingOnLine previous glyph)

/-- A glyph is taken in place as `Segmenter.feed` says. -/
theorem inPlace_feeding (glyph : Glyph α) :
    InPlace take (feeding take fonts glyph) fun s => s.feed fonts glyph := by
  refine ((inPlace_makingRoom glyph).followed
    (.bind (alters_puttingIn glyph) (.alter _)) fun _ => rfl).of_eq fun s => ?_
  unfold Segmenter.feed
  cases s.advance glyph <;> rfl

theorem alters_forgetting : Alters (forgetting : Act (Delivery α τ) Unit) Segmenter.reset := by
  refine (Alters.bind (.alterBuffer _) (.bind (.alter _) (.bind (.alter _) (.bind (.alter _)
    (.bind (.alter _) (.bind (.alter _) (.alter _))))))).of_eq fun s => ?_
  rfl

end Folio.Delivery
