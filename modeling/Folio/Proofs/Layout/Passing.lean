import Folio.Proofs.Layout.Call
import Folio.Proofs.Paragraph.Fitting

/-!
# What layout fails at

With the usual options and an output that takes everything (`Steady`), a glyph never fails for good:
a gap between glyphs is undefined, which makes the operator malformed, or it fits at most two
placeholders (`run_addGlyph`). An operator fails for good exactly if one of its operands does
(`asked`), or the size of the picture that it draws (`goesOn_addOperator_iff`). Nothing else in
layout can end a page: writing, segmentation and the encoding of pictures included.
-/

namespace Folio

open Act (GoesOn Passes goesOn_ok goesOn_error_iff)
open Text (lit)

variable {α : Type} [Scalar α]

/-! ## Glyphs -/

/-- The options are the usual ones, on any machine with room for three placeholders. -/
structure Options.IsUsual (options : Options α) : Prop where
  eq : options = { Options.standard with machine := options.machine }
  room : 12 ≤ options.machine.room

theorem Options.isUsual_standard : (Options.standard : Options α).IsUsual where
  eq := rfl
  room := by
    show 12 ≤ Nat.pow 2 34
    decide

namespace Segmenter

/-- With the usual options, only a gap that is undefined makes a glyph fail. -/
theorem goesOn_feed [Scalar.Lawful α] {s : Segmenter α} (hs : s.options.IsUsual)
    (fonts : FontTable α) (glyph : Glyph α) : GoesOn (s.feed fonts glyph) := by
  -- The usual tolerance is two.
  have htolerance : s.options.wordGapTolerance < Scalar.ofNat 3 := by
    rw [hs.eq]
    exact Scalar.ofNat_lt_ofNat (by decide) (by decide)
  have hplaceholder : s.options.placeholder = lit "    " := by rw [hs.eq, Options.standard]
  have hholdable : 3 * s.options.placeholder.length
      ≤ min ParagraphBuffer.maxIndex s.options.machine.room := by
    have hlength : (lit "    ").length = 4 := by decide
    rw [hplaceholder, hlength]
    exact le_min (by decide) hs.room
  rcases feed_or_undefined htolerance (by decide) hholdable fonts glyph with
    ⟨answer, hok⟩ | hundefined
  · rw [hok]
    exact goesOn_ok answer
  · rw [hundefined]
    exact goesOn_error_iff.mpr rfl

end Segmenter

namespace Layout

/-- The layout works with the usual options, and its output takes everything. -/
structure Steady (l : Layout α) : Prop where
  options : l.options.IsUsual
  segmenter : l.segmenter.options.IsUsual
  takesAll : l.emitter.output.TakesAll

namespace Steady

variable {l : Layout α}

theorem wrote (h : l.Steady) (t : Text) (isOpen : Bool) : (l.wrote t isOpen).Steady :=
  ⟨h.options, h.segmenter, wrote_takesAll t isOpen l h.takesAll⟩

theorem survivesOperators : SurvivesOperators (Steady (α := α)) where
  of_drawn l l' h d :=
    ⟨d.options ▸ h.options, d.segmenter ▸ h.segmenter, d.emitter ▸ h.takesAll⟩
  rule := by
    intro s width l h
    rw [run_emit (Emitter.run_rule h.takesAll (s.rule width))]
    exact h.wrote _ _
  picture := by
    intro p l h
    rw [run_emit (Emitter.run_picture h.takesAll p)]
    exact h.wrote _ _

theorem keeps_takeParagraph (out : Option (Paragraph α)) :
    (takeParagraph out).Keeps (Steady (α := α)) := by
  cases out with
  | none => exact .pure _
  | some p =>
    intro l h
    rw [run_takeParagraph_some h.takesAll]
    exact survivesOperators.of_drawn _ _ (h.wrote _ _) ⟨rfl, rfl, rfl, rfl, rfl, rfl, rfl, id⟩

end Steady

/-- A paragraph that cannot be written is dropped. -/
theorem passes_takeParagraph (out : Option (Paragraph α)) :
    (takeParagraph out).Passes fun _ => True := by
  cases out with
  | none => exact .pure _
  | some p =>
    refine .recover fun _ => ?_
    exact .bind (fun _ _ => trivial) (.modify _) fun _ => .modify _

theorem passes_takeRules (rules : List (Rule α)) : (takeRules rules).Passes fun _ => True := by
  induction rules with
  | nil => exact .pure _
  | cons rule rules ih =>
    refine .bind (fun _ _ => trivial) (.recover fun _ => ?_) fun _ => ih
    exact .bind (fun _ _ => trivial) (.modify _) fun _ => .modify _

section

variable [Scalar.Lawful α]

/-- A glyph goes to the segmenter, and the paragraph that it finishes is written. -/
theorem run_addGlyph {l : Layout α} (h : l.Steady) (glyph : Glyph α) :
    ((addGlyph glyph).run l).2.Steady ∧ GoesOn ((addGlyph glyph).run l).1 := by
  rw [addGlyph, Act.run_bind_ok (Act.run_get l)]
  by_cases hpage : l.page.isNone = true
  · rw [if_pos hpage]
    exact ⟨h, goesOn_ok _⟩
  · rw [if_neg hpage]
    have hgoes := Segmenter.goesOn_feed h.segmenter l.fonts glyph
    cases hfeed : l.segmenter.feed l.fonts glyph with
    | error e =>
      rw [Act.run_bind_error (Act.run_ofExcept _ l)]
      rw [hfeed] at hgoes
      exact ⟨h, goesOn_error_iff.mpr (goesOn_error_iff.mp hgoes)⟩
    | ok answer =>
      obtain ⟨s, out⟩ := answer
      rw [Act.run_bind_ok (Act.run_ofExcept _ l), Act.run_bind_ok (Act.run_set _ l)]
      have hnext : Steady { l with segmenter := s } :=
        ⟨h.options, (Segmenter.options_and_previous_of_feed hfeed).1 ▸ h.segmenter, h.takesAll⟩
      exact ⟨Steady.keeps_takeParagraph out _ hnext, passes_takeParagraph out _ trivial⟩

end

end Layout

/-! ## Pictures -/

theorem ImageEncoding.isPictureFault_of_firstSuccess (raster : Raster) (attempts : List Attempt)
    {e : Fault} (h : (firstSuccess raster attempts).1 = .error e) : e.isPictureFault = true := by
  induction attempts with
  | nil =>
    cases h
    rfl
  | cons attempt rest ih =>
    rw [firstSuccess] at h
    split at h
    · cases h
    · split at h
      · cases h
        rfl
      · exact ih h

/-- A picture that cannot be encoded is dropped alone. -/
theorem ImageEncoding.isPictureFault_of_encode {raster : Raster} {e : Fault}
    (h : (encode raster).1 = .error e) : e.isPictureFault = true := by
  unfold encode at h
  split at h
  · cases h
    rfl
  · exact isPictureFault_of_firstSuccess _ _ h

namespace Placer

/-- The size of a picture in coordinates; one that is skipped is not measured. -/
def measure (α : Type) [Scalar α] (raster : Raster) : Except Fault (Option (α × α)) :=
  if raster.format?.isNone ∨ raster.width ≤ 0 ∨ raster.height ≤ 0 then .ok none
  else do
    let width ← Scalar.ofWhole raster.width
    let height ← Scalar.ofWhole raster.height
    return some (width, height)

theorem eq_wholeTooLarge_of_ofWhole {n : Int} {e : Fault}
    (h : (Scalar.ofWhole n : Except Fault α) = .error e) : e = .wholeTooLarge := by
  unfold Scalar.ofWhole at h
  split at h
  · cases h
  · exact (Except.error.inj h).symm

/-- A size is too large, or a picture can be measured. -/
theorem eq_wholeTooLarge_of_measure {raster : Raster} {e : Fault}
    (h : measure α raster = .error e) : e = .wholeTooLarge := by
  unfold measure at h
  split at h
  · cases h
  · cases hwidth : (Scalar.ofWhole raster.width : Except Fault α) with
    | error e' =>
      rw [hwidth] at h
      cases h
      exact eq_wholeTooLarge_of_ofWhole hwidth
    | ok width =>
      cases hheight : (Scalar.ofWhole raster.height : Except Fault α) with
      | error e' =>
        rw [hwidth, hheight] at h
        cases h
        exact eq_wholeTooLarge_of_ofWhole hheight
      | ok height =>
        rw [hwidth, hheight] at h
        cases h

theorem extent_of_ofWhole [Scalar.Lawful α] (page user : Affine α) {m n : Int} (hm : 0 < m)
    (hn : 0 < n) {width height : α} (hwidth : Scalar.ofWhole m = .ok width)
    (hheight : Scalar.ofWhole n = .ok height) : ∃ e, extent page user width height = .ok e := by
  have hnonzero : ∀ (k : Int) (x : α), 0 < k → Scalar.ofWhole k = .ok x → (x == 0) = false := by
    intro k x hk hx
    refine Scalar.Lawful.beq_zero_of_ofInt? k x hk ?_
    unfold Scalar.ofWhole at hx
    split at hx
    · cases hx
      assumption
    · cases hx
  rw [extent, hnonzero m width hm hwidth, hnonzero n height hn hheight]
  exact ⟨_, rfl⟩

omit [Scalar α] in
/-- An address within the page is an answer without further steps. -/
theorem emit_of_inline {options : Options α} (h : options.emission = .inline)
    (image : EncodedImage) : emit options image = pure image.dataAddress := by
  rw [emit, h]
  rfl

/-- Placing a picture fails at its size, or else in a way that drops the picture alone. -/
theorem run_place [Scalar.Lawful α] {options : Options α} (hoptions : options.emission = .inline)
    (raster : Raster) (page user : Affine α) (p : Placer) :
    match measure α raster with
    | .error e => ((place options raster page user).run p).1 = .error e
    | .ok _ => ∀ e, ((place options raster page user).run p).1 = .error e →
      e.isPictureFault = true := by
  unfold measure place
  by_cases hformat : raster.format?.isNone = true
  · rw [if_pos hformat, if_pos (.inl hformat)]
    intro e h
    cases h
  · rw [if_neg hformat]
    by_cases hempty : raster.width ≤ 0 ∨ raster.height ≤ 0
    · rw [if_pos hempty, if_pos (.inr hempty)]
      intro e h
      cases h
    · rw [if_neg hempty, if_neg (not_or.mpr ⟨hformat, hempty⟩)]
      obtain ⟨hm, hn⟩ := not_or.mp hempty
      cases hwidth : (Scalar.ofWhole raster.width : Except Fault α) with
      | error e => exact congrArg Prod.fst (Act.run_bind_error (Act.run_ofExcept _ p))
      | ok width =>
        cases hheight : (Scalar.ofWhole raster.height : Except Fault α) with
        | error e =>
          rw [Act.run_bind_ok (Act.run_ofExcept _ p)]
          exact congrArg Prod.fst (Act.run_bind_error (Act.run_ofExcept _ p))
        | ok height =>
          -- Neither side is zero as a coordinate, so nothing is divided by zero.
          obtain ⟨extent, hextent⟩ :=
            extent_of_ofWhole page user (not_le.mp hm) (not_le.mp hn) hwidth hheight
          show ∀ e, _ → _
          rw [Act.run_bind_ok (Act.run_ofExcept _ p), Act.run_bind_ok (Act.run_ofExcept _ p),
            hextent, Act.run_bind_ok (Act.run_ofExcept _ p)]
          intro e h
          rcases hencode : ImageEncoding.encode raster with ⟨answer, log⟩
          rw [hencode] at h
          cases answer with
          | error e' =>
            have he : e' = e := Except.error.inj h
            exact he ▸ ImageEncoding.isPictureFault_of_encode (congrArg Prod.fst hencode)
          | ok image =>
            simp only [emit_of_inline hoptions] at h
            have hok : (.ok (some ⟨image.dataAddress, extent⟩)
              : Except Fault (Option (Picture α))) = .error e := h
            cases hok

end Placer

namespace Layout

variable [Scalar.Lawful α]

omit [Scalar.Lawful α] in
theorem passes_emit_picture (p : Picture α) :
    (emit (Emitter.picture p)).Passes (Steady (α := α)) := by
  intro l h
  rw [run_emit (Emitter.run_picture h.takesAll p)]
  exact goesOn_ok _

/-- A picture on a page fails for good exactly if its size does. -/
theorem goesOn_addPicture_iff {l : Layout α} (h : l.Steady) {page : Page.Frame α}
    (hpage : l.page = some page) (raster : Raster) (user : Affine α) :
    GoesOn ((addPicture raster user).run l).1 ↔ GoesOn (Placer.measure α raster) := by
  have hsurvives := Steady.survivesOperators (α := α)
  rw [addPicture, Act.run_bind_ok (Act.run_get l), hpage]
  refine (Act.goesOn_run_bind_iff_of_passes (P := Steady) ?_ ?_ h).trans ?_
  · refine .tryCatch (.map _ (hsurvives.place _ _ _)) fun fault => ?_
    split
    · exact .bind (hsurvives.report _) fun _ => .bind (hsurvives.count fun _ => rfl) fun _ =>
        .pure _
    · exact .throw _
  · intro placed
    split
    · exact .modify _
    · exact .modify _
    · exact .bind (hsurvives.picture _) (passes_emit_picture _) fun _ => .modify _
  · have hemission : l.options.emission = .inline := by
      rw [h.options.eq]
      rfl
    have hplaced := Placer.run_place hemission raster page.transform user
      { l.placer with log := [] }
    rw [Act.run_tryCatch, Act.run_map]
    have hanswer : ((place raster page.transform user).run l).1
        = ((Placer.place l.options raster page.transform user).run { l.placer with log := [] }).1 :=
      rfl
    rw [← hanswer] at hplaced
    rcases hrun : (place raster page.transform user).run l with ⟨answer, l'⟩
    rw [hrun] at hplaced
    cases hmeasure : Placer.measure α raster with
    | error e =>
      -- A size that is too large is no fault of the picture alone, so it is thrown again.
      rw [hmeasure] at hplaced
      have he : answer = .error e := hplaced
      rw [he, Placer.eq_wholeTooLarge_of_measure hmeasure]
      exact ⟨fun h => (by cases goesOn_error_iff.mp h), fun h => (by cases goesOn_error_iff.mp h)⟩
    | ok size =>
      rw [hmeasure] at hplaced
      refine ⟨fun _ => goesOn_ok _, fun _ => ?_⟩
      cases answer with
      | ok picture => exact goesOn_ok _
      | error e =>
        have he : e.isPictureFault = true := hplaced e rfl
        show GoesOn ((Act.run (if e.isPictureFault = true then _ else _) l').1)
        rw [if_pos he]
        exact goesOn_ok _

/-! ## Operators -/

omit [Scalar.Lawful α]

theorem passes_stroke (op : Operator α) : (stroke op).Passes fun _ => True :=
  .bind .get .get fun _ =>
    .bind (.modify fun _ _ => trivial) (.modify _) fun _ => passes_takeRules _

/-- How many numbers a path operator reads. -/
def PathVerb.arity : PathVerb → Nat
  | .move | .line => 2
  | .curve n => n
  | .rectangle => 4
  | .close | .stroke | .closeAndStroke | .discard => 0

/-- A path operator fails for good exactly if one of its numbers does. -/
theorem goesOn_drawPath_iff (page : Page.Frame α) (op : Operator α) (verb : PathVerb)
    (l : Layout α) :
    GoesOn ((drawPath page op verb).run l).1 ↔ GoesOn (numbers? op verb.arity) := by
  have hdraw : ∀ f : Path α → Path α, (draw f).Passes fun _ => True := fun f => .modify _
  have hnone : GoesOn (numbers? op 0) := goesOn_ok _
  cases verb with
  | move | line | curve n | rectangle =>
    refine Act.goesOn_run_ofExcept_bind_iff (P := fun _ => True) (fun values => ?_) trivial
    repeat' split
    all_goals first | exact hdraw _ | exact .pure _
  | close => exact ⟨fun _ => hnone, fun _ => hdraw _ l trivial⟩
  | stroke => exact ⟨fun _ => hnone, fun _ => passes_stroke op l trivial⟩
  | closeAndStroke =>
    have hclosed : (draw Path.close >>= fun _ => stroke op).Passes fun _ => True :=
      .bind (fun _ _ => trivial) (hdraw _) fun _ => passes_stroke op
    exact ⟨fun _ => hnone, fun _ => hclosed l trivial⟩
  | discard => exact ⟨fun _ => hnone, fun _ => hdraw _ l trivial⟩

/-- What layout asks of an operator on a page: numbers, or the size of the picture that is named. -/
def asked (op : Operator α) : Except Fault Unit :=
  match PathVerb.ofName? op.name with
  | some verb => (numbers? op verb.arity).map fun _ => ()
  | none =>
    if op.name = lit "Do" then
      match picture? op with
      | .error e => .error e
      | .ok none => .ok ()
      | .ok (some (_, picture)) =>
        match picture.decoded with
        | .raster raster => (Placer.measure α raster).map fun _ => ()
        | _ => .ok ()
    else .ok ()

/-- An operator fails for good exactly if, on a page, what layout asks of it does. -/
theorem goesOn_addOperator_iff [Scalar.Lawful α] {l : Layout α} (h : l.Steady) (op : Operator α) :
    GoesOn ((addOperator op).run l).1 ↔ (l.page.isSome = true → GoesOn (asked op)) := by
  rw [addOperator, Act.run_bind_ok (Act.run_get l)]
  cases hpage : l.page with
  | none => exact ⟨fun _ hnone => (by cases hnone), fun _ => goesOn_ok _⟩
  | some page =>
    refine Iff.trans ?_ (forall_prop_of_true rfl).symm
    rw [asked]
    cases hverb : PathVerb.ofName? op.name with
    | some verb =>
      simp only
      rw [goesOn_drawPath_iff, Act.goesOn_map_iff]
    | none =>
      simp only
      by_cases hname : op.name = lit "Do"
      · rw [if_pos hname, if_pos hname, drawObject]
        cases hpicture : picture? op with
        | error e => rfl
        | ok found =>
          rw [Act.run_bind_ok (Act.run_ofExcept _ l)]
          cases found with
          | none => exact ⟨fun _ => goesOn_ok _, fun _ => goesOn_ok _⟩
          | some found =>
            obtain ⟨name, picture⟩ := found
            simp only
            cases hdecoded : picture.decoded with
            | raster raster =>
              simp only
              rw [goesOn_addPicture_iff h hpage, Act.goesOn_map_iff]
            | nothing => exact ⟨fun _ => goesOn_ok _, fun _ => goesOn_ok _⟩
            | failed cause => exact ⟨fun _ => goesOn_ok _, fun _ => goesOn_ok _⟩
      · rw [if_neg hname, if_neg hname]
        exact ⟨fun _ => goesOn_ok _, fun _ => goesOn_ok _⟩

end Layout

end Folio
