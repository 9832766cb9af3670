import Folio.Conversion
import Folio.Proofs.Layout.Refusal
import Folio.Proofs.Layout.Labelling

/-!
# What lasts while a document is laid out

Fonts, glyphs and paths come and go, but what has been written and where pictures have been stored
only changes when something is written or a picture is placed. A property that looks at nothing else
(`Lasts`) holds after every request if it survives whatever is written and the picture that the
request draws (`Lasts.perform`), and so it holds however far a document has been heard
(`Press.lasts_of_heard`).

The pictures that are written are those that have been drawn: a request adds at most the one that it
draws (`picture_of_perform`), so each one in the output was drawn on one of the events that were heard
(`Press.picture_of_heard`).
-/

namespace Folio

namespace Layout

variable {α : Type}

/-- The property looks at the options, the output and the placer alone, and lasts through everything
that is written but pictures. -/
structure Lasts (P : Layout α → Prop) : Prop where
  of_eq : ∀ l l' : Layout α, P l → l'.options = l.options → l'.emitter = l.emitter →
    l'.placer = l.placer → P l'
  attempted : ∀ (l : Layout α) t isOpen, Element.picture.marks t = false → P l →
    P (l.attempted t isOpen)

namespace Lasts

variable {P : Layout α → Prop} {l : Layout α}

theorem finishPage (h : Lasts P) (hl : P l) : P (Layout.finishPage.run l).2 := by
  have hdiscarded : P { l with path := l.path.discard } := h.of_eq _ _ hl rfl rfl rfl
  have hwritten := h.attempted _ Html.pageEnd false (Element.marks_pageEnd _) hdiscarded
  rw [run_finishPage]
  cases l.emitter.output.answer Html.pageEnd with
  | error e => exact hwritten
  | ok => exact h.of_eq _ _ hwritten rfl rfl rfl

theorem addFonts (h : Lasts P) (hl : P l) (found : Option (Catalog α × Nat)) :
    P ((Layout.addFonts found).run l).2 := by
  cases found with
  | none => exact h.of_eq _ _ hl rfl rfl rfl
  | some found =>
    obtain ⟨catalog, index⟩ := found
    rw [Layout.addFonts, Act.run_bind_ok (Act.run_get l)]
    rcases l.fonts.update catalog index with ⟨fonts, log⟩
    exact h.of_eq _ _ hl rfl rfl rfl

variable [Scalar α]

theorem tookParagraph (h : Lasts P) (hl : P l) (p : Paragraph α) : P (l.tookParagraph p) :=
  h.of_eq _ _ (h.attempted l (l.paragraphHtml p) _ (Element.marks_paragraph _ _ _ p) hl) rfl rfl rfl

theorem takeParagraph (h : Lasts P) (hl : P l) (out : Option (Paragraph α)) :
    P ((Layout.takeParagraph out).run l).2 := by
  rw [run_takeParagraph]
  cases out with
  | none => exact hl
  | some p => exact h.tookParagraph hl p

theorem takeRules (h : Lasts P) (hl : P l) (rules : List (Rule α)) :
    P ((Layout.takeRules rules).run l).2 := by
  rw [run_takeRules]
  simp only
  induction rules generalizing l with
  | nil => exact hl
  | cons r rules ih =>
    refine ih (l := l.tookRule r) ?_
    exact h.of_eq _ _ (h.attempted l (l.ruleHtml r) _ (Element.marks_rule _ _ r) hl) rfl rfl rfl

theorem endPage (h : Lasts P) (hl : P l) : P (Layout.endPage.run l).2 := by
  cases hpage : l.page with
  | none =>
    rw [run_endPage_of_none hpage]
    exact hl
  | some page =>
    rw [run_endPage_of_page hpage]
    have hheld : P { l with segmenter := l.segmenter.endPage.1 } := h.of_eq _ _ hl rfl rfl rfl
    exact h.finishPage (h.takeParagraph hheld _)

theorem beginPage (h : Lasts P) (hl : P l) (number : Int) (crop : Option (CropBox α))
    (rotation : Angle α) : P ((Layout.beginPage number crop rotation).run l).2 := by
  refine keeps_beginPage_of (fun log => .modify fun l hl => h.of_eq _ _ hl rfl rfl rfl)
    (fun l hl => h.endPage hl) number crop rotation (fun page l hl _ => ?_) l hl
  rw [run_emit_pageStart_eq]
  exact h.attempted _ _ _ (Element.marks_pageStart _ _ _) (h.of_eq _ _ hl rfl rfl rfl)

theorem addGlyph (h : Lasts P) (hl : P l) (glyph : Glyph α) :
    P ((Layout.addGlyph glyph).run l).2 := by
  cases hpage : l.page with
  | none =>
    rw [run_addGlyph_of_none hpage]
    exact hl
  | some page =>
    rw [run_addGlyph_of_page hpage]
    cases l.segmenter.feed l.fonts glyph with
    | error e => exact hl
    | ok fed => exact h.takeParagraph (h.of_eq l { l with segmenter := fed.1 } hl rfl rfl rfl) fed.2

theorem addOperator (h : Lasts P) (hl : P l) {op : Operator α}
    (hpicture : ∀ raster user, (Request.call (.operator op)).raster? = some (raster, user) →
      P ((addPicture raster user).run l).2) : P ((Layout.addOperator op).run l).2 := by
  cases hpage : l.page with
  | none =>
    rw [run_addOperator_of_none hpage]
    exact hl
  | some page =>
    rw [Layout.addOperator, Act.run_bind_ok (Act.run_get l), hpage]
    simp only
    split
    · rw [run_drawPath]
      cases trace page op _ l.path with
      | error e => exact hl
      | ok traced =>
        exact h.takeRules (h.of_eq l { l with path := traced.2 } hl rfl rfl rfl) traced.1
    · split
      next hname =>
        rw [drawObject, Act.run_bind, Act.run_ofExcept]
        rcases hfound : picture? op with e | _ | ⟨name, picture⟩
        · exact hl
        · exact hl
        · simp only
          cases hdecoded : picture.decoded with
          | raster raster =>
            exact hpicture raster op.ctm (by simp [Request.raster?, hname, hfound, hdecoded])
          | nothing => exact h.of_eq _ _ hl rfl rfl rfl
          | failed cause => exact h.of_eq _ _ hl rfl rfl rfl
      next => exact hl

theorem endDocument (h : Lasts P) (hcoherent : l.Coherent) (hl : P l) :
    P (Layout.endDocument.run l).2 := by
  have hended := h.endPage hl
  rw [Layout.endDocument]
  rcases hrun : Layout.endPage.run l with ⟨e | _, l'⟩
  · rw [hrun] at hended
    rw [Act.run_bind_error hrun]
    exact hended
  · rw [hrun] at hended
    have hclosed := (hcoherent.afterEndPage hrun).2
    have hwritten := h.attempted l' Html.documentEnd false (Element.marks_documentEnd _) hended
    rw [Act.run_bind_ok hrun, Act.run_bind, run_emit_documentEnd hclosed]
    cases l'.emitter.output.answer Html.documentEnd with
    | error e => exact hwritten
    | ok => exact h.of_eq _ _ hwritten rfl rfl rfl

/-- What lasts holds after a request if it holds after the picture that the request draws. -/
theorem perform (h : Lasts P) (hcoherent : l.Coherent) (hl : P l) {r : Request α}
    (hpicture : ∀ raster user, r.raster? = some (raster, user) →
      P ((addPicture raster user).run l).2) : P (r.perform.run l).2 := by
  cases r with
  | documentBegin title =>
    rw [Request.perform, beginDocument, run_emit_documentStart]
    exact h.attempted _ _ _ (Element.marks_documentStart _ _) hl
  | documentEnd => exact h.endDocument hcoherent hl
  | call c =>
    cases c with
    | pageBegin number crop rotation => exact h.beginPage hl number crop rotation
    | pageEnd => exact h.endPage hl
    | resources found => exact h.addFonts hl found
    | glyph g => exact h.addGlyph hl g
    | operator op => exact h.addOperator hl hpicture
    | picture raster user => exact hpicture raster user rfl

/-- What holds once a picture has been placed holds after it has been written. -/
theorem addPicture (h : Lasts P) {raster : Raster} {user : Affine α} (hnone : l.page = none → P l)
    (hplaced : ∀ page, l.page = some page → P ((Layout.place raster page.transform user).run l).2)
    (hwritten : ∀ (l : Layout α) (p : Picture α), P l →
      P (l.attempted (l.pictureHtml p) l.emitter.pageOpen)) :
    P ((Layout.addPicture raster user).run l).2 := by
  cases hpage : l.page with
  | none =>
    rw [run_addPicture_of_none hpage]
    exact hnone hpage
  | some page =>
    have hplaced := hplaced page hpage
    rw [run_addPicture_of_page hpage]
    rcases hrun : (Layout.place raster page.transform user).run l with ⟨fault | _ | picture, l'⟩ <;>
      rw [hrun] at hplaced
    · simp only
      split
      · exact h.of_eq l' _ hplaced rfl rfl rfl
      · exact hplaced
    · exact h.of_eq l' _ hplaced rfl rfl rfl
    · have hdrawn := hwritten l' picture hplaced
      simp only
      rw [drawPlaced, Act.run_bind, run_emit_picture]
      cases l'.emitter.output.answer (Html.picture l'.emitter.unit picture) with
      | error e => exact hdrawn
      | ok => exact h.of_eq _ _ hdrawn rfl rfl rfl

/-- A picture leaves what lasts alone if placing and writing it do. -/
theorem keeps_addPicture (h : Lasts P)
    (hplace : ∀ raster page user, (Layout.place raster page user : Act (Layout α) _).Keeps P)
    (hwritten : ∀ (l : Layout α) (p : Picture α), P l →
      P (l.attempted (l.pictureHtml p) l.emitter.pageOpen)) (raster : Raster) (user : Affine α) :
    (Layout.addPicture raster user).Keeps P :=
  fun l hl => h.addPicture (fun _ => hl) (fun page _ => hplace raster page.transform user l hl) hwritten

end Lasts

/-- The options never change. -/
theorem lasts_options (options : Options α) : Lasts fun l : Layout α => l.options = options where
  of_eq _ _ h hoptions _ _ := hoptions.trans h
  attempted _ _ _ _ h := h

/-! ## Pictures that are written -/

variable [Scalar α] {l : Layout α}

/-- A request that draws a picture does nothing else. -/
theorem perform_of_raster? {r : Request α} {raster : Raster} {user : Affine α}
    (h : r.raster? = some (raster, user)) : r.perform.run l = (addPicture raster user).run l := by
  cases r with
  | documentBegin title => cases h
  | documentEnd => cases h
  | call c =>
    cases c with
    | pageBegin | pageEnd | resources | glyph => cases h
    | picture raster' user' =>
      cases h
      rfl
    | operator op =>
      rw [Request.raster?] at h
      split at h
      next hname =>
        split at h
        next found hfound =>
          split at h
          next hdecoded =>
            cases h
            have hverb : PathVerb.ofName? op.name = none := by
              rw [hname]
              decide
            show (addOperator op).run l = _
            cases hpage : l.page with
            | none => rw [run_addOperator_of_none hpage, run_addPicture_of_none hpage]
            | some page =>
              rw [addOperator, Act.run_bind_ok (Act.run_get l), hpage]
              simp only [hverb, if_pos hname]
              rw [drawObject, Act.run_bind, Act.run_ofExcept, hfound]
              simp only [hdecoded]
          next => cases h
        next => cases h
      next => cases h

theorem mem_of_mem_granted {refuses : Nat → Text → Option Fault} {t : Text} :
    ∀ {n : Nat} {ts : List Text}, t ∈ Output.granted (Output.outcomes refuses n ts) → t ∈ ts := by
  intro n ts
  induction ts generalizing n with
  | nil => exact fun h => h
  | cons u ts ih =>
    intro h
    rw [Output.outcomes, Output.granted, List.filter_cons] at h
    split at h
    · rcases List.mem_cons.mp h with rfl | h
      · exact List.mem_cons_self
      · exact List.mem_cons_of_mem _ (ih h)
    · exact List.mem_cons_of_mem _ (ih h)

/-- A box that a request offers is no picture. -/
theorem marks_of_mem_offered {r : Request α} {t : Text} (h : t ∈ l.offered r) :
    Element.picture.marks t = false := by
  rw [offered] at h
  split at h
  · exact absurd h List.not_mem_nil
  · rcases List.mem_append.mp h with h | h
    · obtain ⟨p, -, rfl⟩ := List.mem_map.mp h
      exact Element.marks_paragraph _ _ _ p
    · obtain ⟨rule, -, rfl⟩ := List.mem_map.mp h
      exact Element.marks_rule _ _ rule

omit [Scalar α] in
/-- Nothing but pictures adds pictures to the output. -/
theorem lasts_pictures (pieces : List Text) : Lasts fun l : Layout α =>
    ∀ t ∈ l.emitter.output.pieces, Element.picture.marks t = true → t ∈ pieces where
  of_eq l l' hl _ hemitter _ := by
    rw [hemitter]
    exact hl
  attempted l t isOpen ht hl := by
    rw [attempted_pieces]
    split
    · intro u hu hmarks
      rcases List.mem_cons.mp hu with rfl | hu
      · rw [ht] at hmarks
        cases hmarks
      · exact hl u hu hmarks
    · exact hl

/-- A picture that is in the output after a request was there before or is the one it draws. -/
theorem picture_of_perform (hcoherent : l.Coherent) (r : Request α) {t : Text}
    (ht : t ∈ (r.perform.run l).2.emitter.output.pieces) (hmarks : Element.picture.marks t = true) :
    t ∈ l.emitter.output.pieces ∨ ∃ p, l.pictured r = some p ∧ t = l.pictureHtml p := by
  cases hraster : r.raster? with
  | none =>
    refine .inl ((lasts_pictures l.emitter.output.pieces).perform hcoherent (fun u hu _ => hu) ?_
      t ht hmarks)
    intro raster user h
    rw [hraster] at h
    cases h
  | some drawn =>
    have hcall : ∃ c : Call α, r = .call c ∧ c.channel.isSome = true := by
      cases r with
      | documentBegin title => cases hraster
      | documentEnd => cases hraster
      | call c =>
        refine ⟨c, rfl, ?_⟩
        cases c with
        | pageBegin | pageEnd | resources => cases hraster
        | glyph | operator | picture => rfl
    obtain ⟨c, rfl, hc⟩ := hcall
    have hpieces := (outcome_perform (l := l) hc).pieces
    rw [Request.perform, hpieces, List.mem_append, List.mem_reverse] at ht
    rcases ht with ht | ht
    · rcases List.mem_append.mp (mem_of_mem_granted ht) with ht | ht
      · rw [marks_of_mem_offered ht] at hmarks
        cases hmarks
      · obtain ⟨p, hp, rfl⟩ := List.mem_map.mp ht
        exact .inr ⟨p, Option.mem_toList.mp hp, rfl⟩
    · exact .inl ht

end Layout

/-! ## Documents -/

namespace Press

variable {α : Type} [Scalar α] {P : Layout α → Prop} {first p : Press α}
  {record : Record α (Press α)}

theorem coherent_of_heard (hheard : listener.Heard first record p)
    (hcoherent : first.layout.Coherent) : p.layout.Coherent := by
  induction hheard with
  | start => exact hcoherent
  | @receive record s _ e _ ih =>
    have hkept := Layout.Coherent.keeps_perform (.ofEvent e) s.layout ih
    rw [Layout.perform_ofEvent] at hkept
    exact hkept
  | report _ r ih => exact ih.of_eq rfl rfl rfl rfl rfl rfl ih.placerLog rfl
  | progress _ _ _ ih => exact ih

/-- However far a document has been heard, what lasts has lasted, if it lasts through the pictures
that were drawn. -/
theorem lasts_of_heard (h : Layout.Lasts P) (hheard : listener.Heard first record p)
    (hcoherent : first.layout.Coherent) (hpicture : ∀ entry ∈ record, ∀ raster user,
      (Layout.Request.ofEvent entry.2).raster? = some (raster, user) →
        (Layout.addPicture raster user).Keeps P)
    (hfirst : P first.layout) : P p.layout := by
  induction hheard with
  | start => exact hfirst
  | @receive record s hheard e _ ih =>
    have hbefore := ih fun entry hentry => hpicture entry (List.mem_append_left _ hentry)
    have hlasts := h.perform (coherent_of_heard hheard hcoherent) hbefore (r := .ofEvent e)
      fun raster user hraster => hpicture (s, e)
        (List.mem_append_right _ (List.mem_singleton_self _)) raster user hraster s.layout hbefore
    rw [Layout.perform_ofEvent] at hlasts
    exact hlasts
  | report _ _ ih => exact h.of_eq _ _ (ih hpicture) rfl rfl rfl
  | progress _ _ _ ih => exact ih hpicture

theorem options_of_heard (hheard : listener.Heard first record p)
    (hcoherent : first.layout.Coherent) : p.layout.options = first.layout.options :=
  lasts_of_heard (Layout.lasts_options _) hheard hcoherent
    (fun _ _ raster user _ => (Layout.lasts_options _).keeps_addPicture (fun _ _ _ _ h => h)
      (fun _ _ h => h) raster user) rfl

/-- A picture in the output is one that some event drew. -/
theorem picture_of_heard (hheard : listener.Heard first record p)
    (hcoherent : first.layout.Coherent) (hfirst : first.layout.emitter.output.pieces = [])
    {t : Text} (ht : t ∈ p.layout.emitter.output.pieces)
    (hmarks : Element.picture.marks t = true) :
    ∃ before q e after picture, record = before ++ (q, e) :: after
      ∧ q.layout.pictured (.ofEvent e) = some picture ∧ t = q.layout.pictureHtml picture := by
  induction hheard with
  | start =>
    rw [hfirst] at ht
    exact absurd ht List.not_mem_nil
  | @receive record s h e _ ih =>
    have hkept := coherent_of_heard h hcoherent
    have hlast : t ∈ ((Layout.Request.ofEvent e).perform.run s.layout).2.emitter.output.pieces := by
      rw [Layout.perform_ofEvent]
      exact ht
    rcases Layout.picture_of_perform hkept _ hlast hmarks with hbefore | ⟨picture, hp, hhtml⟩
    · obtain ⟨before, q, e', after, picture, rfl, hp, hhtml⟩ := ih hbefore
      exact ⟨before, q, e', after ++ [(s, e)], picture, by simp, hp, hhtml⟩
    · exact ⟨record, s, e, [], picture, rfl, hp, hhtml⟩
  | report _ _ ih => exact ih ht
  | progress _ _ _ ih => exact ih ht

end Press

end Folio
