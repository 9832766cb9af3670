import Folio.Proofs.Layout.Written
import Folio.Proofs.Text.Surrogate

/-!
# Outputs that cannot take every text

Two layouts are given the same document, and the output of the first takes everything while that of
the second takes only what UTF-8 can write. `Thinned` says what they have in common: the second has
written what the first has, but for paragraphs with surrogates, and each of these it has counted as
a failure instead of as a paragraph.

Everything that can be heard of a page keeps them so and has one answer for both
(`tracks_beginPage`, `tracks_addGlyph`, `tracks_addOperator`, `tracks_endPage`), for what is not
written is always a paragraph: all else that is written is made of constants, numbers, the unit and
the data of pictures.
-/

namespace Folio

open Text (lit)

/-! ## What is lost -/

/-- The counters `t` count that many of the paragraphs of `u` as failures. -/
structure Tally.Lacks (t : Tally) (lost : Nat) (u : Tally) : Prop where
  pages : t.pages = u.pages
  paragraphs : t.paragraphs + lost = u.paragraphs
  rules : t.rules = u.rules
  pictures : t.pictures = u.pictures
  skippedPictures : t.skippedPictures = u.skippedPictures
  unsupportedFonts : t.unsupportedFonts = u.unsupportedFonts
  failures : t.failures = u.failures + lost

namespace Tally.Lacks

variable {t u : Tally} {lost : Nat}

theorem addParagraph (h : t.Lacks lost u) :
    ({ t with paragraphs := t.paragraphs + 1 } : Tally).Lacks lost
      { u with paragraphs := u.paragraphs + 1 } :=
  { h with paragraphs := (Nat.add_right_comm _ _ _).trans (congrArg (· + 1) h.paragraphs) }

theorem loseParagraph (h : t.Lacks lost u) :
    ({ t with failures := t.failures + 1 } : Tally).Lacks (lost + 1)
      { u with paragraphs := u.paragraphs + 1 } :=
  { h with
    paragraphs := congrArg (· + 1) h.paragraphs
    failures := congrArg (· + 1) h.failures }

/-- The counters agree if nothing is lost, and only then. -/
theorem eq_iff (h : t.Lacks lost u) : t = u ↔ lost = 0 := by
  obtain ⟨hpages, hparagraphs, hrules, hpictures, hskipped, hfonts, hfailures⟩ := h
  constructor
  · rintro rfl
    omega
  · rintro rfl
    cases t
    cases u
    simp_all

end Tally.Lacks

namespace Output

/-- The output takes the texts that UTF-8 can write and refuses all others. -/
def TakesEncodable (o : Output) : Prop := ∀ n t, (o.refuses n t).isNone = t.isEncodable

theorem takesEncodable_toFile (place : FilePath) : (toFile place).TakesEncodable := by
  intro n t
  simp only [toFile, Text.isEncodable]
  cases t.any CodePoint.isSurrogate <;> rfl

variable {o : Output} {t : Text}

theorem accepts_of_takesEncodable (h : o.TakesEncodable) (t : Text) :
    o.accepts t = t.isEncodable := h _ t

theorem answer_of_takesEncodable (h : o.TakesEncodable) (ht : t.isEncodable = true) :
    o.answer t = .ok () :=
  answer_eq_ok_iff.mpr ((accepts_of_takesEncodable h t).trans ht)

/-- How many of the pieces UTF-8 cannot write. -/
def lost (o : Output) : Nat := o.pieces.countP fun t => !t.isEncodable

end Output

namespace Layout

variable {α : Type} [Scalar α]

/-- The counters as they will be when the document has ended: with the failures of the segmenter. -/
def total (l : Layout α) : Tally := { l.tally with failures := l.failed }

/-- The second layout has come to the same point of the document, and its output has what that of
the first has, but for paragraphs that UTF-8 cannot write. -/
structure Thinned (options : Options α) (l m : Layout α) : Prop where
  takesAll : l.emitter.output.TakesAll
  takesEncodable : m.emitter.output.TakesEncodable
  options_left : l.options = options
  options_right : m.options = options
  unit_left : l.emitter.unit = options.unit
  unit_right : m.emitter.unit = options.unit
  fonts : l.fonts = m.fonts
  page : l.page = m.page
  path : l.path = m.path
  segmenter : l.segmenter.withFailures 0 = m.segmenter.withFailures 0
  pieces : m.emitter.output.pieces = l.emitter.output.pieces.filter Text.isEncodable
  paragraphs : ∀ t ∈ l.emitter.output.pieces, t.isEncodable = false →
    ∃ p : Paragraph α, t = Html.paragraph options.unit options.fallbackFamily p
  total : m.total.Lacks l.emitter.output.lost l.total

theorem thinned_start (options : Options α) (place : FilePath) (files files' : FileTree) :
    Thinned options (start options .memory files) (start options (.toFile place) files') where
  takesAll _ _ := rfl
  takesEncodable := Output.takesEncodable_toFile place
  options_left := rfl
  options_right := rfl
  unit_left := rfl
  unit_right := rfl
  fonts := rfl
  page := rfl
  path := rfl
  segmenter := rfl
  pieces := rfl
  paragraphs _ ht := absurd ht List.not_mem_nil
  total := ⟨rfl, rfl, rfl, rfl, rfl, rfl, rfl⟩

namespace Thinned

open Act (Tracks)

variable {options : Options α} {l m : Layout α}

/-! ## Writing -/

omit [Scalar α] in
theorem takesAll_attempted (h : l.emitter.output.TakesAll) (t : Text) (isOpen : Bool) :
    (l.attempted t isOpen).emitter.output.TakesAll := by
  intro n u
  rw [attempted_refuses]
  exact h n u

omit [Scalar α] in
theorem takesEncodable_attempted (h : l.emitter.output.TakesEncodable) (t : Text)
    (isOpen : Bool) : (l.attempted t isOpen).emitter.output.TakesEncodable := by
  intro n u
  rw [attempted_refuses]
  exact h n u

omit [Scalar α] in
theorem lost_attempted (h : l.emitter.output.TakesAll) (t : Text) (isOpen : Bool) :
    (l.attempted t isOpen).emitter.output.lost
      = l.emitter.output.lost + if t.isEncodable then 0 else 1 := by
  have hpieces : (l.attempted t isOpen).emitter.output.pieces = t :: l.emitter.output.pieces := by
    rw [attempted_pieces, if_pos (Output.accepts_of_takesOn h.takesOn t)]
  rw [Output.lost, hpieces, List.countP_cons]
  cases t.isEncodable <;> rfl

/-- What UTF-8 can write goes to both outputs. -/
theorem attempted (h : Thinned options l m) {t : Text} (ht : t.isEncodable = true)
    (isOpen isOpen' : Bool) : Thinned options (l.attempted t isOpen) (m.attempted t isOpen') := by
  have hleft := Output.accepts_of_takesOn h.takesAll.takesOn t
  have hright := (Output.accepts_of_takesEncodable h.takesEncodable t).trans ht
  refine { h with
    takesAll := ?_, takesEncodable := ?_, pieces := ?_, paragraphs := ?_, total := ?_ }
  · exact takesAll_attempted h.takesAll t isOpen
  · exact takesEncodable_attempted h.takesEncodable t isOpen'
  · rw [attempted_pieces, attempted_pieces, if_pos hleft, if_pos hright,
      List.filter_cons_of_pos ht, h.pieces]
  · rw [attempted_pieces, if_pos hleft]
    refine List.forall_mem_cons.mpr ⟨fun hnot => ?_, h.paragraphs⟩
    rw [ht] at hnot
    cases hnot
  · rw [lost_attempted h.takesAll, ht, if_pos rfl, Nat.add_zero]
    exact h.total

theorem tracks_report (log : Log) : (report log).Tracks (Thinned options) :=
  .modify fun _ _ h => { h with }

theorem tracks_count {f : Tally → Tally} (hf : ∀ (lost : Nat) (l m : Layout α),
    m.total.Lacks lost l.total → ({ m with tally := f m.tally } : Layout α).total.Lacks lost
      ({ l with tally := f l.tally } : Layout α).total) :
    (count f : Act (Layout α) Unit).Tracks (Thinned options) :=
  .modify fun l m h => { h with total := hf _ l m h.total }

omit [Scalar α] in
/-- A failure that is counted at once counts as much as one in the segmenter. -/
theorem total_addFailure {lost : Nat} (h : m.total.Lacks lost l.total) :
    ({ m with tally := { m.tally with failures := m.tally.failures + 1 } } : Layout α).total.Lacks
      lost ({ l with tally := { l.tally with failures := l.tally.failures + 1 } } : Layout α).total := by
  refine { h with failures := ?_ }
  have hcount : m.tally.failures + m.segmenter.failures
      = l.tally.failures + l.segmenter.failures + lost := h.failures
  show m.tally.failures + 1 + m.segmenter.failures
    = l.tally.failures + 1 + l.segmenter.failures + lost
  omega

theorem tracks_emit {act : Act Emitter Unit} {t : Text} (ht : t.isEncodable = true)
    (hact : ∀ l : Layout α, l.emitter.unit = options.unit →
      ∃ isOpen, (emit act).run l = (l.emitter.output.answer t, l.attempted t isOpen)) :
    (emit act : Act (Layout α) Unit).Tracks (Thinned options) := by
  intro l m h
  obtain ⟨isOpen, hl⟩ := hact l h.unit_left
  obtain ⟨isOpen', hm⟩ := hact m h.unit_right
  rw [hl, hm, Output.answer_of_takesOn h.takesAll.takesOn,
    Output.answer_of_takesEncodable h.takesEncodable ht]
  exact ⟨rfl, h.attempted ht _ _⟩

/-- A paragraph goes to both outputs, or it is lost to the second, which counts a failure. -/
theorem tookParagraph (h : Thinned options l m) (p : Paragraph α) :
    Thinned options (l.tookParagraph p) (m.tookParagraph p) := by
  let t := Html.paragraph options.unit options.fallbackFamily p
  have hl : l.paragraphHtml p = t := by rw [paragraphHtml, h.unit_left, h.options_left]
  have hm : m.paragraphHtml p = t := by rw [paragraphHtml, h.unit_right, h.options_right]
  have hleft := Output.accepts_of_takesOn h.takesAll.takesOn t
  have hright := Output.accepts_of_takesEncodable h.takesEncodable t
  simp only [Layout.tookParagraph, hl, hm, hleft, hright, if_true]
  cases ht : t.isEncodable with
  | true =>
    have hwritten := h.attempted ht l.emitter.pageOpen m.emitter.pageOpen
    exact { hwritten with total := hwritten.total.addParagraph }
  | false =>
    have hlost := lost_attempted h.takesAll t l.emitter.pageOpen
    rw [ht, if_neg Bool.false_ne_true] at hlost
    refine { h with
      takesAll := ?_, takesEncodable := ?_, pieces := ?_, paragraphs := ?_, total := ?_ }
    · exact takesAll_attempted h.takesAll t _
    · exact takesEncodable_attempted h.takesEncodable t _
    · rw [attempted_pieces, attempted_pieces, hleft, hright, ht, if_pos rfl,
        if_neg Bool.false_ne_true, List.filter_cons_of_neg (by rw [ht]; exact Bool.false_ne_true),
        h.pieces]
    · rw [attempted_pieces, if_pos hleft]
      exact List.forall_mem_cons.mpr ⟨fun _ => ⟨p, rfl⟩, h.paragraphs⟩
    · show Tally.Lacks _ (l.attempted t l.emitter.pageOpen).emitter.output.lost _
      rw [hlost]
      exact h.total.loseParagraph

theorem tracks_takeParagraph (out : Option (Paragraph α)) :
    (takeParagraph out).Tracks (Thinned options) := by
  intro l m h
  rw [run_takeParagraph, run_takeParagraph]
  cases out with
  | none => exact ⟨rfl, h⟩
  | some p => exact ⟨rfl, h.tookParagraph p⟩

/-! ## Rules -/

theorem tracks_takeRules (hunit : options.unit.isEncodable = true) (width : α)
    (segments : List (Segment α)) :
    (takeRules (segments.map (·.rule width))).Tracks (Thinned options) := by
  induction segments with
  | nil => exact .pure _
  | cons s segments ih =>
    rw [List.map_cons, takeRules]
    have hrule : (emit (Emitter.rule (s.rule width))).Tracks (Thinned options) :=
      tracks_emit (Html.isEncodable_rule hunit s width) fun l hl =>
        ⟨_, hl ▸ run_emit_eq (Emitter.run_rule_eq (s.rule width) l.emitter)⟩
    refine Tracks.bind (.tryCatch (.bind hrule fun _ => tracks_count fun _ _ _ h => ?_) fun _ =>
      .bind (tracks_report _) fun _ => tracks_count fun _ _ _ h => ?_) fun _ => ih
    · exact { h with rules := congrArg (· + 1) h.rules }
    · exact total_addFailure h

theorem tracks_draw (f : Path α → Path α) : (draw f).Tracks (Thinned options) :=
  .modify fun _ _ h => { h with path := congrArg f h.path }

theorem tracks_stroke (hunit : options.unit.isEncodable = true) (op : Operator α) :
    (stroke op).Tracks (Thinned options) := by
  refine .get_bind (fun l m h => by rw [h.path]) fun l => ?_
  exact .bind (.modify fun _ _ h => { h with path := rfl }) fun _ =>
    tracks_takeRules hunit _ l.path.segments

theorem tracks_parts : Parts fun {_} x => (x : Act (Layout α) _).Tracks (Thinned options) where
  toComposes := Act.Tracks.composes _
  page hsame hg := .get_bind (fun _ _ h => hsame _ _ h.page) hg
  report := tracks_report

/-! ## Pictures -/

/-- Pictures that go into the page itself have one address wherever they are placed. -/
theorem tracks_place (hinline : options.emission = .inline) (raster : Raster)
    (page user : Affine α) : (place raster page user).Tracks (Thinned options) := by
  intro l m h
  have hplacing : (Placer.place options raster page user).Tracks fun _ _ => True :=
    Placer.place_of_parts options (Act.Tracks.composes _) (fun _ => .modify fun _ _ h => h)
      (fun image p q h => by rw [Placer.emit, hinline]; exact ⟨rfl, h⟩) raster page user
  have hanswer : (placing l.options raster page user l.placer).1
      = (placing m.options raster page user m.placer).1 := by
    rw [h.options_left, h.options_right]
    exact (hplacing _ _ trivial).1
  rw [run_place_eq, run_place_eq]
  exact ⟨hanswer, { h with }⟩

omit [Scalar α] in
/-- A JPEG or a PNG is encoded as the one or the other. -/
theorem isEncodable_format {raster : Raster} (hraster : raster.IsStreamed) {image : EncodedImage}
    (himage : (ImageEncoding.encode raster).1 = .ok image) : image.format.isEncodable = true := by
  have hjpeg : (ImageEncoding.normalFormat (lit "jpeg")).isEncodable = true := by
    decide +kernel
  have hpng : (ImageEncoding.normalFormat (lit "png")).isEncodable = true := by
    decide +kernel
  obtain ⟨format, hformat, himage⟩ := ImageEncoding.format_of_encode himage
  rcases himage with himage | himage <;> rw [himage]
  · rcases hraster with hraster | hraster <;> rw [Raster.format?, hraster] at hformat <;>
      cases hformat
    · exact hjpeg
    · exact hpng
  · exact Text.isEncodable_lit _

/-- The address of a JPEG or a PNG that goes into the page is made of its format and its data. -/
theorem isEncodable_of_place (hinline : options.emission = .inline) {raster : Raster}
    (hraster : raster.IsStreamed) {page user : Affine α} {p : Picture α}
    (hp : ((place raster page user).run l).1 = .ok (some p)) (hl : l.options = options) :
    p.source.isEncodable = true := by
  have hreport : ∀ log, (Placer.report log).Yields (fun _ => True) fun _ => True :=
    fun log => .of_keeps fun _ _ => trivial
  have hformat : ∀ image, (ImageEncoding.encode raster).1 = .ok image →
      image.dataAddress.isEncodable = true := by
    intro image himage
    simp [EncodedImage.dataAddress, EncodedImage.mediaType, Bytes.isEncodable_base64,
      isEncodable_format hraster himage]
  have hemit : ∀ image : EncodedImage, image.dataAddress.isEncodable = true →
      (Placer.emit options image).Yields (fun _ => True) fun t => t.isEncodable = true := by
    intro image himage
    rw [Placer.emit, hinline]
    exact .pure himage
  have hplaced : (Placer.place options raster page user).Yields (fun _ => True)
      fun found => ∀ p ∈ found, p.source.isEncodable = true := by
    have hnone : ∀ p ∈ (none : Option (Picture α)), p.source.isEncodable = true :=
      fun _ h => absurd h (Option.not_mem_none _)
    unfold Placer.place
    split
    · exact .bind (hreport _) fun _ _ => .pure hnone
    · split
      · exact .bind (hreport _) fun _ _ => .pure hnone
      · refine .bind (.of_keeps (.ofExcept _)) fun width _ =>
          .bind (.of_keeps (.ofExcept _)) fun height _ =>
            .bind (.of_keeps (.ofExcept _)) fun extent _ => .bind (hreport _) fun _ _ => ?_
        refine .bind (.ofExcept hformat) fun image himage =>
          .bind (hemit image himage) fun source hsource => .pure fun p hp => ?_
        cases hp
        exact hsource
  rw [run_place_eq, hl] at hp
  exact (hplaced _ trivial).2 _ hp p rfl

/-! ## Operators -/

theorem tracks_drawPlaced (hunit : options.unit.isEncodable = true) {p : Picture α}
    (hp : p.source.isEncodable = true) : (drawPlaced p).Tracks (Thinned options) :=
  .bind (tracks_emit (Html.isEncodable_picture hunit hp) fun l hl =>
    ⟨_, hl ▸ run_emit_eq (Emitter.run_picture_eq p l.emitter)⟩) fun _ =>
      tracks_count fun _ _ _ h => { h with pictures := congrArg (· + 1) h.pictures }

theorem tracks_addPicture (hunit : options.unit.isEncodable = true)
    (hinline : options.emission = .inline) {raster : Raster} (hraster : raster.IsStreamed)
    (user : Affine α) : (addPicture raster user).Tracks (Thinned options) := by
  intro l m h
  cases hpage : l.page with
  | none =>
    rw [run_addPicture_of_none hpage, run_addPicture_of_none (h.page ▸ hpage)]
    exact ⟨rfl, h⟩
  | some page =>
    obtain ⟨hanswer, hplaced⟩ := tracks_place hinline raster page.transform user l m h
    have hsource : ∀ p, ((place raster page.transform user).run l).1 = .ok (some p) →
        p.source.isEncodable = true :=
      fun p hp => isEncodable_of_place hinline hraster hp h.options_left
    rw [run_addPicture_of_page hpage, run_addPicture_of_page (h.page ▸ hpage)]
    rcases hl : (place raster page.transform user).run l with ⟨answer, l'⟩
    rcases hm : (place raster page.transform user).run m with ⟨answer', m'⟩
    rw [hl, hm] at hanswer hplaced
    rw [hl] at hsource
    obtain rfl : answer = answer' := hanswer
    rcases answer with fault | _ | picture
    · simp only
      split
      · exact ⟨rfl, { hplaced with total := { total_addFailure hplaced.total with
          skippedPictures := congrArg (· + 1) hplaced.total.skippedPictures } }⟩
      · exact ⟨rfl, hplaced⟩
    · exact ⟨rfl, { hplaced with total := { hplaced.total with
        skippedPictures := congrArg (· + 1) hplaced.total.skippedPictures } }⟩
    · exact tracks_drawPlaced hunit (hsource picture rfl) _ _ hplaced

theorem tracks_skipped :
    (count fun t => { t with skippedPictures := t.skippedPictures + 1 } :
      Act (Layout α) Unit).Tracks (Thinned options) :=
  tracks_count fun _ _ _ h => { h with skippedPictures := congrArg (· + 1) h.skippedPictures }

theorem tracks_addOperator (hunit : options.unit.isEncodable = true)
    (hinline : options.emission = .inline) {op : Operator α}
    (hop : ∀ r ∈ op.resources, r.AreStreamed) : (addOperator op).Tracks (Thinned options) := by
  refine tracks_parts.addOperator (fun page verb _ => ?_) fun _ => ?_
  · exact tracks_parts.drawPath (fun f _ => tracks_draw f) (tracks_stroke hunit op) page verb
  · intro l m h
    rw [drawObject, Act.run_bind, Act.run_bind, Act.run_ofExcept, Act.run_ofExcept]
    rcases hfound : picture? op with e | _ | ⟨name, picture⟩
    · exact ⟨rfl, h⟩
    · exact ⟨rfl, h⟩
    · obtain ⟨resources, hresources, key, hlisted⟩ := mem_objects_of_picture? hfound
      have hstreamed : (ExternalObject.picture picture).IsStreamed := hop _ hresources _ hlisted
      simp only
      cases hdecoded : picture.decoded with
      | raster raster =>
        exact tracks_addPicture hunit hinline (hstreamed raster hdecoded) op.ctm l m h
      | nothing => exact (tracks_report _).bind (fun _ => tracks_skipped) l m h
      | failed cause => exact (tracks_report _).bind (fun _ => tracks_skipped) l m h

/-! ## Glyphs -/

theorem tracks_addGlyph (glyph : Glyph α) : (addGlyph glyph).Tracks (Thinned options) := by
  intro l m h
  cases hpage : l.page with
  | none =>
    rw [run_addGlyph_of_none hpage, run_addGlyph_of_none (h.page ▸ hpage)]
    exact ⟨rfl, h⟩
  | some page =>
    rw [run_addGlyph_of_page hpage, run_addGlyph_of_page (h.page ▸ hpage)]
    rcases Segmenter.feed_congr h.segmenter l.fonts glyph with
      ⟨e, hl, hm⟩ | ⟨s, s', out, hl, hm, hs⟩
    · rw [h.fonts] at hm
      rw [hl, hm]
      exact ⟨rfl, h⟩
    · have hfailures := Segmenter.failures_feed hl
      have hfailures' := Segmenter.failures_feed hm
      rw [h.fonts] at hm
      rw [hl, hm]
      refine tracks_takeParagraph out _ _ { h with segmenter := hs, total := ?_ }
      simp only [Layout.total, failed, hfailures, hfailures']
      exact h.total

/-! ## Pages -/

theorem tracks_finishPage : (finishPage : Act (Layout α) Unit).Tracks (Thinned options) := by
  have hend : (emit Emitter.pageEnd).Tracks (Thinned options) :=
    tracks_emit Html.isEncodable_pageEnd fun l _ => ⟨_, run_emit_pageEnd l⟩
  refine .bind (.modify fun _ _ h => { h with path := congrArg Path.discard h.path }) fun _ =>
    .bind hend fun _ => .bind (tracks_count fun _ _ _ h => ?_) fun _ =>
      .modify fun _ _ h => { h with page := rfl }
  exact { h with pages := congrArg (· + 1) h.pages }

theorem tracks_endPage : (endPage : Act (Layout α) Unit).Tracks (Thinned options) := by
  intro l m h
  cases hpage : l.page with
  | none =>
    rw [run_endPage_of_none hpage, run_endPage_of_none (h.page ▸ hpage)]
    exact ⟨rfl, h⟩
  | some page =>
    obtain ⟨hout, hafter⟩ := Segmenter.endPage_congr h.segmenter
    have hheld : Thinned options { l with segmenter := l.segmenter.endPage.1 }
        { m with segmenter := m.segmenter.endPage.1 } := by
      refine { h with segmenter := hafter, total := ?_ }
      simp only [Layout.total, failed, Segmenter.failures_endPage]
      exact h.total
    rw [run_endPage_of_page hpage, run_endPage_of_page (h.page ▸ hpage), ← hout]
    exact tracks_finishPage _ _ (tracks_takeParagraph _ _ _ hheld).2

theorem tracks_beginPage (hunit : options.unit.isEncodable = true) (number : Int)
    (crop : CropBox α) (rotation : Angle α) :
    (beginPage number (some crop) rotation).Tracks (Thinned options) := by
  have hforgotten : (endForgottenPage number).Tracks (Thinned options) := by
    refine .get_bind (fun l m h => by rw [h.page]) fun l => ?_
    split
    · exact .pure _
    · exact .bind (tracks_report _) fun _ => tracks_endPage
  refine .bind hforgotten fun _ => .bind (.ofExcept _) fun turn =>
    .bind (tracks_report _) fun _ => .bind (.modify fun l m h => ?_) fun _ => ?_
  · let page := Page.frame number (some crop) turn.1
    exact { h with
      page := rfl
      path := congrArg (fun path : Path α => path.reset page.transform) h.path
      segmenter := congrArg (fun s : Segmenter α => s.beginPage page.width) h.segmenter }
  · have hpage := Html.isEncodable_pageStart options.unit number crop turn.1
    exact tracks_emit (hpage.trans hunit) fun l hl =>
      ⟨_, hl ▸ run_emit_eq (Emitter.run_pageStart_eq _ l.emitter)⟩

/-- With a unit that UTF-8 cannot write no page begins in an output that takes nothing else. -/
theorem beginPage_refused (h : Thinned options l m) (hunit : options.unit.isEncodable = false)
    (hpage : m.page = none) (number : Int) (crop : CropBox α) (rotation : Angle α) :
    ((beginPage number (some crop) rotation).run m).1 ≠ .ok () := by
  rw [run_beginPage_of_none hpage]
  cases rotation.rotation with
  | error e => exact fun h => by cases h
  | ok turn =>
    let page := Page.frame number (some crop) turn.1
    simp only [run_emit_pageStart_eq]
    intro hanswer
    have htaken : (Html.pageStart m.emitter.unit page).isEncodable = true :=
      (Output.accepts_of_takesEncodable h.takesEncodable _).symm.trans
        (Output.answer_eq_ok_iff.mp hanswer)
    rw [Html.isEncodable_pageStart, h.unit_right, hunit] at htaken
    cases htaken

theorem tracks_addFonts (found : Option (Catalog α × Nat)) :
    (addFonts found).Tracks (Thinned options) := by
  have hcount : (countFonts : Act (Layout α) Unit).Tracks (Thinned options) :=
    .modify fun l m h => { h with
      total := { h.total with
        unsupportedFonts := by
          show m.fonts.unsupportedCount = l.fonts.unsupportedCount
          rw [h.fonts] } }
  cases found with
  | none => exact hcount
  | some found =>
    refine .get_bind (fun l m h => by rw [h.fonts]) fun l => ?_
    exact .bind (.modify fun _ _ h => { h with fonts := rfl }) fun _ =>
      .bind (tracks_report _) fun _ => hcount

/-! ## The document -/

/-- A title that was taken by the second output is one that UTF-8 can write. -/
theorem beginDocument (h : Thinned options l m) {title : Option Text} {m' : Layout α}
    (hrun : (Layout.beginDocument title).run m = (.ok (), m')) :
    Thinned options ((Layout.beginDocument title).run l).2 m' := by
  rw [Layout.beginDocument, run_emit_documentStart] at hrun
  obtain ⟨hanswer, rfl⟩ := Prod.ext_iff.mp hrun
  have hencodable : (Html.documentStart (title.getD [])).isEncodable = true := by
    rw [← Output.accepts_of_takesEncodable h.takesEncodable]
    exact Output.answer_eq_ok_iff.mp hanswer
  rw [Layout.beginDocument, run_emit_documentStart]
  exact h.attempted hencodable _ _

/-- With its page ended, a layout has none open in the text, and the end of the document alone is
left to be written. -/
theorem endDocument (h : Thinned options l m) (hl : l.Coherent) (hm : m.Coherent) :
    (Layout.endDocument.run l).1 = (Layout.endDocument.run m).1
      ∧ Thinned options (Layout.endDocument.run l).2 (Layout.endDocument.run m).2 := by
  obtain ⟨hanswer, hended⟩ := tracks_endPage l m h
  rw [Layout.endDocument]
  rcases hrun : endPage.run l with ⟨answer, l'⟩
  rcases hrun' : endPage.run m with ⟨answer', m'⟩
  rw [hrun, hrun'] at hanswer hended
  obtain rfl : answer = answer' := hanswer
  cases answer with
  | error e =>
    rw [Act.run_bind_error hrun, Act.run_bind_error hrun']
    exact ⟨rfl, hended⟩
  | ok =>
    have hwritten := hended.attempted Html.isEncodable_documentEnd false false
    have hfonts := congrArg FontTable.unsupportedCount hended.fonts.symm
    rw [Act.run_bind_ok hrun, Act.run_bind_ok hrun', Act.run_bind, Act.run_bind,
      run_emit_documentEnd (hl.afterEndPage hrun).2, run_emit_documentEnd (hm.afterEndPage hrun').2,
      Output.answer_of_takesOn hended.takesAll.takesOn,
      Output.answer_of_takesEncodable hended.takesEncodable Html.isEncodable_documentEnd]
    exact ⟨rfl, { hwritten with total := { hwritten.total with unsupportedFonts := hfonts } }⟩

end Thinned

/-- When the document has ended, all failures have been counted. -/
theorem total_of_endDocument {l l' : Layout α} (hrun : endDocument.run l = (.ok (), l')) :
    l'.total = l'.tally := by
  obtain ⟨_, l₁, -, hrest⟩ := Act.run_bind_eq_ok hrun
  obtain ⟨_, l₂, -, hrest⟩ := Act.run_bind_eq_ok hrest
  cases hrest
  rfl

end Layout

end Folio
