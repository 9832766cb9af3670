import Folio.Proofs.Html.Element
import Folio.Proofs.Image.Storing
import Folio.Proofs.Layout.Past
import Folio.Proofs.Scalar.Rational

/-!
# Glyphs, paths and pictures go through channels of their own

Between the beginning and the end of a page, the paragraphs depend on the glyphs alone, the rules on
the path operators alone and the pictures on the pictures alone. However the three are interleaved,
the same elements of each kind come out in the same order, with the same counters, segmenter and path
in the end (`channels_independent`).

`Agree` says that two layouts are alike as far as a channel looks. A call on that channel does the
same with both (`tracks_perform`), and a call on another channel changes nothing that it looks at
(`keeps_perform`). So the calls on the other channels can be left out (`agree_share`). Channels meet
in the files, where the output lets its text go to a file while pictures are stored in others; the
pictures look at which files there are, and the output at none.
-/

namespace Folio

open Text (lit)

namespace Output

variable {o : Output}

/-- The file that the output goes to is there. -/
def Opened (o : Output) (tree : FileTree) : Prop := ∀ f, o.file = some f → tree.hasFile f.place = true

theorem opened_tried {tree : FileTree} (h : o.Opened tree) (t : Text) : (o.tried t).Opened tree := by
  have hadd : ∀ o' : Output, o'.file = o.file → (o'.add t).Opened tree := by
    intro o' hfile f hf
    rw [add, hfile] at hf
    obtain ⟨file, hopen, rfl⟩ := Option.map_eq_some_iff.mp hf
    exact h file hopen
  unfold tried
  split
  · exact hadd { o with attempts := o.attempts + 1 } rfl
  · exact h

/-- The output takes everything from now on, and the file that it goes to is there. -/
structure Ready (o : Output) (tree : FileTree) : Prop where
  takesOn : o.TakesOn
  opened : o.Opened tree

/-- Letting text go to a file that is there changes no other file and moves none. -/
theorem settle_of_opened {tree : FileTree} (h : o.Opened tree) :
    (o.settle tree).2.hollow = tree.hollow ∧ (o.settle tree).1.Opened (o.settle tree).2 := by
  unfold settle onFile
  cases hfile : o.file with
  | none => exact ⟨rfl, fun f hf => by rw [hfile] at hf; cases hf⟩
  | some file =>
    obtain ⟨hhollow, hplace, hthere⟩ := OpenFile.hollow_settle (h file hfile)
    refine ⟨hhollow, fun f hf => ?_⟩
    cases hf
    show FileTree.hasFile _ (file.settle tree).1.place = true
    rw [hplace]
    exact hthere

end Output

/-- What content goes through. -/
inductive Channel
  | glyphs
  | paths
  | pictures
  deriving DecidableEq, Repr

namespace Channel

/-- What comes out of the channel. -/
def element : Channel → Element
  | glyphs => .paragraph
  | paths => .rule
  | pictures => .picture

theorem element_injective : Function.Injective element := by
  intro k k' h
  cases k <;> cases k' <;> first | rfl | cases h

/-- The counters are the same as far as the channel counts, as are those that no channel counts. -/
structure Counts (k : Channel) (t u : Tally) : Prop where
  pages : t.pages = u.pages
  unsupportedFonts : t.unsupportedFonts = u.unsupportedFonts
  paragraphs : k = glyphs → t.paragraphs = u.paragraphs
  rules : k = paths → t.rules = u.rules
  drawn : k = pictures → t.pictures = u.pictures
  skipped : k = pictures → t.skippedPictures = u.skippedPictures
  failures : k = pictures → t.failures = u.failures

theorem Counts.refl (k : Channel) (t : Tally) : k.Counts t t :=
  ⟨rfl, rfl, fun _ => rfl, fun _ => rfl, fun _ => rfl, fun _ => rfl, fun _ => rfl⟩

theorem Counts.symm {k : Channel} {t u : Tally} (h : k.Counts t u) : k.Counts u t where
  pages := h.pages.symm
  unsupportedFonts := h.unsupportedFonts.symm
  paragraphs hk := (h.paragraphs hk).symm
  rules hk := (h.rules hk).symm
  drawn hk := (h.drawn hk).symm
  skipped hk := (h.skipped hk).symm
  failures hk := (h.failures hk).symm

theorem Counts.trans {k : Channel} {t u v : Tally} (h : k.Counts t u) (h' : k.Counts u v) :
    k.Counts t v where
  pages := h.pages.trans h'.pages
  unsupportedFonts := h.unsupportedFonts.trans h'.unsupportedFonts
  paragraphs hk := (h.paragraphs hk).trans (h'.paragraphs hk)
  rules hk := (h.rules hk).trans (h'.rules hk)
  drawn hk := (h.drawn hk).trans (h'.drawn hk)
  skipped hk := (h.skipped hk).trans (h'.skipped hk)
  failures hk := (h.failures hk).trans (h'.failures hk)

theorem eq_of_counts {t u : Tally} (h : ∀ k : Channel, k.Counts t u) : t = u := by
  obtain ⟨pages, unsupported, paragraphs, -⟩ := h glyphs
  obtain ⟨-, -, -, rules, -⟩ := h paths
  obtain ⟨-, -, -, -, drawn, skipped, failures⟩ := h pictures
  cases t
  cases u
  simp_all

end Channel

namespace Layout

variable {α : Type}

/-- The channel that a call on a page goes through. An operator that is no path operator draws a
picture, or nothing. -/
def Call.channel : Call α → Option Channel
  | glyph _ => some .glyphs
  | operator op => some (if (PathVerb.ofName? op.name).isSome then .paths else .pictures)
  | picture .. => some .pictures
  | pageBegin .. | pageEnd | resources _ => none

theorem Call.channel_of_verb {op : Operator α} {verb : PathVerb}
    (h : PathVerb.ofName? op.name = some verb) : (Call.operator op).channel = some .paths := by
  rw [channel, h]
  rfl

theorem Call.channel_of_no_verb {op : Operator α} (h : PathVerb.ofName? op.name = none) :
    (Call.operator op).channel = some .pictures := by
  rw [channel, h]
  rfl

/-- The calls that go through the channel. -/
def share (k : Channel) (cs : List (Call α)) : List (Call α) := cs.filter fun c => c.channel = some k

/-- The elements of the channel that have been written, the first one first. -/
def written (k : Channel) (l : Layout α) : List Text :=
  (l.emitter.output.pieces.filter k.element.marks).reverse

/-- The layouts are alike as far as the channel looks. -/
structure Agree (k : Channel) (l m : Layout α) : Prop where
  left : l.emitter.output.Ready l.placer.files
  right : m.emitter.output.Ready m.placer.files
  options : l.options = m.options
  unit : l.emitter.unit = m.emitter.unit
  fonts : l.fonts = m.fonts
  page : l.page = m.page
  tally : k.Counts l.tally m.tally
  pieces : l.emitter.output.pieces.filter k.element.marks
    = m.emitter.output.pieces.filter k.element.marks
  segmenter : k = .glyphs → l.segmenter = m.segmenter
  path : k = .paths → l.path = m.path
  index : k = .pictures → l.placer.index = m.placer.index
  files : k = .pictures → l.placer.files.hollow = m.placer.files.hollow

variable {k : Channel} {l m : Layout α}

theorem Agree.refl (h : l.emitter.output.Ready l.placer.files) (k : Channel) : Agree k l l :=
  ⟨h, h, rfl, rfl, rfl, rfl, .refl k l.tally, rfl, fun _ => rfl, fun _ => rfl, fun _ => rfl,
    fun _ => rfl⟩

/-! ## Writing -/

theorem ready_attempted (h : l.emitter.output.Ready l.placer.files) (t : Text) (isOpen : Bool) :
    (l.attempted t isOpen).emitter.output.Ready (l.attempted t isOpen).placer.files
      ∧ (l.attempted t isOpen).placer.files.hollow = l.placer.files.hollow := by
  obtain ⟨hhollow, hopened⟩ := Output.settle_of_opened (Output.opened_tried h.opened t)
  refine ⟨⟨fun n text hn => ?_, hopened⟩, hhollow⟩
  rw [attempted_refuses]
  rw [attempted_attempts] at hn
  exact h.takesOn n text (Nat.le_of_succ_le hn)

theorem pieces_attempted_of_takesOn (h : l.emitter.output.TakesOn) (t : Text) (isOpen : Bool) :
    (l.attempted t isOpen).emitter.output.pieces = t :: l.emitter.output.pieces := by
  rw [attempted_pieces, if_pos (Output.accepts_of_takesOn h t)]

theorem Agree.attempted (h : Agree k l m) (t : Text) (isOpen isOpen' : Bool) :
    Agree k (l.attempted t isOpen) (m.attempted t isOpen') := by
  obtain ⟨hleft, hleftFiles⟩ := ready_attempted h.left t isOpen
  obtain ⟨hright, hrightFiles⟩ := ready_attempted h.right t isOpen'
  refine { h with left := hleft, right := hright, pieces := ?_, files := fun hk => ?_ }
  · rw [pieces_attempted_of_takesOn h.left.takesOn, pieces_attempted_of_takesOn h.right.takesOn,
      List.filter_cons, List.filter_cons, h.pieces]
  · rw [hleftFiles, hrightFiles, h.files hk]

/-- An element of another channel is not looked at. -/
theorem Agree.attempted_left (h : Agree k l m) {t : Text} (ht : k.element.marks t = false)
    (isOpen : Bool) : Agree k (l.attempted t isOpen) m := by
  obtain ⟨hleft, hleftFiles⟩ := ready_attempted h.left t isOpen
  refine { h with left := hleft, pieces := ?_, files := fun hk => ?_ }
  · rw [pieces_attempted_of_takesOn h.left.takesOn,
      List.filter_cons_of_neg (by rw [ht]; exact Bool.false_ne_true), h.pieces]
  · rw [hleftFiles, h.files hk]

theorem Agree.symm (h : Agree k l m) : Agree k m l where
  left := h.right
  right := h.left
  options := h.options.symm
  unit := h.unit.symm
  fonts := h.fonts.symm
  page := h.page.symm
  tally := h.tally.symm
  pieces := h.pieces.symm
  segmenter hk := (h.segmenter hk).symm
  path hk := (h.path hk).symm
  index hk := (h.index hk).symm
  files hk := (h.files hk).symm

theorem Agree.trans {n : Layout α} (h : Agree k l m) (h' : Agree k m n) : Agree k l n where
  left := h.left
  right := h'.right
  options := h.options.trans h'.options
  unit := h.unit.trans h'.unit
  fonts := h.fonts.trans h'.fonts
  page := h.page.trans h'.page
  tally := h.tally.trans h'.tally
  pieces := h.pieces.trans h'.pieces
  segmenter hk := (h.segmenter hk).trans (h'.segmenter hk)
  path hk := (h.path hk).trans (h'.path hk)
  index hk := (h.index hk).trans (h'.index hk)
  files hk := (h.files hk).trans (h'.files hk)

/-- The file that the output goes to is still there after a picture has been placed. -/
theorem ready_placing [Scalar α] {o : Output} {p : Placer} (h : o.Ready p.files) (options : Options α)
    (raster : Raster) (page user : Affine α) :
    o.Ready (placing options raster page user p).2.files :=
  ⟨h.takesOn, fun f hf =>
    Placer.keeps_place options raster page user f.place { p with log := [] } (h.opened f hf)⟩

/-! ## The channel itself -/

namespace Agree

open Act (Tracks)

theorem tracks_report (log : Log) : (report log : Act (Layout α) Unit).Tracks (Agree k) :=
  .modify fun _ _ h => { h with }

theorem tracks_count {f : Tally → Tally} (hf : ∀ t u, k.Counts t u → k.Counts (f t) (f u)) :
    (count f : Act (Layout α) Unit).Tracks (Agree k) :=
  .modify fun _ _ h => { h with tally := hf _ _ h.tally }

/-- What is written depends on the unit alone. -/
theorem tracks_emit {act : Act Emitter Unit} (t : Text → Text)
    (hact : ∀ e, act.run e = (e.output.answer (t e.unit), e.marked (t e.unit) e.pageOpen)) :
    (emit act : Act (Layout α) Unit).Tracks (Agree k) := by
  intro l m h
  rw [run_emit_eq (hact _), run_emit_eq (hact _), Output.answer_of_takesOn h.left.takesOn,
    Output.answer_of_takesOn h.right.takesOn, h.unit]
  exact ⟨rfl, h.attempted _ _ _⟩

theorem tracks_draw (f : Path α → Path α) : (draw f).Tracks (Agree k) :=
  .modify fun _ _ h => { h with path := fun hk => congrArg f (h.path hk) }

theorem tracks_parts : Parts fun {_} x => (x : Act (Layout α) _).Tracks (Agree k) where
  toComposes := Act.Tracks.composes _
  page hsame hg := .get_bind (fun _ _ h => hsame _ _ h.page) hg
  report := tracks_report

variable [Scalar α]

theorem tracks_takeParagraph (out : Option (Paragraph α)) :
    (takeParagraph out).Tracks (Agree k) := by
  cases out with
  | none => exact .pure _
  | some p =>
    refine .tryCatch (.get_bind (fun l m h => by rw [h.options]) fun l => ?_) fun _ => ?_
    · refine .bind (tracks_emit (fun unit => Html.paragraph unit _ p)
        (Emitter.run_paragraph_eq _ p)) fun _ => tracks_count ?_
      intro t u h
      exact { h with paragraphs := fun hk => congrArg (· + 1) (h.paragraphs hk) }
    · refine .bind (.modify fun l m h => ?_) fun _ => tracks_report _
      exact { h with segmenter := fun hk => congrArg Segmenter.noteFailure (h.segmenter hk) }

theorem tracks_takeRules (rules : List (Rule α)) : (takeRules rules).Tracks (Agree k) := by
  induction rules with
  | nil => exact .pure _
  | cons r rules ih =>
    refine .bind (.tryCatch (.bind (tracks_emit (fun unit => Html.rule unit r)
      (Emitter.run_rule_eq r)) fun _ => tracks_count ?_) fun _ =>
        .bind (tracks_report _) fun _ => tracks_count ?_) fun _ => ih
    · intro t u h
      exact { h with rules := fun hk => congrArg (· + 1) (h.rules hk) }
    · intro t u h
      exact { h with failures := fun hk => congrArg (· + 1) (h.failures hk) }

/-- The glyphs look at the segmenter and the fonts. -/
theorem tracks_addGlyph (glyph : Glyph α) : (addGlyph glyph).Tracks (Agree .glyphs) := by
  intro l m h
  cases hpage : l.page with
  | none =>
    rw [run_addGlyph_of_none hpage, run_addGlyph_of_none (h.page ▸ hpage)]
    exact ⟨rfl, h⟩
  | some page =>
    have hfeed : l.segmenter.feed l.fonts glyph = m.segmenter.feed m.fonts glyph := by
      rw [h.segmenter rfl, h.fonts]
    rw [run_addGlyph_of_page hpage, run_addGlyph_of_page (h.page ▸ hpage), hfeed]
    cases m.segmenter.feed m.fonts glyph with
    | error e => exact ⟨rfl, h⟩
    | ok answer => exact tracks_takeParagraph answer.2 _ _ { h with segmenter := fun _ => rfl }

/-- The path operators look at the path. -/
theorem tracks_stroke (op : Operator α) : (stroke op).Tracks (Agree .paths) := by
  refine .get_bind (fun l m h => by rw [h.path rfl]) fun l => ?_
  refine .bind (.modify fun l m h => ?_) fun _ => tracks_takeRules _
  exact { h with path := fun _ => rfl }

/-- The pictures look at the index and at which files there are. -/
theorem tracks_place (raster : Raster) (page user : Affine α) :
    (place raster page user).Tracks (Agree .pictures) := by
  intro l m h
  have hbefore : Placer.Alike { l.placer with log := [] } { m.placer with log := [] } :=
    ⟨h.index rfl, rfl, h.files rfl⟩
  obtain ⟨hanswer, hafter⟩ := Placer.tracks_place l.options raster page user _ _ hbefore
  have hsame : placing m.options raster page user m.placer
      = placing l.options raster page user m.placer := by rw [h.options]
  rw [run_place_eq, run_place_eq, hsame]
  refine ⟨hanswer, { h with
    left := ?_, right := ?_, index := fun _ => hafter.index, files := fun _ => hafter.files }⟩
  · exact ready_placing h.left l.options raster page user
  · exact ready_placing h.right _ raster page user

theorem tracks_pictureParts :
    PictureParts fun {_} x => (x : Act (Layout α) _).Tracks (Agree .pictures) where
  toParts := tracks_parts
  place := tracks_place
  emit p := tracks_emit (fun unit => Html.picture unit p) (Emitter.run_picture_eq p)
  drawn := tracks_count fun _ _ h => { h with drawn := fun hk => congrArg (· + 1) (h.drawn hk) }
  skipped :=
    tracks_count fun _ _ h => { h with skipped := fun hk => congrArg (· + 1) (h.skipped hk) }
  failed :=
    tracks_count fun _ _ h => { h with failures := fun hk => congrArg (· + 1) (h.failures hk) }

/-- A call does the same with layouts that are alike as far as its channel looks. -/
theorem tracks_perform {c : Call α} (hk : c.channel = some k) : c.perform.Tracks (Agree k) := by
  cases c with
  | pageBegin | pageEnd | resources => cases hk
  | glyph g =>
    cases hk
    exact tracks_addGlyph g
  | operator op =>
    refine tracks_parts.addOperator (fun page verb hverb => ?_) fun hverb => ?_
    · obtain rfl := Option.some.inj (hk.symm.trans (Call.channel_of_verb hverb))
      exact tracks_parts.drawPath (fun f _ => tracks_draw f) (tracks_stroke op) page verb
    · obtain rfl := Option.some.inj (hk.symm.trans (Call.channel_of_no_verb hverb))
      exact tracks_pictureParts.drawObject op
  | picture raster user =>
    cases hk
    exact tracks_pictureParts.addPicture raster user

end Agree

/-! ## The other channels -/

namespace Agree

open Act (Keeps)

theorem keeps_report (log : Log) :
    (report log : Act (Layout α) Unit).Keeps fun l => Agree k l m :=
  .modify fun _ h => { h with }

theorem keeps_count {f : Tally → Tally} (hf : ∀ t u, k.Counts t u → k.Counts (f t) u) :
    (count f : Act (Layout α) Unit).Keeps fun l => Agree k l m :=
  .modify fun _ h => { h with tally := hf _ _ h.tally }

theorem keeps_emit {act : Act Emitter Unit} (t : Text → Text)
    (hact : ∀ e, act.run e = (e.output.answer (t e.unit), e.marked (t e.unit) e.pageOpen))
    (ht : ∀ unit, k.element.marks (t unit) = false) :
    (emit act : Act (Layout α) Unit).Keeps fun l => Agree k l m := by
  intro l h
  rw [run_emit_eq (hact _)]
  exact h.attempted_left (ht _) _

theorem keeps_draw (hk : k ≠ .paths) (f : Path α → Path α) :
    (draw f).Keeps fun l => Agree k l m :=
  .modify fun _ h => { h with path := fun hpaths => absurd hpaths hk }

theorem keeps_parts : Parts fun {_} x => (x : Act (Layout α) _).Keeps fun l => Agree k l m where
  toComposes := Act.Keeps.composes _
  page _ hg := .bind .get hg
  report := keeps_report

variable [Scalar α]

theorem keeps_takeParagraph (hk : k ≠ .glyphs) (out : Option (Paragraph α)) :
    (takeParagraph out).Keeps fun l => Agree k l m := by
  cases out with
  | none => exact .pure _
  | some p =>
    refine .tryCatch (.bind .get fun l => ?_) fun _ => ?_
    · refine .bind (keeps_emit (fun unit => Html.paragraph unit _ p)
        (Emitter.run_paragraph_eq _ p) fun unit => ?_) fun _ => keeps_count fun t u h => ?_
      · exact (Element.marks_paragraph ..).trans
          (decide_eq_false (Channel.element_injective.ne hk))
      · exact { h with paragraphs := fun hglyphs => absurd hglyphs hk }
    · refine .bind (.modify fun l h => ?_) fun _ => keeps_report _
      exact { h with segmenter := fun hglyphs => absurd hglyphs hk }

theorem keeps_addGlyph (hk : k ≠ .glyphs) (glyph : Glyph α) :
    (addGlyph glyph).Keeps fun l => Agree k l m := by
  intro l h
  cases hpage : l.page with
  | none =>
    rw [run_addGlyph_of_none hpage]
    exact h
  | some page =>
    rw [run_addGlyph_of_page hpage]
    cases l.segmenter.feed l.fonts glyph with
    | error e => exact h
    | ok answer =>
      exact keeps_takeParagraph hk answer.2 _
        { h with segmenter := fun hglyphs => absurd hglyphs hk }

/-- On a page, rules are taken while everything is, so that none of them is a failure. -/
theorem keeps_takeRules (hk : k ≠ .paths) (rules : List (Rule α)) :
    (takeRules rules).Keeps fun l => Agree k l m := by
  intro l h
  rw [run_takeRules]
  simp only
  induction rules generalizing l with
  | nil => exact h
  | cons r rules ih =>
    refine ih _ ?_
    have haccepted := Output.accepts_of_takesOn h.left.takesOn (l.ruleHtml r)
    have hmarks : k.element.marks (l.ruleHtml r) = false :=
      (Element.marks_rule ..).trans (decide_eq_false (Channel.element_injective.ne hk))
    have hwritten := h.attempted_left hmarks l.emitter.pageOpen
    have htally : k.Counts (l.tookRule r).tally m.tally := by
      rw [tookRule, haccepted]
      exact { h.tally with rules := fun hpaths => absurd hpaths hk }
    exact { hwritten with tally := htally }

theorem keeps_stroke (hk : k ≠ .paths) (op : Operator α) :
    (stroke op).Keeps fun l => Agree k l m := by
  refine .bind .get fun l => .bind (.modify fun _ h => ?_) fun _ => keeps_takeRules hk _
  exact { h with path := fun hpaths => absurd hpaths hk }

theorem keeps_place (hk : k ≠ .pictures) (raster : Raster) (page user : Affine α) :
    (place raster page user).Keeps fun l => Agree k l m := by
  intro l h
  rw [run_place_eq]
  exact { h with
    left := ready_placing h.left l.options raster page user
    index := fun hpictures => absurd hpictures hk
    files := fun hpictures => absurd hpictures hk }

theorem keeps_pictureParts (hk : k ≠ .pictures) :
    PictureParts fun {_} x => (x : Act (Layout α) _).Keeps fun l => Agree k l m where
  toParts := keeps_parts
  place := keeps_place hk
  emit p := keeps_emit (fun unit => Html.picture unit p) (Emitter.run_picture_eq p) fun _ =>
    (Element.marks_picture ..).trans (decide_eq_false (Channel.element_injective.ne hk))
  drawn := keeps_count fun _ _ h => { h with drawn := fun hpictures => absurd hpictures hk }
  skipped := keeps_count fun _ _ h => { h with skipped := fun hpictures => absurd hpictures hk }
  failed := keeps_count fun _ _ h => { h with failures := fun hpictures => absurd hpictures hk }

/-- A call changes nothing that another channel looks at. -/
theorem keeps_perform {c : Call α} {other : Channel} (hother : c.channel = some other)
    (hk : k ≠ other) : c.perform.Keeps fun l => Agree k l m := by
  cases c with
  | pageBegin | pageEnd | resources => cases hother
  | glyph g =>
    cases hother
    exact keeps_addGlyph hk g
  | operator op =>
    refine keeps_parts.addOperator (fun page verb hverb => ?_) fun hverb => ?_
    · obtain rfl := Option.some.inj (hother.symm.trans (Call.channel_of_verb hverb))
      exact keeps_parts.drawPath (fun f _ => keeps_draw hk f) (keeps_stroke hk op) page verb
    · obtain rfl := Option.some.inj (hother.symm.trans (Call.channel_of_no_verb hverb))
      exact (keeps_pictureParts hk).drawObject op
  | picture raster user =>
    cases hother
    exact (keeps_pictureParts hk).addPicture raster user

end Agree

/-! ## Interleaved calls -/

variable [Scalar α]

/-- As far as a channel looks, the calls on the other channels can be left out. -/
theorem agree_share (h : Agree k l m) (cs : List (Call α)) (hcs : ∀ c ∈ cs, c.channel.isSome = true) :
    Agree k (calls cs l) (calls (share k cs) m) := by
  induction cs generalizing l m with
  | nil => exact h
  | cons c cs ih =>
    obtain ⟨other, hother⟩ := Option.isSome_iff_exists.mp (hcs c List.mem_cons_self)
    have hrest : ∀ c ∈ cs, c.channel.isSome = true := fun c hc => hcs c (List.mem_cons_of_mem _ hc)
    by_cases hk : k = other
    · have hchannel : c.channel = some k := by rw [hother, hk]
      have hshare : share k (c :: cs) = c :: share k cs :=
        List.filter_cons_of_pos (by rw [hchannel]; exact decide_eq_true rfl)
      rw [hshare]
      exact ih (Agree.tracks_perform hchannel l m h).2 hrest
    · have hshare : share k (c :: cs) = share k cs := by
        refine List.filter_cons_of_neg ?_
        rw [hother, decide_eq_true_eq]
        exact fun hsame => hk (Option.some.inj hsame).symm
      rw [hshare]
      exact ih (Agree.keeps_perform hother hk l h) hrest

/-- With writes that never fail, each kind of element depends on the calls of its channel alone, and
so do the counters, the segmenter and the path in the end. -/
theorem channels_independent {l : Layout α} (h : l.emitter.output.Ready l.placer.files)
    {cs cs' : List (Call α)} (hcs : ∀ c ∈ cs, c.channel.isSome = true)
    (hcs' : ∀ c ∈ cs', c.channel.isSome = true) :
    (∀ k, share k cs = share k cs' → written k (calls cs l) = written k (calls cs' l))
      ∧ ((∀ k, share k cs = share k cs') →
        (calls cs l).tally = (calls cs' l).tally
          ∧ (calls cs l).segmenter = (calls cs' l).segmenter
          ∧ (calls cs l).path = (calls cs' l).path) := by
  have hagree : ∀ k, share k cs = share k cs' → Agree k (calls cs l) (calls cs' l) := by
    intro k hshare
    have hleft := agree_share (Agree.refl h k) cs hcs
    have hright := agree_share (Agree.refl h k) cs' hcs'
    rw [← hshare] at hright
    exact hleft.trans hright.symm
  refine ⟨fun k hshare => congrArg List.reverse (hagree k hshare).pieces, fun hshare => ⟨?_, ?_, ?_⟩⟩
  · exact Channel.eq_of_counts fun k => (hagree k (hshare k)).tally
  · exact (hagree .glyphs (hshare .glyphs)).segmenter rfl
  · exact (hagree .paths (hshare .paths)).path rfl

/-- A page without a size. -/
def blankPage : Layout ℚ :=
  { start .standard .memory {} with page := some (Page.frame 1 none .none) }

/-- A letter that starts at `x`. -/
def letterAt (x : ℚ) : Call ℚ := .glyph ⟨lit "a", x, 0, 10, 10, none, 10, 10, 10⟩

/-- An operator of a path. -/
def tracing (name : String) (numbers : List Int) : Call ℚ := .operator
  { name := lit name, operands := numbers.map .whole, graph := { nodes := #[], objects := [] }
    ctm := .identity, lineWidth := 1, resources := none }

/-- The end of a subpath that is stroked. -/
def closing : Call ℚ := tracing "s" []

/-- A picture of one pixel. -/
def sketch : Call ℚ := .picture
  { mode := lit "RGB", width := 1, height := 1, format := some (lit "png"), bitsPerPixel := 24
    name := none, encoder := ⟨fun _ _ => .ok (), fun _ _ _ => .ok [7]⟩ }
  .identity

/-- Two letters that are no paragraph together, a path and a picture. -/
def apart : List (Call ℚ) :=
  [letterAt 0, letterAt 100, tracing "m" [0, 0], tracing "l" [10, 0], tracing "S" [], sketch]

/-- The same calls, each channel between the others. -/
def mixed : List (Call ℚ) :=
  [sketch, tracing "m" [0, 0], letterAt 0, tracing "l" [10, 0], tracing "S" [], letterAt 100]

/-- They write a paragraph, a rule and a picture, and these come out the same in either order. -/
theorem channels_independent_reversed :
    (∀ k, (written k (calls apart blankPage)).length = 1
        ∧ written k (calls apart blankPage) = written k (calls mixed blankPage))
      ∧ (calls apart blankPage).tally = (calls mixed blankPage).tally
      ∧ (calls apart blankPage).segmenter = (calls mixed blankPage).segmenter
      ∧ (calls apart blankPage).path = (calls mixed blankPage).path := by
  have hready : blankPage.emitter.output.Ready blankPage.placer.files :=
    ⟨fun _ _ _ => rfl, fun _ hf => by cases hf⟩
  have happart : ∀ c ∈ apart, c.channel.isSome = true := by decide +kernel
  have hmixed : ∀ c ∈ mixed, c.channel.isSome = true := by decide +kernel
  have hshare : ∀ k, share k apart = share k mixed := by
    intro k
    cases k <;> rfl
  have hlength : ∀ k, (written k (calls apart blankPage)).length = 1 := by
    intro k
    cases k <;> decide +kernel
  have hsame := channels_independent hready happart hmixed
  exact ⟨fun k => ⟨hlength k, hsame.1 k (hshare k)⟩, hsame.2 hshare⟩

end Layout

end Folio
