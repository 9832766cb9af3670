import Folio.Proofs.Layout.Channel
import Folio.Proofs.Layout.Counting

/-!
# What a refused write leaves behind

A call on a page first makes its boxes and then writes them (`made`). Paragraphs and rules that are
refused are dropped and counted, and the call goes on. A picture that is refused is dropped as well,
but the refusal goes back to the caller and is not counted (`refused_boxes`).

Nothing of this reaches the boxes to come. `InStep` says that two layouts have come to the same
point of a page, whatever each of them has written, counted and reported on the way. What is written
next takes neither of them out of step (`InStep.attempted_left`), so that all calls on the page keep
them in step (`InStep.calls`), and layouts that are in step make the same boxes of every call
(`InStep.made`).
-/

namespace Folio.Layout

open Text (lit)

variable {α : Type} [Scalar α]

/-! ## What a call makes -/

/-- A picture as it is written. -/
def pictureHtml (l : Layout α) (p : Picture α) : Text := Html.picture l.emitter.unit p

/-- The picture that a request draws. -/
def pictured (l : Layout α) (r : Request α) : Option (Picture α) :=
  match l.page, r.raster? with
  | some page, some (raster, user) =>
    match ((place raster page.transform user).run l).1 with
    | .ok found => found
    | .error _ => none
  | _, _ => none

/-- The boxes that a call makes, in order, before any of them is written. -/
def made (l : Layout α) (c : Call α) : List Text :=
  l.offered (.call c) ++ (l.pictured (.call c)).toList.map l.pictureHtml

/-! ## In step -/

/-- The layouts have come to the same point of a page. -/
structure InStep (l m : Layout α) : Prop where
  left : l.emitter.output.Opened l.placer.files
  right : m.emitter.output.Opened m.placer.files
  options : l.options = m.options
  unit : l.emitter.unit = m.emitter.unit
  fonts : l.fonts = m.fonts
  page : l.page = m.page
  /-- They need not have met with as many failures. -/
  segmenter : l.segmenter.withFailures 0 = m.segmenter.withFailures 0
  path : l.path = m.path
  index : l.placer.index = m.placer.index
  files : l.placer.files.hollow = m.placer.files.hollow

namespace InStep

variable {l m : Layout α}

omit [Scalar α] in
theorem symm (h : InStep l m) : InStep m l where
  left := h.right
  right := h.left
  options := h.options.symm
  unit := h.unit.symm
  fonts := h.fonts.symm
  page := h.page.symm
  segmenter := h.segmenter.symm
  path := h.path.symm
  index := h.index.symm
  files := h.files.symm

omit [Scalar α] in
theorem attempted_left (h : InStep l m) (t : Text) (isOpen : Bool) :
    InStep (l.attempted t isOpen) m := by
  obtain ⟨hhollow, hopened⟩ := Output.settle_of_opened (Output.opened_tried h.left t)
  exact { h with left := hopened, files := hhollow.trans h.files }

theorem tookParagraph_left (h : InStep l m) (p : Paragraph α) : InStep (l.tookParagraph p) m := by
  have hsegmenter : (l.tookParagraph p).segmenter.withFailures 0 = l.segmenter.withFailures 0 := by
    simp only [tookParagraph]
    split <;> rfl
  exact { h.attempted_left (l.paragraphHtml p) l.emitter.pageOpen with
    segmenter := hsegmenter.trans h.segmenter }

theorem takeParagraph_left (h : InStep l m) (out : Option (Paragraph α)) :
    InStep ((takeParagraph out).run l).2 m := by
  rw [run_takeParagraph]
  cases out with
  | none => exact h
  | some p => exact h.tookParagraph_left p

theorem takeRules_left (h : InStep l m) (rules : List (Rule α)) :
    InStep ((takeRules rules).run l).2 m := by
  rw [run_takeRules]
  simp only
  induction rules generalizing l with
  | nil => exact h
  | cons r rules ih =>
    have htook : InStep (l.tookRule r) m :=
      { h.attempted_left (l.ruleHtml r) l.emitter.pageOpen with }
    exact ih htook

theorem takeParagraph (h : InStep l m) (out : Option (Paragraph α)) :
    InStep ((takeParagraph out).run l).2 ((takeParagraph out).run m).2 :=
  ((h.takeParagraph_left out).symm.takeParagraph_left out).symm

theorem takeRules (h : InStep l m) (rules : List (Rule α)) :
    InStep ((takeRules rules).run l).2 ((takeRules rules).run m).2 :=
  ((h.takeRules_left rules).symm.takeRules_left rules).symm

/-- A glyph is a fault to both segmenters, or to neither. -/
theorem feed (h : InStep l m) (glyph : Glyph α) :
    (∃ e, l.segmenter.feed l.fonts glyph = .error e ∧ m.segmenter.feed m.fonts glyph = .error e)
      ∨ ∃ s s' out, l.segmenter.feed l.fonts glyph = .ok (s, out)
        ∧ m.segmenter.feed m.fonts glyph = .ok (s', out)
        ∧ s.withFailures 0 = s'.withFailures 0 := by
  rw [← h.fonts]
  exact Segmenter.feed_congr h.segmenter l.fonts glyph

theorem addGlyph (h : InStep l m) (glyph : Glyph α) :
    InStep ((addGlyph glyph).run l).2 ((addGlyph glyph).run m).2 := by
  cases hpage : l.page with
  | none =>
    rw [run_addGlyph_of_none hpage, run_addGlyph_of_none (h.page ▸ hpage)]
    exact h
  | some page =>
    rw [run_addGlyph_of_page hpage, run_addGlyph_of_page (h.page ▸ hpage)]
    rcases h.feed glyph with ⟨e, hl, hm⟩ | ⟨s, s', out, hl, hm, hs⟩ <;> rw [hl, hm]
    · exact h
    · have hfed : InStep { l with segmenter := s } { m with segmenter := s' } :=
        { h with segmenter := hs }
      exact hfed.takeParagraph out

theorem drawPath (h : InStep l m) (page : Page.Frame α) (op : Operator α) (verb : PathVerb) :
    InStep ((drawPath page op verb).run l).2 ((drawPath page op verb).run m).2 := by
  rw [run_drawPath, run_drawPath, h.path]
  cases trace page op verb m.path with
  | error e => exact h
  | ok traced =>
    have htraced : InStep { l with path := traced.2 } { m with path := traced.2 } :=
      { h with path := rfl }
    exact htraced.takeRules traced.1

/-- Pictures go to the same place, and are refused one for the same reasons. -/
theorem place (h : InStep l m) (raster : Raster) (page user : Affine α) :
    ((place raster page user).run l).1 = ((place raster page user).run m).1
      ∧ InStep ((place raster page user).run l).2 ((place raster page user).run m).2 := by
  have hbefore : Placer.Alike { l.placer with log := [] } { m.placer with log := [] } :=
    ⟨h.index, rfl, h.files⟩
  obtain ⟨hanswer, hafter⟩ := Placer.tracks_place l.options raster page user _ _ hbefore
  have hsame : placing m.options raster page user m.placer
      = placing l.options raster page user m.placer := by rw [h.options]
  rw [run_place_eq, run_place_eq, hsame]
  refine ⟨hanswer, { h with left := ?_, right := ?_, index := hafter.index, files := hafter.files }⟩
  · exact fun f hf => Placer.keeps_place l.options raster page user f.place
      { l.placer with log := [] } (h.left f hf)
  · exact fun f hf => Placer.keeps_place l.options raster page user f.place
      { m.placer with log := [] } (h.right f hf)

theorem drawPlaced_left (h : InStep l m) (p : Picture α) : InStep ((drawPlaced p).run l).2 m := by
  have hwritten := h.attempted_left (l.pictureHtml p) l.emitter.pageOpen
  rw [drawPlaced, Act.run_bind, run_emit_picture]
  cases l.emitter.output.answer (Html.picture l.emitter.unit p) with
  | error e => exact hwritten
  | ok => exact { hwritten with }

theorem addPicture (h : InStep l m) (raster : Raster) (user : Affine α) :
    InStep ((addPicture raster user).run l).2 ((addPicture raster user).run m).2 := by
  cases hpage : l.page with
  | none =>
    rw [run_addPicture_of_none hpage, run_addPicture_of_none (h.page ▸ hpage)]
    exact h
  | some page =>
    obtain ⟨hanswer, hplaced⟩ := h.place raster page.transform user
    rw [run_addPicture_of_page hpage, run_addPicture_of_page (h.page ▸ hpage)]
    rcases hl : (Layout.place raster page.transform user).run l with ⟨answer, l'⟩
    rcases hm : (Layout.place raster page.transform user).run m with ⟨answer', m'⟩
    rw [hl, hm] at hanswer hplaced
    obtain rfl : answer = answer' := hanswer
    rcases answer with fault | _ | picture
    · simp only
      split
      · exact { hplaced with }
      · exact hplaced
    · exact { hplaced with }
    · exact ((hplaced.drawPlaced_left picture).symm.drawPlaced_left picture).symm

theorem drawObject (h : InStep l m) (op : Operator α) :
    InStep ((drawObject op).run l).2 ((drawObject op).run m).2 := by
  rw [Layout.drawObject, Act.run_bind, Act.run_ofExcept, Act.run_bind, Act.run_ofExcept]
  rcases picture? op with e | _ | ⟨name, picture⟩
  · exact h
  · exact h
  · simp only
    cases picture.decoded with
    | raster raster => exact h.addPicture raster op.ctm
    | nothing => exact { h with }
    | failed cause => exact { h with }

/-- A call on a page keeps layouts in step, whichever of its writes are refused on either side. -/
theorem perform (h : InStep l m) {c : Call α} (hc : c.channel.isSome = true) :
    InStep (c.perform.run l).2 (c.perform.run m).2 := by
  cases c with
  | pageBegin | pageEnd | resources => cases hc
  | glyph g => exact h.addGlyph g
  | picture raster user => exact h.addPicture raster user
  | operator op =>
    cases hpage : l.page with
    | none =>
      rw [Call.perform, run_addOperator_of_none hpage, run_addOperator_of_none (h.page ▸ hpage)]
      exact h
    | some page =>
      have hpage' : m.page = some page := h.page ▸ hpage
      rw [Call.perform, addOperator, Act.run_bind_ok (Act.run_get l),
        Act.run_bind_ok (Act.run_get m), hpage, hpage']
      simp only
      split
      · exact h.drawPath page op _
      · split
        · exact h.drawObject op
        · exact h

theorem calls (h : InStep l m) {cs : List (Call α)} (hcs : ∀ c ∈ cs, c.channel.isSome = true) :
    InStep (calls cs l) (calls cs m) := by
  induction cs generalizing l m with
  | nil => exact h
  | cons c cs ih =>
    exact ih (h.perform (hcs c List.mem_cons_self)) fun c hc => hcs c (List.mem_cons_of_mem _ hc)

theorem handed (h : InStep l m) (c : Call α) : l.handed (.call c) = m.handed (.call c) := by
  have hend := (Segmenter.endPage_congr h.segmenter).1
  cases c with
  | pageBegin | pageEnd => exact hend
  | glyph g =>
    rw [Layout.handed, Layout.handed]
    rcases h.feed g with ⟨e, hl, hm⟩ | ⟨s, s', out, hl, hm, -⟩ <;> rw [hl, hm]
  | resources | operator | picture => rfl

/-- Layouts that are in step make the same boxes. -/
theorem made (h : InStep l m) (c : Call α) : l.made c = m.made c := by
  have hparagraph : l.paragraphHtml = m.paragraphHtml := by
    funext p
    rw [paragraphHtml, paragraphHtml, h.unit, h.options]
  have hrule : (l.ruleHtml : Rule α → Text) = m.ruleHtml := by
    funext r
    rw [ruleHtml, ruleHtml, h.unit]
  have hpicture : (l.pictureHtml : Picture α → Text) = m.pictureHtml := by
    funext p
    rw [pictureHtml, pictureHtml, h.unit]
  have hstruck : l.struck (.call c) = m.struck (.call c) := by
    cases c with
    | operator op => rw [struck, struck, h.page, h.path]
    | pageBegin | pageEnd | resources | glyph | picture => rfl
  have hpictured : l.pictured (.call c) = m.pictured (.call c) := by
    rw [pictured, pictured, h.page]
    cases m.page with
    | none => rfl
    | some page =>
      cases (Request.call c).raster? with
      | none => rfl
      | some drawn => simp only [(h.place drawn.1 page.transform drawn.2).1]
  rw [Layout.made, Layout.made, offered, offered, h.page, h.handed, hstruck, hpictured, hparagraph,
    hrule, hpicture]

end InStep

/-! ## Refused boxes -/

/-- The failures counted so far, here and in the segmenter. -/
def failed (l : Layout α) : Nat := l.tally.failures + l.segmenter.failures

/-- Texts have been written one after the other, and those refused have been counted. -/
structure Delivered (l l' : Layout α) (ts : List Text) : Prop where
  pieces : l'.emitter.output.pieces
    = (Output.granted (l.outcomes ts)).reverse ++ l.emitter.output.pieces
  failed : l'.failed = l.failed + Output.refused (l.outcomes ts)

variable {l l' : Layout α}

omit [Scalar α] in
theorem delivered_nil (hpieces : l'.emitter.output.pieces = l.emitter.output.pieces)
    (hfailed : l'.failed = l.failed) : Delivered l l' [] := ⟨hpieces, hfailed⟩

omit [Scalar α] in
theorem delivered_one {t : Text} (hpieces : l'.emitter.output.pieces
      = if l.emitter.output.accepts t then t :: l.emitter.output.pieces
        else l.emitter.output.pieces)
    (hfailed : l'.failed = l.failed + if l.emitter.output.accepts t then 0 else 1) :
    Delivered l l' [t] := by
  have houtcome : l.outcomes [t] = [(t, l.emitter.output.accepts t)] := rfl
  cases haccepted : l.emitter.output.accepts t <;> rw [haccepted] at houtcome hpieces hfailed <;>
    exact ⟨by rw [hpieces, houtcome]; rfl, by rw [hfailed, houtcome]; rfl⟩

theorem delivered_tookParagraph (l : Layout α) (p : Paragraph α) :
    Delivered l (l.tookParagraph p) [l.paragraphHtml p] := by
  refine delivered_one (attempted_pieces _ _ l) ?_
  simp only [failed, tookParagraph]
  cases l.emitter.output.accepts (l.paragraphHtml p) <;> rfl

theorem delivered_takeParagraph (l : Layout α) (out : Option (Paragraph α)) :
    Delivered l ((takeParagraph out).run l).2 (out.toList.map l.paragraphHtml) := by
  rw [run_takeParagraph]
  cases out with
  | none => exact delivered_nil rfl rfl
  | some p => exact delivered_tookParagraph l p

theorem delivered_tookRule (l : Layout α) (r : Rule α) :
    Delivered l (l.tookRule r) [l.ruleHtml r] := by
  refine delivered_one (attempted_pieces _ _ l) ?_
  simp only [failed, tookRule, attempted_segmenter]
  omega

omit [Scalar α] in
theorem Delivered.trans {l'' : Layout α} {ts us : List Text} (h : Delivered l l' ts)
    (h' : Delivered l' l'' us)
    (hoffers : l.outcomes (ts ++ us) = l.outcomes ts ++ l'.outcomes us) :
    Delivered l l'' (ts ++ us) := by
  constructor
  · rw [h'.pieces, h.pieces, hoffers, Output.granted, Output.granted, Output.granted,
      List.filter_append, List.map_append, List.reverse_append, List.append_assoc]
  · rw [h'.failed, h.failed, hoffers, Output.refused, Output.refused, Output.refused,
      List.countP_append, Nat.add_assoc]

theorem delivered_takeRules (rules : List (Rule α)) (l : Layout α) :
    Delivered l ((takeRules rules).run l).2 (rules.map l.ruleHtml) := by
  rw [run_takeRules]
  simp only
  induction rules generalizing l with
  | nil => exact delivered_nil rfl rfl
  | cons r rules ih =>
    -- The first rule is tried, and the others go on from there.
    have hattempts : (l.tookRule r).emitter.output.attempts = l.emitter.output.attempts + 1 :=
      attempted_attempts _ _ l
    have hrefuses : (l.tookRule r).emitter.output.refuses = l.emitter.output.refuses :=
      attempted_refuses _ _ l
    refine (delivered_tookRule l r).trans (ih (l.tookRule r)) ?_
    simp only [Layout.outcomes, hattempts, hrefuses]
    rfl

/-- What has become of the boxes of a call. -/
structure Outcome (l : Layout α) (c : Call α) (answer : Except Fault Unit) (after : Layout α) :
    Prop where
  /-- Paragraphs and rules never fail the call, and those refused are failures. -/
  boxes : l.offered (.call c) ≠ [] → answer = .ok ()
    ∧ after.failed = l.failed + Output.refused (l.outcomes (l.offered (.call c)))
  /-- A picture that is refused fails the call, and is none of the failures. -/
  picture : ∀ p, l.pictured (.call c) = some p →
    answer = l.emitter.output.answer (l.pictureHtml p) ∧ after.failed = l.failed
  /-- What is refused is not in the output, and everything else is. -/
  pieces : after.emitter.output.pieces
    = (Output.granted (l.outcomes (l.made c))).reverse ++ l.emitter.output.pieces

variable {c : Call α} {answer : Except Fault Unit} {after : Layout α}

theorem outcome_of_silent (hoffered : l.offered (.call c) = [])
    (hpictured : l.pictured (.call c) = none)
    (hpieces : after.emitter.output.pieces = l.emitter.output.pieces) :
    Outcome l c answer after where
  boxes h := absurd hoffered h
  picture p h := by rw [hpictured] at h; cases h
  pieces := by rw [made, hoffered, hpictured]; exact hpieces

theorem outcome_of_boxes (hpictured : l.pictured (.call c) = none)
    (h : Delivered l after (l.offered (.call c))) : Outcome l c (.ok ()) after where
  boxes _ := ⟨rfl, h.failed⟩
  picture p hp := by rw [hpictured] at hp; cases hp
  pieces := by
    rw [made, hpictured, Option.toList_none, List.map_nil, List.append_nil]
    exact h.pieces

theorem pictured_of_none (hpage : l.page = none) (r : Request α) : l.pictured r = none := by
  rw [pictured, hpage]

theorem pictured_of_raster?_eq_none {r : Request α} (h : r.raster? = none) :
    l.pictured r = none := by
  rw [pictured, h]
  cases l.page <;> rfl

theorem outcome_addGlyph (glyph : Glyph α) :
    Outcome l (.glyph glyph) ((addGlyph glyph).run l).1 ((addGlyph glyph).run l).2 := by
  have hpictured : l.pictured (.call (.glyph glyph)) = none := pictured_of_raster?_eq_none rfl
  cases hpage : l.page with
  | none =>
    rw [run_addGlyph_of_none hpage]
    exact outcome_of_silent (offered_of_none hpage _) hpictured rfl
  | some page =>
    have hoffered := offered_of_page hpage (.call (.glyph glyph))
    rw [run_addGlyph_of_page hpage]
    cases hfeed : l.segmenter.feed l.fonts glyph with
    | error e =>
      simp only [handed, hfeed] at hoffered
      exact outcome_of_silent hoffered hpictured rfl
    | ok fed =>
      obtain ⟨s, out⟩ := fed
      simp only [handed, hfeed] at hoffered
      have hout : l.offered (.call (.glyph glyph)) = out.toList.map l.paragraphHtml :=
        hoffered.trans (List.append_nil _)
      have hdelivered := delivered_takeParagraph ({ l with segmenter := s } : Layout α) out
      have hfailures : ({ l with segmenter := s } : Layout α).failed = l.failed :=
        congrArg (l.tally.failures + ·) (Segmenter.failures_feed hfeed)
      have hanswer : ((takeParagraph out).run ({ l with segmenter := s } : Layout α)).1
          = .ok () := by
        rw [run_takeParagraph]
      rw [hanswer]
      refine outcome_of_boxes hpictured ⟨?_, ?_⟩
      · rw [hout]
        exact hdelivered.pieces
      · rw [hout, ← hfailures]
        exact hdelivered.failed

theorem outcome_drawPath {page : Page.Frame α} (hpage : l.page = some page) {op : Operator α}
    {verb : PathVerb} (hverb : PathVerb.ofName? op.name = some verb) :
    Outcome l (.operator op) ((drawPath page op verb).run l).1
      ((drawPath page op verb).run l).2 := by
  have hother : op.name ≠ lit "Do" := by
    intro hname
    rw [hname, ofName?_drawing] at hverb
    cases hverb
  have hpictured : l.pictured (.call (.operator op)) = none :=
    pictured_of_raster?_eq_none (by simp [Request.raster?, hother])
  have hoffered := offered_of_page hpage (.call (.operator op))
  simp only [handed, struck, hpage, hverb] at hoffered
  rw [run_drawPath]
  cases htrace : trace page op verb l.path with
  | error e =>
    rw [htrace] at hoffered
    exact outcome_of_silent hoffered hpictured rfl
  | ok traced =>
    rw [htrace] at hoffered
    have hanswer : ((takeRules traced.1).run ({ l with path := traced.2 } : Layout α)).1
        = .ok () := by
      rw [run_takeRules]
    have hdelivered := delivered_takeRules traced.1 ({ l with path := traced.2 } : Layout α)
    simp only [hanswer]
    refine outcome_of_boxes hpictured ?_
    rw [hoffered]
    exact ⟨hdelivered.pieces, hdelivered.failed⟩

/-- A picture that has been placed fails the call if it is refused, and is no failure then. -/
theorem outcome_drawPlaced (picture : Picture α) (l : Layout α) :
    ((drawPlaced picture).run l).1 = l.emitter.output.answer (l.pictureHtml picture)
      ∧ ((drawPlaced picture).run l).2.failed = l.failed
      ∧ ((drawPlaced picture).run l).2.emitter.output.pieces
        = (Output.granted (l.outcomes [l.pictureHtml picture])).reverse
          ++ l.emitter.output.pieces := by
  have hpieces : (l.attempted (l.pictureHtml picture) l.emitter.pageOpen).emitter.output.pieces
      = (Output.granted (l.outcomes [l.pictureHtml picture])).reverse
        ++ l.emitter.output.pieces := by
    have houtcome : l.outcomes [l.pictureHtml picture]
        = [(l.pictureHtml picture, l.emitter.output.accepts (l.pictureHtml picture))] := rfl
    rw [attempted_pieces, houtcome]
    cases l.emitter.output.accepts (l.pictureHtml picture) <;> rfl
  have hemit : (emit (Emitter.picture picture)).run l
      = (l.emitter.output.answer (l.pictureHtml picture),
        l.attempted (l.pictureHtml picture) l.emitter.pageOpen) := run_emit_picture picture l
  rw [drawPlaced, Act.run_bind, hemit]
  cases l.emitter.output.answer (l.pictureHtml picture) with
  | error e => exact ⟨rfl, rfl, hpieces⟩
  | ok => exact ⟨rfl, rfl, hpieces⟩

theorem outcome_addPicture {page : Page.Frame α} (hpage : l.page = some page) {raster : Raster}
    {user : Affine α} (hraster : (Request.call c).raster? = some (raster, user))
    (hoffered : l.offered (.call c) = []) :
    Outcome l c ((addPicture raster user).run l).1 ((addPicture raster user).run l).2 := by
  have hpictured : l.pictured (.call c) = match ((place raster page.transform user).run l).1 with
      | .ok found => found
      | .error _ => none := by
    rw [pictured, hpage, hraster]
  -- Placing writes nothing and counts nothing.
  have hemitter : ((place raster page.transform user).run l).2.emitter = l.emitter := rfl
  have hfailed : ((place raster page.transform user).run l).2.failed = l.failed := rfl
  rw [run_addPicture_of_page hpage]
  rcases hplace : (place raster page.transform user).run l with ⟨fault | _ | picture, l'⟩ <;>
    rw [hplace] at hpictured hemitter hfailed
  · have hpieces := congrArg (·.output.pieces) hemitter
    simp only
    split
    · exact outcome_of_silent hoffered hpictured hpieces
    · exact outcome_of_silent hoffered hpictured hpieces
  · exact outcome_of_silent hoffered hpictured (congrArg (·.output.pieces) hemitter)
  · obtain ⟨hanswer, hcounted, hpieces⟩ := outcome_drawPlaced picture l'
    have hhtml : l'.pictureHtml picture = l.pictureHtml picture := by
      rw [pictureHtml, pictureHtml, hemitter]
    have houtcomes : l'.outcomes = l.outcomes := by
      funext ts
      rw [outcomes, outcomes, hemitter]
    rw [hhtml, hemitter] at hanswer
    rw [hhtml, houtcomes, hemitter] at hpieces
    refine ⟨fun h => absurd hoffered h, fun p hp => ?_, ?_⟩
    · obtain rfl : picture = p := Option.some.inj (hpictured.symm.trans hp)
      exact ⟨hanswer, hcounted.trans hfailed⟩
    · rw [made, hoffered, hpictured]
      exact hpieces

theorem outcome_addOperator (op : Operator α) :
    Outcome l (.operator op) ((addOperator op).run l).1 ((addOperator op).run l).2 := by
  cases hpage : l.page with
  | none =>
    rw [run_addOperator_of_none hpage]
    exact outcome_of_silent (offered_of_none hpage _) (pictured_of_none hpage _) rfl
  | some page =>
    rw [addOperator, Act.run_bind_ok (Act.run_get l), hpage]
    simp only
    cases hverb : PathVerb.ofName? op.name with
    | some verb => exact outcome_drawPath hpage hverb
    | none =>
      have hoffered : l.offered (.call (.operator op)) = [] := by
        rw [offered_of_page hpage]
        simp only [handed, struck, hpage, hverb]
        rfl
      have hsilent : (Request.call (.operator op)).raster? = none → ∀ after : Layout α,
          after.emitter = l.emitter → ∀ answer, Outcome l (.operator op) answer after :=
        fun hraster after hemitter answer => outcome_of_silent hoffered
          (pictured_of_raster?_eq_none hraster) (congrArg (·.output.pieces) hemitter)
      simp only
      split
      next hname =>
        rw [drawObject, Act.run_bind, Act.run_ofExcept]
        rcases hpicture : picture? op with e | _ | ⟨name, picture⟩
        · exact hsilent (by simp [Request.raster?, hpicture]) l rfl _
        · exact hsilent (by simp [Request.raster?, hpicture]) l rfl _
        · simp only
          cases hdecoded : picture.decoded with
          | raster raster =>
            exact outcome_addPicture hpage (by simp [Request.raster?, hname, hpicture, hdecoded])
              hoffered
          | nothing => exact hsilent (by simp [Request.raster?, hpicture, hdecoded]) _ (by rfl) _
          | failed cause =>
            exact hsilent (by simp [Request.raster?, hpicture, hdecoded]) _ (by rfl) _
      next hname => exact hsilent (by simp [Request.raster?, hname]) l rfl _

/-- What becomes of the boxes of a call. -/
theorem outcome_perform (hc : c.channel.isSome = true) :
    Outcome l c (c.perform.run l).1 (c.perform.run l).2 := by
  cases c with
  | pageBegin | pageEnd | resources => cases hc
  | glyph g => exact outcome_addGlyph g
  | operator op => exact outcome_addOperator op
  | picture raster user =>
    cases hpage : l.page with
    | none =>
      rw [Call.perform, run_addPicture_of_none hpage]
      exact outcome_of_silent (offered_of_none hpage _) (pictured_of_none hpage _) rfl
    | some page =>
      refine outcome_addPicture hpage rfl ?_
      rw [offered_of_page hpage]
      rfl

/-! ## The boxes to come -/

/-- The layout with another rule by which its output refuses writes. -/
def refusing (refuses : Nat → Text → Option Fault) (l : Layout α) : Layout α :=
  { l with emitter := { l.emitter with output := { l.emitter.output with refuses := refuses } } }

omit [Scalar α] in
theorem inStep_refusing (h : l.emitter.output.Opened l.placer.files)
    (refuses : Nat → Text → Option Fault) : InStep l (l.refusing refuses) :=
  ⟨h, h, rfl, rfl, rfl, rfl, rfl, rfl, rfl, rfl⟩

/-- A box that is refused is dropped. If it is a paragraph or a rule, it is counted as a failure and
the call goes on; a picture fails the call and is not counted. Whatever is refused, every later call
on the page makes the boxes that it makes when the same writes are taken. -/
theorem refused_boxes (h : l.emitter.output.Opened l.placer.files) (hc : c.channel.isSome = true) :
    Outcome l c (c.perform.run l).1 (c.perform.run l).2
      ∧ ∀ refuses cs, (∀ c' ∈ cs, c'.channel.isSome = true) → ∀ c',
        (calls cs (c.perform.run l).2).made c'
          = (calls cs (c.perform.run (l.refusing refuses)).2).made c' := by
  refine ⟨outcome_perform hc, fun refuses cs hcs c' => ?_⟩
  exact (((inStep_refusing h refuses).perform hc).calls hcs).made c'

/-- A page with a line on its path, where nothing can be written any more. -/
def stuckPage : Layout ℚ :=
  { blankPage.refusing fun _ _ => some (.device (lit "no space left")) with
    path := (blankPage.path.moveTo ⟨0, 0⟩).lineTo ⟨10, 0⟩ }

/-- A picture in a format of its own. -/
def photo : Call ℚ := .picture
  { mode := lit "RGB", width := 1, height := 1, format := some (lit "png"), bitsPerPixel := 24,
    name := none, encoder := ⟨fun _ _ => .ok (), fun _ _ _ => .ok []⟩ }
  .identity

/-- The line and the way back are two failures, and the picture is a fault. -/
theorem refused_boxes_stuckPage :
    ((closing.perform.run stuckPage).1 = .ok () ∧ (closing.perform.run stuckPage).2.failed = 2)
      ∧ (photo.perform.run stuckPage).1 = .error (.device (lit "no space left"))
      ∧ (photo.perform.run stuckPage).2.failed = 0 := by
  have hopened : stuckPage.emitter.output.Opened stuckPage.placer.files := fun _ hf => by cases hf
  have hclosing : closing.channel.isSome = true := rfl
  have hphoto : photo.channel.isSome = true := rfl
  have hboxes : stuckPage.offered (.call closing) ≠ [] := by decide +kernel
  have hrefused : Output.refused (stuckPage.outcomes (stuckPage.offered (.call closing))) = 2 := by
    decide +kernel
  have hpictured : (stuckPage.pictured (.call photo)).isSome = true := by decide +kernel
  obtain ⟨picture, hpicture⟩ := Option.isSome_iff_exists.mp hpictured
  obtain ⟨hanswer, hfailed⟩ := (refused_boxes hopened hclosing).1.boxes hboxes
  rw [hrefused] at hfailed
  exact ⟨⟨hanswer, hfailed⟩, (refused_boxes hopened hphoto).1.picture picture hpicture⟩

end Folio.Layout
