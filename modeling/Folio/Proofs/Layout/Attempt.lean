import Folio.Proofs.Layout.Call

/-!
# Writes that may be refused

What a write does to an output that may refuse it: the attempt is counted either way, and a text that
is refused leaves nothing else behind (`Output.tried`). A paragraph or a rule that is refused is
dropped, so taking them never fails (`run_takeParagraph`, `run_takeRules`).

What a path operator draws is found out first, without a layout (`Path.trace`): its operands are read,
and then it gives rules and the path that is left.
-/

namespace Folio

namespace Output

/-- Whether that text is taken if it is written next. -/
def accepts (o : Output) (t : Text) : Bool := (o.refuses o.attempts t).isNone

/-- What writing that text next answers. -/
def answer (o : Output) (t : Text) : Except Fault Unit :=
  match o.refuses o.attempts t with
  | none => .ok ()
  | some fault => .error fault

/-- The output after a text has been written to it, or has been refused. -/
def tried (t : Text) (o : Output) : Output :=
  if o.accepts t then o.taken t else { o with attempts := o.attempts + 1 }

theorem run_write_eq (t : Text) (o : Output) : (write t).run o = (o.answer t, o.tried t) := by
  rw [write, Act.run_bind_ok (Act.run_get o), Act.run_bind_ok (Act.run_set _ _), answer, tried,
    accepts]
  cases o.refuses o.attempts t with
  | none => rfl
  | some fault => rfl

theorem answer_eq_ok_iff {o : Output} {t : Text} : o.answer t = .ok () ↔ o.accepts t = true := by
  rw [answer, accepts]
  cases o.refuses o.attempts t with
  | none => exact ⟨fun _ => rfl, fun _ => rfl⟩
  | some fault => exact ⟨fun h => (by cases h), fun h => (by cases h)⟩

@[simp] theorem attempts_tried (t : Text) (o : Output) :
    (o.tried t).attempts = o.attempts + 1 := by
  unfold tried
  split <;> rfl

@[simp] theorem refuses_tried (t : Text) (o : Output) : (o.tried t).refuses = o.refuses := by
  unfold tried
  split <;> rfl

@[simp] theorem pieces_tried (t : Text) (o : Output) :
    (o.tried t).pieces = if o.accepts t then t :: o.pieces else o.pieces := by
  unfold tried
  split <;> rfl

@[simp] theorem attempts_settle (o : Output) (tree : FileTree) :
    (o.settle tree).1.attempts = o.attempts := by
  obtain ⟨file, h⟩ := settle_eq o tree
  rw [h]

@[simp] theorem refuses_settle (o : Output) (tree : FileTree) :
    (o.settle tree).1.refuses = o.refuses := by
  obtain ⟨file, h⟩ := settle_eq o tree
  rw [h]

@[simp] theorem pieces_settle (o : Output) (tree : FileTree) :
    (o.settle tree).1.pieces = o.pieces := by
  obtain ⟨file, h⟩ := settle_eq o tree
  rw [h]

end Output

namespace Emitter

/-- The emitter after a write that marks the page as open or not, if it is taken. -/
def marked (t : Text) (isOpen : Bool) (e : Emitter) : Emitter :=
  { e with
    output := e.output.tried t
    pageOpen := if e.output.accepts t then isOpen else e.pageOpen }

theorem run_write_eq (t : Text) (e : Emitter) :
    (write t).run e = (e.output.answer t, e.marked t e.pageOpen) := by
  rw [write, Act.run_onPart, Output.run_write_eq, marked, ite_self]

/-- Only a text that is taken opens or closes a page. -/
theorem run_write_marked (t : Text) (isOpen : Bool) (e : Emitter) :
    (write t >>= fun _ => modify fun e => { e with pageOpen := isOpen } : Act Emitter Unit).run e
      = (e.output.answer t, e.marked t isOpen) := by
  rw [Act.run_bind, run_write_eq, marked, marked, Output.answer, Output.accepts]
  cases e.output.refuses e.output.attempts t with
  | none => rfl
  | some fault => rfl

theorem run_documentEnd_eq {e : Emitter} (hclosed : e.pageOpen = false) :
    documentEnd.run e = (e.output.answer Html.documentEnd, e.marked Html.documentEnd false) := by
  obtain ⟨output, unit, pageOpen⟩ := e
  cases hclosed
  rw [documentEnd, Act.run_bind_ok (Act.run_get _)]
  exact run_write_eq _ _

variable {α : Type} [Scalar α]

theorem run_pageStart_eq (page : Page.Frame α) (e : Emitter) :
    (pageStart page).run e
      = (e.output.answer (Html.pageStart e.unit page), e.marked (Html.pageStart e.unit page) true) := by
  rw [pageStart, Act.run_bind_ok (Act.run_get e)]
  exact run_write_marked _ _ _

theorem run_paragraph_eq (fallback : Text) (p : Paragraph α) (e : Emitter) :
    (paragraph fallback p).run e = (e.output.answer (Html.paragraph e.unit fallback p),
      e.marked (Html.paragraph e.unit fallback p) e.pageOpen) := by
  rw [paragraph, Act.run_bind_ok (Act.run_get e)]
  exact run_write_eq _ _

theorem run_rule_eq (r : Rule α) (e : Emitter) :
    (rule r).run e
      = (e.output.answer (Html.rule e.unit r), e.marked (Html.rule e.unit r) e.pageOpen) := by
  rw [rule, Act.run_bind_ok (Act.run_get e)]
  exact run_write_eq _ _

theorem run_picture_eq (p : Picture α) (e : Emitter) :
    (picture p).run e
      = (e.output.answer (Html.picture e.unit p), e.marked (Html.picture e.unit p) e.pageOpen) := by
  rw [picture, Act.run_bind_ok (Act.run_get e)]
  exact run_write_eq _ _

end Emitter

namespace Layout

variable {α : Type}

/-! ## Writing -/

/-- The layout after a text has been written, or has been refused; if it is taken, a page is open or
not from then on. -/
def attempted (t : Text) (isOpen : Bool) (l : Layout α) : Layout α :=
  bring Output.settle (l.emitter.marked t isOpen) l

section

variable (t : Text) (isOpen : Bool) (l : Layout α)

@[simp] theorem attempted_options : (l.attempted t isOpen).options = l.options := rfl

@[simp] theorem attempted_fonts : (l.attempted t isOpen).fonts = l.fonts := rfl

@[simp] theorem attempted_path : (l.attempted t isOpen).path = l.path := rfl

@[simp] theorem attempted_segmenter : (l.attempted t isOpen).segmenter = l.segmenter := rfl

@[simp] theorem attempted_page : (l.attempted t isOpen).page = l.page := rfl

@[simp] theorem attempted_tally : (l.attempted t isOpen).tally = l.tally := rfl

@[simp] theorem attempted_unit : (l.attempted t isOpen).emitter.unit = l.emitter.unit := rfl

@[simp] theorem attempted_index : (l.attempted t isOpen).placer.index = l.placer.index := rfl

@[simp] theorem attempted_placerLog : (l.attempted t isOpen).placer.log = l.placer.log := rfl

@[simp] theorem attempted_pageOpen : (l.attempted t isOpen).emitter.pageOpen
    = if l.emitter.output.accepts t then isOpen else l.emitter.pageOpen := rfl

@[simp] theorem attempted_attempts : (l.attempted t isOpen).emitter.output.attempts
    = l.emitter.output.attempts + 1 := by
  show ((l.emitter.output.tried t).settle l.placer.files).1.attempts = _
  simp

@[simp] theorem attempted_refuses : (l.attempted t isOpen).emitter.output.refuses
    = l.emitter.output.refuses := by
  show ((l.emitter.output.tried t).settle l.placer.files).1.refuses = _
  simp

@[simp] theorem attempted_pieces : (l.attempted t isOpen).emitter.output.pieces
    = if l.emitter.output.accepts t then t :: l.emitter.output.pieces
      else l.emitter.output.pieces := by
  show ((l.emitter.output.tried t).settle l.placer.files).1.pieces = _
  simp

end

theorem run_emit_eq {act : Act Emitter Unit} {l : Layout α} {t : Text} {isOpen : Bool}
    (h : act.run l.emitter = (l.emitter.output.answer t, l.emitter.marked t isOpen)) :
    (emit act).run l = (l.emitter.output.answer t, l.attempted t isOpen) := by
  rw [emit, Act.run_onPart, h]
  rfl

theorem run_emit_pageEnd (l : Layout α) :
    (emit Emitter.pageEnd).run l
      = (l.emitter.output.answer Html.pageEnd, l.attempted Html.pageEnd false) :=
  run_emit_eq (Emitter.run_write_marked _ _ _)

theorem run_emit_documentStart (title : Text) (l : Layout α) :
    (emit (Emitter.documentStart title)).run l
      = (l.emitter.output.answer (Html.documentStart title),
        l.attempted (Html.documentStart title) l.emitter.pageOpen) :=
  run_emit_eq (Emitter.run_write_eq (Html.documentStart title) _)

theorem run_emit_documentEnd {l : Layout α} (hclosed : l.emitter.pageOpen = false) :
    (emit Emitter.documentEnd).run l
      = (l.emitter.output.answer Html.documentEnd, l.attempted Html.documentEnd false) :=
  run_emit_eq (Emitter.run_documentEnd_eq hclosed)

variable [Scalar α]

theorem run_emit_pageStart_eq (page : Page.Frame α) (l : Layout α) :
    (emit (Emitter.pageStart page)).run l
      = (l.emitter.output.answer (Html.pageStart l.emitter.unit page),
        l.attempted (Html.pageStart l.emitter.unit page) true) :=
  run_emit_eq (Emitter.run_pageStart_eq page _)

theorem run_emit_picture (p : Picture α) (l : Layout α) :
    (emit (Emitter.picture p)).run l
      = (l.emitter.output.answer (Html.picture l.emitter.unit p),
        l.attempted (Html.picture l.emitter.unit p) l.emitter.pageOpen) :=
  run_emit_eq (Emitter.run_picture_eq p _)

/-! ## Boxes that are dropped when they are refused -/

/-- A paragraph as it is written. -/
def paragraphHtml (l : Layout α) (p : Paragraph α) : Text :=
  Html.paragraph l.emitter.unit l.options.fallbackFamily p

/-- A rule as it is written. -/
def ruleHtml (l : Layout α) (r : Rule α) : Text := Html.rule l.emitter.unit r

theorem run_emit_paragraph (p : Paragraph α) (l : Layout α) :
    (emit (Emitter.paragraph l.options.fallbackFamily p)).run l
      = (l.emitter.output.answer (l.paragraphHtml p),
        l.attempted (l.paragraphHtml p) l.emitter.pageOpen) :=
  run_emit_eq (Emitter.run_paragraph_eq _ p _)

theorem run_emit_rule (r : Rule α) (l : Layout α) :
    (emit (Emitter.rule r)).run l
      = (l.emitter.output.answer (l.ruleHtml r), l.attempted (l.ruleHtml r) l.emitter.pageOpen) :=
  run_emit_eq (Emitter.run_rule_eq r _)

/-- The layout after it has taken a paragraph, which it counts as written or as a failure. -/
def tookParagraph (l : Layout α) (p : Paragraph α) : Layout α :=
  let accepted := l.emitter.output.accepts (l.paragraphHtml p)
  { l.attempted (l.paragraphHtml p) l.emitter.pageOpen with
    tally := { l.tally with paragraphs := l.tally.paragraphs + if accepted then 1 else 0 }
    segmenter := if accepted then l.segmenter else l.segmenter.noteFailure
    log := if accepted then l.log else l.log ++ Log.error Segmenter.failureReport }

/-- The layout after it has taken a rule, which it counts as written or as a failure. -/
def tookRule (l : Layout α) (r : Rule α) : Layout α :=
  let accepted := l.emitter.output.accepts (l.ruleHtml r)
  { l.attempted (l.ruleHtml r) l.emitter.pageOpen with
    tally := { l.tally with
      rules := l.tally.rules + if accepted then 1 else 0
      failures := l.tally.failures + if accepted then 0 else 1 }
    log := if accepted then l.log else l.log ++ Log.error ruleReport }

theorem run_takeParagraph (out : Option (Paragraph α)) (l : Layout α) :
    (takeParagraph out).run l = (.ok (), out.elim l l.tookParagraph) := by
  cases out with
  | none => rfl
  | some p =>
    simp only [takeParagraph, Act.run_tryCatch]
    rw [Act.run_bind_ok (Act.run_get l), Act.run_bind, run_emit_paragraph]
    show _ = (Except.ok (), l.tookParagraph p)
    rw [tookParagraph, Output.answer, Output.accepts]
    cases l.emitter.output.refuses l.emitter.output.attempts (l.paragraphHtml p) with
    | none => rfl
    | some fault => rfl

theorem run_takeRules (rules : List (Rule α)) (l : Layout α) :
    (takeRules rules).run l = (.ok (), rules.foldl tookRule l) := by
  induction rules generalizing l with
  | nil => rfl
  | cons r rules ih =>
    have hfirst : (tryCatch (emit (Emitter.rule r) >>= fun _ =>
          count fun t => { t with rules := t.rules + 1 }) (fun _ =>
        report (Log.error ruleReport) >>= fun _ =>
          count fun t => { t with failures := t.failures + 1 })).run l
        = (.ok (), l.tookRule r) := by
      rw [Act.run_tryCatch, Act.run_bind, run_emit_rule, tookRule, Output.answer, Output.accepts]
      cases l.emitter.output.refuses l.emitter.output.attempts (l.ruleHtml r) with
      | none => rfl
      | some fault => rfl
    rw [takeRules, Act.run_bind_ok hfirst, ih]
    rfl

/-! ## Path operators -/

/-- What a path operator makes of a path: rules to draw, and the path that is left. -/
def trace (page : Page.Frame α) (op : Operator α) (verb : PathVerb) (path : Path α) :
    Except Fault (List (Rule α) × Path α) :=
  let t := device page op
  match verb with
  | .move => (numbers? op 2).map fun values => ([],
    match values with
    | some [x, y] => path.moveTo (t.apply x y)
    | _ => path)
  | .line => (numbers? op 2).map fun values => ([],
    match values with
    | some [x, y] => path.lineTo (t.apply x y)
    | _ => path)
  | .curve n => (numbers? op n).map fun values => ([],
    match values.map (List.drop (n - 2)) with
    | some [x, y] => path.curveTo (t.apply x y)
    | _ => path)
  | .rectangle => (numbers? op 4).map fun values => ([],
    match values with
    | some [x, y, width, height] => path.rectangle t x y width height
    | _ => path)
  | .close => .ok ([], path.close)
  | .stroke => .ok (path.stroke (op.ctm.scaleLength op.lineWidth))
  | .closeAndStroke => .ok (path.close.stroke (op.ctm.scaleLength op.lineWidth))
  | .discard => .ok ([], path.discard)

/-- A path operator whose operands cannot be read changes nothing; any other leaves the path of its
trace and draws the rules of it. -/
theorem run_drawPath (page : Page.Frame α) (op : Operator α) (verb : PathVerb) (l : Layout α) :
    (drawPath page op verb).run l
      = match trace page op verb l.path with
        | .error e => (.error e, l)
        | .ok (rules, path) => (takeRules rules).run { l with path := path } := by
  cases verb with
  | move | line =>
    rw [drawPath, Act.run_bind, Act.run_ofExcept, trace]
    rcases numbers? op 2 with e | _ | values
    · rfl
    · rfl
    · rcases values with _ | ⟨x, _ | ⟨y, _ | ⟨z, rest⟩⟩⟩ <;> rfl
  | curve n =>
    rw [drawPath, Act.run_bind, Act.run_ofExcept, trace]
    rcases numbers? op n with e | _ | values
    · rfl
    · rfl
    · simp only [Except.map, Option.map]
      rcases values.drop (n - 2) with _ | ⟨x, _ | ⟨y, _ | ⟨z, rest⟩⟩⟩ <;> rfl
  | rectangle =>
    rw [drawPath, Act.run_bind, Act.run_ofExcept, trace]
    rcases numbers? op 4 with e | _ | values
    · rfl
    · rfl
    · rcases values with _ | ⟨x, _ | ⟨y, _ | ⟨width, _ | ⟨height, _ | ⟨z, rest⟩⟩⟩⟩⟩ <;> rfl
  | close => rfl
  | stroke => rfl
  | closeAndStroke => rfl
  | discard => rfl

/-! ## Calls on a page -/

section

variable {l : Layout α} {page : Page.Frame α}

/-- Outside of a page, a glyph is ignored. -/
theorem run_addGlyph_of_none (hpage : l.page = none) (glyph : Glyph α) :
    (addGlyph glyph).run l = (.ok (), l) := by
  have hnone : l.page.isNone = true := by rw [hpage]; rfl
  rw [addGlyph, Act.run_bind_ok (Act.run_get l), hnone, if_pos rfl]
  rfl

/-- So is an operator. -/
theorem run_addOperator_of_none (hpage : l.page = none) (op : Operator α) :
    (addOperator op).run l = (.ok (), l) := by
  rw [addOperator, Act.run_bind_ok (Act.run_get l), hpage]
  rfl

/-- So is a picture. -/
theorem run_addPicture_of_none (hpage : l.page = none) (raster : Raster) (user : Affine α) :
    (addPicture raster user).run l = (.ok (), l) := by
  rw [addPicture, Act.run_bind_ok (Act.run_get l), hpage]
  rfl

/-- On a page, a glyph goes to the segmenter, and the paragraph that it finishes is taken. -/
theorem run_addGlyph_of_page (hpage : l.page = some page) (glyph : Glyph α) :
    (addGlyph glyph).run l = match l.segmenter.feed l.fonts glyph with
      | .error e => (.error e, l)
      | .ok (s, out) => (takeParagraph out).run { l with segmenter := s } := by
  have hnone : l.page.isNone = false := by rw [hpage]; rfl
  rw [addGlyph, Act.run_bind_ok (Act.run_get l), hnone, if_neg Bool.false_ne_true, Act.run_bind,
    Act.run_ofExcept]
  cases l.segmenter.feed l.fonts glyph with
  | error e => rfl
  | ok answer => rfl

/-- The end of a page whose last paragraph has been taken. -/
def finishPage : Act (Layout α) Unit := do
  modify fun l => { l with path := l.path.discard }
  emit Emitter.pageEnd
  count fun t => { t with pages := t.pages + 1 }
  modify fun l => { l with page := none }

/-- The layout after a page whose end has been written. -/
def finished (l : Layout α) : Layout α :=
  { ({ l with path := l.path.discard } : Layout α).attempted Html.pageEnd false with
    tally := { l.tally with pages := l.tally.pages + 1 }
    page := none }

omit [Scalar α] in
/-- A page whose end is refused goes on without its path. -/
theorem run_finishPage (l : Layout α) :
    finishPage.run l = match l.emitter.output.answer Html.pageEnd with
      | .ok () => (.ok (), l.finished)
      | .error e => (.error e,
          ({ l with path := l.path.discard } : Layout α).attempted Html.pageEnd false) := by
  have hemit := run_emit_pageEnd ({ l with path := l.path.discard } : Layout α)
  rw [finishPage, Act.run_bind_ok (Act.run_modify _ l)]
  simp only at hemit ⊢
  cases hanswer : l.emitter.output.answer Html.pageEnd with
  | ok =>
    rw [hanswer] at hemit
    rw [Act.run_bind_ok hemit]
    rfl
  | error e =>
    rw [hanswer] at hemit
    rw [Act.run_bind_error hemit]

/-- A page ends with what the segmenter holds back. -/
theorem run_endPage_of_page (hpage : l.page = some page) :
    endPage.run l = finishPage.run
      ((takeParagraph l.segmenter.endPage.2).run { l with segmenter := l.segmenter.endPage.1 }).2 := by
  have hnone : l.page.isNone = false := by rw [hpage]; rfl
  rw [endPage, Act.run_bind_ok (Act.run_get l), hnone, if_neg Bool.false_ne_true,
    Act.run_bind_ok (Act.run_get l)]
  rcases l.segmenter.endPage with ⟨s, out⟩
  simp only
  rw [Act.run_bind_ok (Act.run_modify _ l), Act.run_bind_ok (run_takeParagraph out _),
    run_takeParagraph]
  rfl

/-- Without a page there is none to end. -/
theorem run_endPage_of_none (hpage : l.page = none) : endPage.run l = (.ok (), l) := by
  have hnone : l.page.isNone = true := by rw [hpage]; rfl
  rw [endPage, Act.run_bind_ok (Act.run_get l), hnone, if_pos rfl]
  rfl

/-- What placing a picture makes of a placer, with the answer. -/
def placing (options : Options α) (raster : Raster) (page user : Affine α) (p : Placer) :
    Except Fault (Option (Picture α)) × Placer :=
  (Placer.place options raster page user).run { p with log := [] }

/-- Placing a picture changes the placer, and what that reports goes to the log. -/
theorem run_place_eq (raster : Raster) (page user : Affine α) (l : Layout α) :
    (place raster page user).run l = ((placing l.options raster page user l.placer).1,
      { l with
        placer := { (placing l.options raster page user l.placer).2 with log := [] }
        log := l.log ++ (placing l.options raster page user l.placer).2.log }) := rfl

/-- Writes a picture that has been placed, and counts it. -/
def drawPlaced (picture : Picture α) : Act (Layout α) Unit := do
  emit (Emitter.picture picture)
  count fun t => { t with pictures := t.pictures + 1 }

/-- The layout with one more picture skipped. -/
def skipping (l : Layout α) : Layout α :=
  { l with tally := { l.tally with skippedPictures := l.tally.skippedPictures + 1 } }

/-- The layout after it has dropped a picture that cannot be encoded or stored. -/
def dropping (raster : Raster) (fault : Fault) (l : Layout α) : Layout α :=
  { l with
    log := l.log ++ Log.error (Text.join [Text.lit "Dropping image ", raster.title,
      Text.lit ": ", fault.message])
    tally := { l.tally with
      failures := l.tally.failures + 1
      skippedPictures := l.tally.skippedPictures + 1 } }

/-- On a page, a picture is placed, and then it is drawn, skipped or dropped. -/
theorem run_addPicture_of_page (hpage : l.page = some page) (raster : Raster) (user : Affine α) :
    (addPicture raster user).run l = match (place raster page.transform user).run l with
      | (.ok (some picture), l') => (drawPlaced picture).run l'
      | (.ok none, l') => (.ok (), l'.skipping)
      | (.error fault, l') =>
        if fault.isPictureFault then (.ok (), l'.dropping raster fault)
        else (.error fault, l') := by
  rw [addPicture, Act.run_bind_ok (Act.run_get l), hpage]
  simp only
  rw [Act.run_bind, Act.run_tryCatch, Act.run_map]
  rcases (place raster page.transform user).run l with ⟨fault | (_ | picture), l'⟩
  · simp only [Except.map]
    by_cases hfault : fault.isPictureFault = true
    · rw [if_pos hfault, if_pos hfault]
      rfl
    · rw [if_neg hfault, if_neg hfault]
      rfl
  · rfl
  · rfl

end

end Layout

end Folio
