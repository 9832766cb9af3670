import Folio.Event
import Folio.Html.Emitter
import Folio.Image.Placer
import Folio.Paragraph.Segmenter
import Folio.Path

/-!
# Layout

The listener that turns page events into HTML. Glyphs go through the segmenter, path operators
through the path and pictures through the placer; what comes out is written at once and counted.

A paragraph or a rule that cannot be written is dropped and counted as a failure, and so is a
picture that cannot be encoded or stored. Other faults go back to whoever sent the event.
-/

namespace Folio

/-- A document in the middle of being laid out. -/
structure Layout (α : Type) where
  options : Options α
  emitter : Emitter
  fonts : FontTable α
  path : Path α
  placer : Placer
  segmenter : Segmenter α
  page : Option (Page.Frame α) := none
  tally : Tally := {}
  log : Log := []

namespace Layout

variable {α : Type} [Scalar α]

def start (options : Options α) (output : Output) (files : FileTree) : Layout α where
  options := options
  emitter := { output := output, unit := options.unit }
  fonts := { fallback := options.fallbackFamily }
  path := { minStroke := options.minStroke, transform := .identity }
  placer := { files := files }
  segmenter := .new options

/-- A layout before its document, for options that make sense. -/
def new (options : Options α) (output : Output) (files : FileTree) : Except Fault (Layout α) := do
  options.check
  return start options output files

def report (log : Log) : Act (Layout α) Unit := modify fun l => { l with log := l.log ++ log }

def count (f : Tally → Tally) : Act (Layout α) Unit := modify fun l => { l with tally := f l.tally }

/-- The layout with an emitter whose output has been brought to its file by `act`. -/
def bring (act : Output → FileTree → Output × FileTree) (e : Emitter) (l : Layout α) : Layout α :=
  let (output, files) := act e.output l.placer.files
  { l with emitter := { e with output := output }, placer := { l.placer with files := files } }

/-- Writes something. The output settles before anything else can happen to its file. -/
def emit (act : Act Emitter Unit) : Act (Layout α) Unit :=
  act.onPart (·.emitter) (bring Output.settle)

/-- The layout with all that was written in its file. -/
def closed (l : Layout α) : Layout α := bring Output.close l.emitter l

/-- Writes a paragraph that the segmenter hands out; one that cannot be written is dropped. -/
def takeParagraph (out : Option (Paragraph α)) : Act (Layout α) Unit := do
  match out with
  | none => pure ()
  | some p =>
    try
      emit (Emitter.paragraph (← get).options.fallbackFamily p)
      count fun t => { t with paragraphs := t.paragraphs + 1 }
    catch _ =>
      modify fun l => { l with segmenter := l.segmenter.noteFailure }
      report (Log.error Segmenter.failureReport)

/-- What is reported when a rule cannot be written. -/
def ruleReport : Text := Text.lit "Failed to emit line box"

/-- Writes rules; one that cannot be written is dropped. -/
def takeRules : List (Rule α) → Act (Layout α) Unit
  | [] => pure ()
  | rule :: rest => do
    try
      emit (Emitter.rule rule)
      count fun t => { t with rules := t.rules + 1 }
    catch _ =>
      report (Log.error ruleReport)
      count fun t => { t with failures := t.failures + 1 }
    takeRules rest

/-- Ends the page, if there is one. -/
def endPage : Act (Layout α) Unit := do
  if (← get).page.isNone then return
  let (segmenter, out) := (← get).segmenter.endPage
  modify fun l => { l with segmenter := segmenter }
  takeParagraph out
  -- What has not been stroked by now is never drawn.
  modify fun l => { l with path := l.path.discard }
  emit Emitter.pageEnd
  count fun t => { t with pages := t.pages + 1 }
  modify fun l => { l with page := none }

/-- Ends a page that has not been ended when the next one begins. -/
def endForgottenPage (number : Int) : Act (Layout α) Unit := do
  match (← get).page with
  | none => pure ()
  | some page =>
    report (Log.warning (Text.join [Text.lit "Page ", Text.ofInt number,
      Text.lit " began before page ", Text.ofInt page.number, Text.lit " ended"]))
    endPage

def beginPage (number : Int) (crop : Option (CropBox α)) (rotation : Angle α) :
    Act (Layout α) Unit := do
  endForgottenPage number
  let (turn, warning) ← Act.ofExcept rotation.rotation
  report ((warning.map Log.warning).getD [])
  let page := Page.frame number crop turn
  modify fun l =>
    { l with
      page := some page
      path := l.path.reset page.transform
      segmenter := l.segmenter.beginPage page.width }
  emit (Emitter.pageStart page)

/-- Brings the count of unsupported fonts up to date. -/
def countFonts : Act (Layout α) Unit :=
  modify fun l =>
    { l with tally := { l.tally with unsupportedFonts := l.fonts.unsupportedCount } }

/-- Enters the fonts of a page; without resources there are none. -/
def addFonts (found : Option (Catalog α × Nat)) : Act (Layout α) Unit := do
  match found with
  | none => pure ()
  | some (catalog, index) =>
    let (fonts, log) := (← get).fonts.update catalog index
    modify fun l => { l with fonts := fonts }
    report log
  countFonts

/-- Takes a glyph; one outside of a page is ignored. -/
def addGlyph (glyph : Glyph α) : Act (Layout α) Unit := do
  let l ← get
  if l.page.isNone then return
  let (segmenter, out) ← Act.ofExcept (l.segmenter.feed l.fonts glyph)
  -- The paragraph that the glyph finishes is written before the glyph counts as taken.
  set { l with segmenter := segmenter }
  takeParagraph out

def place (raster : Raster) (page user : Affine α) : Act (Layout α) (Option (Picture α)) := do
  let options := (← get).options
  (Placer.place options raster page user).onPart (fun l => { l.placer with log := [] })
    fun p l => { l with placer := { p with log := [] }, log := l.log ++ p.log }

/-- Draws a picture; one that cannot be encoded or stored is dropped. -/
def addPicture (raster : Raster) (user : Affine α) : Act (Layout α) Unit := do
  match (← get).page with
  | none => pure ()
  | some page =>
    let skipped : Act (Layout α) Unit :=
      count fun t => { t with skippedPictures := t.skippedPictures + 1 }
    let placed : Option (Option (Picture α)) ←
      try
        some <$> place raster page.transform user
      catch fault =>
        if fault.isPictureFault then
          report (Log.error (Text.join [Text.lit "Dropping image ", raster.title, Text.lit ": ",
            fault.message]))
          count fun t => { t with failures := t.failures + 1 }
          pure none
        else throw fault
    match placed with
    -- A picture that was dropped counts as skipped as well.
    | none | some none => skipped
    | some (some picture) =>
      emit (Emitter.picture picture)
      count fun t => { t with pictures := t.pictures + 1 }

/-- The first `count` operands of an operator as numbers, or nothing if there are fewer. What reads
as no number counts as zero. -/
def numbers? (op : Operator α) (count : Nat) : Except Fault (Option (List α)) :=
  if op.operands.length < count then .ok none
  else ((op.operands.take count).mapM (op.graph.numberOr 0)).map some

/-- The map from an operator's user space to the page. -/
def device (page : Page.Frame α) (op : Operator α) : Affine α := page.transform.concatenate op.ctm

def draw (f : Path α → Path α) : Act (Layout α) Unit :=
  modify fun l => { l with path := f l.path }

def stroke (op : Operator α) : Act (Layout α) Unit := do
  let (rules, path) := (← get).path.stroke (op.ctm.scaleLength op.lineWidth)
  modify fun l => { l with path := path }
  takeRules rules

/-- What a path operator does. -/
inductive PathVerb
  | move
  | line
  /-- A curve with that many operands. -/
  | curve (operands : Nat)
  | rectangle
  | close
  | stroke
  | closeAndStroke
  | discard
  deriving DecidableEq, Repr

/-- The path operators. Filled and clipping paths are not drawn. -/
def PathVerb.ofName? (name : Text) : Option PathVerb :=
  let verbs : List (String × PathVerb) := [
    ("m", .move), ("l", .line), ("c", .curve 6), ("v", .curve 4), ("y", .curve 4),
    ("re", .rectangle), ("h", .close), ("S", .stroke), ("B", .stroke), ("B*", .stroke),
    ("s", .closeAndStroke), ("b", .closeAndStroke), ("b*", .closeAndStroke), ("f", .discard),
    ("F", .discard), ("f*", .discard), ("n", .discard)]
  (verbs.find? fun v => Text.lit v.1 = name).map (·.2)

/-- Carries out a path operator; one with too few operands is ignored. -/
def drawPath (page : Page.Frame α) (op : Operator α) (verb : PathVerb) : Act (Layout α) Unit := do
  let t := device page op
  let operands (n : Nat) : Act (Layout α) (Option (List α)) :=
    Act.ofExcept (numbers? op n)
  match verb with
  | .move =>
    if let some [x, y] ← operands 2 then draw fun path => path.moveTo (t.apply x y)
  | .line =>
    if let some [x, y] ← operands 2 then draw fun path => path.lineTo (t.apply x y)
  | .curve n =>
    if let some values ← operands n then
      -- Only the end point matters, which the last two operands give.
      if let [x, y] := values.drop (n - 2) then draw fun path => path.curveTo (t.apply x y)
  | .rectangle =>
    if let some [x, y, width, height] ← operands 4 then
      draw fun path => path.rectangle t x y width height
  | .close => draw Path.close
  | .stroke => stroke op
  | .closeAndStroke =>
    draw Path.close
    stroke op
  | .discard => draw Path.discard

/-- The external object that an operand names, with or without the slash of a name. -/
def named? (resources : Resources α) (name : Text) : Option ExternalObject :=
  match resources.object? name with
  | some object => some object
  | none => resources.object? (name.dropWhile (· = CodePoint.ofChar '/'))

/-- The picture that the first operand names, with that name; anything else is no picture. -/
def picture? (op : Operator α) : Except Fault (Option (Text × PictureResource)) := do
  match op.operands, op.resources with
  | operand :: _, some resources =>
    let name ← op.graph.text operand
    match named? resources name with
    | some (.picture picture) => return some (name, picture)
    | _ => return none
  | _, _ => return none

/-- Draws the picture that the first operand names; anything else is left alone. -/
def drawObject (op : Operator α) : Act (Layout α) Unit := do
  let skipped : Act (Layout α) Unit :=
    count fun t => { t with skippedPictures := t.skippedPictures + 1 }
  match ← Act.ofExcept (picture? op) with
  | none => pure ()
  | some (name, picture) =>
    match picture.decoded with
    | .raster raster => addPicture raster op.ctm
    | .nothing =>
      report (Log.warning (Text.join [
        Text.lit "Image ", name, Text.lit " could not be resolved"]))
      skipped
    | .failed cause =>
      report (Log.warning (Text.join [
        Text.lit "Failed to decode image ", name, Text.lit ": ", cause.message]))
      skipped

/-- Carries out an operator; one outside of a page is ignored. -/
def addOperator (op : Operator α) : Act (Layout α) Unit := do
  match (← get).page with
  | none => pure ()
  | some page =>
    match PathVerb.ofName? op.name with
    | some verb => drawPath page op verb
    | none => if op.name = Text.lit "Do" then drawObject op

def beginDocument (title : Option Text) : Act (Layout α) Unit :=
  emit (Emitter.documentStart (title.getD []))

/-- Ends the document and its last page. -/
def endDocument : Act (Layout α) Unit := do
  endPage
  emit Emitter.documentEnd
  countFonts
  modify fun l =>
    { l with
      tally := { l.tally with failures := l.tally.failures + l.segmenter.failures }
      segmenter := { l.segmenter with failures := 0 } }

def receive : Event α → Act (Layout α) Unit
  | .documentBegin title => beginDocument title
  | .pageBegin number crop rotation => beginPage number (some crop) (.whole rotation)
  | .resources catalog index => addFonts (some (catalog, index))
  | .glyph glyph => addGlyph glyph
  | .operator op => addOperator op
  | .pageEnd => endPage
  | .documentEnd => endDocument

end Layout

end Folio
