import Folio.Event
import Folio.Pdf.Operator
import Folio.Pdf.ResourceModel

/-!
# Walking content

The interpreter of content streams. It keeps the graphics state, the stack of saved states and the
text matrices, and sends glyphs, path operators and pictures to a listener. Forms are walked where
they are drawn, unless they are being drawn already.

A malformed operator is skipped; what it changed before it turned out to be malformed stays. A form
that cannot be read is skipped or ends the walk, as an operator with that fault.
-/

namespace Folio.Pdf

/-- The state in which operators are carried out. `scaling` is in percent. -/
structure Graphics (α : Type) where
  ctm : Affine α
  lineWidth : α
  font : Option (Font α)
  fontSize : α
  charSpacing : α
  wordSpacing : α
  scaling : α
  leading : α
  rise : α

/-- A walk through a page. -/
structure Walker (α σ : Type) where
  graphics : Graphics α
  stack : List (Graphics α)
  textMatrix : Affine α
  lineMatrix : Affine α
  listener : σ

/-- What a walk refers to. -/
structure WalkContext (α σ : Type) where
  graph : Graph α
  model : ResourceModel α
  /-- The map from user space to the page. -/
  page : Affine α
  listener : Listener α σ

namespace Walker

variable {α σ : Type} [Scalar α]

/-- The state at the start of a page. -/
def initialGraphics : Graphics α where
  ctm := .identity
  lineWidth := 1
  font := none
  fontSize := 0
  charSpacing := 0
  wordSpacing := 0
  scaling := Scalar.ofNat 100
  leading := 0
  rise := 0

/-- A walk at the start of a page. -/
def start (listener : σ) : Walker α σ where
  graphics := initialGraphics
  stack := []
  textMatrix := .identity
  lineMatrix := .identity
  listener := listener

def change (f : Graphics α → Graphics α) : Act (Walker α σ) Unit :=
  modify fun w => { w with graphics := f w.graphics }

def send (c : WalkContext α σ) (e : Event α) : Act (Walker α σ) Unit :=
  (c.listener.receive e).onPart (·.listener) fun s w => { w with listener := s }

/-- The first `count` operands as numbers; what reads as no number counts as zero. -/
def numbers (c : WalkContext α σ) (operands : List (Object α)) (count : Nat) :
    Except Fault (List α) :=
  if operands.length < count then .error (.badValue (Text.lit "missing operands"))
  else (operands.take count).mapM (c.graph.numberOr 0)

/-- The first operand as a number. -/
def one (c : WalkContext α σ) (operands : List (Object α)) : Act (Walker α σ) α := do
  match ← Act.ofExcept (numbers c operands 1) with
  | [x] => return x
  | _ => throw .missingItem

/-- The first two operands as numbers. -/
def two (c : WalkContext α σ) (operands : List (Object α)) : Act (Walker α σ) (α × α) := do
  match ← Act.ofExcept (numbers c operands 2) with
  | [x, y] => return (x, y)
  | _ => throw .missingItem

/-- The first six operands as a map. -/
def six (c : WalkContext α σ) (operands : List (Object α)) : Act (Walker α σ) (Affine α) := do
  match Affine.ofList? (← Act.ofExcept (numbers c operands 6)) with
  | some t => return t
  | none => throw .missingItem

def operand (operands : List (Object α)) (i : Nat) : Act (Walker α σ) (Object α) :=
  match operands[i]? with
  | some o => pure o
  | none => throw .missingItem

def textOperand (c : WalkContext α σ) (operands : List (Object α)) (i : Nat) :
    Act (Walker α σ) Text := do
  Act.ofExcept (c.graph.text (← operand operands i))

/-- Moves to the start of a line, relative to the start of the last one. -/
def nextLine (x y : α) : Act (Walker α σ) Unit :=
  modify fun w =>
    let t := w.lineMatrix.translate x y
    { w with lineMatrix := t, textMatrix := t }

def advance (x : α) : Act (Walker α σ) Unit :=
  modify fun w => { w with textMatrix := w.textMatrix.translate x 0 }

/-- The map from the text space of a glyph of size one to the page. -/
def device (page : Affine α) (g : Graphics α) (textMatrix : Affine α) : Affine α :=
  ((page.concatenate g.ctm).concatenate textMatrix).concatenate
    ⟨g.fontSize * (g.scaling / Scalar.ofNat 100), 0, 0, g.fontSize, 0, g.rise⟩

/-- The glyph of a shown code. -/
def glyph (device : Affine α) (g : Graphics α) (ratio : α) (s : ShownCode α) : Glyph α :=
  let origin := device.apply 0 0
  let stop := device.apply (Scalar.perMille s.width) 0
  let yScale := Scalar.hypot device.c device.d
  { text := s.text
    x := origin.x
    y := origin.y
    width := Scalar.hypot (stop.x - origin.x) (stop.y - origin.y)
    height := ratio * yScale
    font := g.font
    fontSize := g.fontSize
    xScale := Scalar.hypot device.a device.b
    yScale := yScale }

/-- How far a shown code moves on. Word spacing counts for the single byte of a blank. -/
def step (g : Graphics α) (s : ShownCode α) : α :=
  let advance := Scalar.perMille s.width * g.fontSize + g.charSpacing
  let advance := if s.code = [0x20] then advance + g.wordSpacing else advance
  advance * (g.scaling / Scalar.ofNat 100)

/-- Shows codes one after the other; one whose text is empty only moves on. What a code means is
looked up when its turn comes, so that those before one that fails are shown. -/
def showCodes (c : WalkContext α σ) (g : Graphics α) (decoder : Decoder α) :
    List Bytes → Act (Walker α σ) Unit
  | [] => pure ()
  | code :: rest => do
    let s ← Act.ofExcept (decoder.shown code)
    if !s.text.isEmpty then
      send c (.glyph (glyph (device c.page g (← get).textMatrix) g decoder.heightRatio s))
    advance (step g s)
    showCodes c g decoder rest

/-- The bytes of a shown value: its own, those that its text was decoded from, or else what it says
as a text, in Latin-1. -/
def stringBytes (graph : Graph α) (o : Object α) : Except Fault Bytes :=
  match o with
  | .bytes b | .text _ (some b) => .ok b
  | .reference n => do
    match ← graph.references.source n with
    | some b => return b
    | none => return (← graph.text o).latin1
  | o => (graph.text o).map Text.latin1

def showString (c : WalkContext α σ) (value : Object α) : Act (Walker α σ) Unit := do
  let g := (← get).graphics
  match g.font.bind c.model.decoder? with
  | none => pure ()
  | some decoder =>
    let bytes ← Act.ofExcept (stringBytes c.graph value)
    showCodes c g decoder (decoder.split bytes)

/-- Shows the strings among the items and moves back by the numbers, in thousandths. -/
def showItems (c : WalkContext α σ) : List (Object α) → Act (Walker α σ) Unit
  | [] => pure ()
  | item :: rest => do
    match item with
    | .text .. | .bytes _ => showString c item
    | _ =>
      let g := (← get).graphics
      let adjustment ← Act.ofExcept (c.graph.numberOr 0 item)
      advance (Scalar.perMille (-adjustment) * g.fontSize * g.scaling / Scalar.ofNat 100)
    showItems c rest

/-- The items of a value. -/
def itemsOf (graph : Graph α) : Object α → Except Fault (List (Object α))
  | .reference n => graph.references.items n
  | o =>
    match Node.parts? graph.nodes o with
    | some items => .ok items
    | none => .error (.wrongKind (Text.join
      [Text.lit "\x27", o.kind, Text.lit "\x27 object is not iterable"]))

def operatorEvent (graph : Graph α) (g : Graphics α) (i : Instruction α)
    (resources : Resources α) : Event α :=
  .operator ⟨i.operator, i.operands, graph, g.ctm, g.lineWidth, some resources⟩

def sendOperator (c : WalkContext α σ) (resources : Resources α) (i : Instruction α) :
    Act (Walker α σ) Unit := do
  send c (operatorEvent c.graph (← get).graphics i resources)

/-- Carries out an operator that draws no form. -/
def perform (c : WalkContext α σ) (resources : Resources α) (i : Instruction α) (verb : Verb) :
    Act (Walker α σ) Unit := do
  let operands := i.operands
  match verb with
  | .save => modify fun w => { w with stack := w.graphics :: w.stack }
  | .restore =>
    match (← get).stack with
    -- Without a saved state the present one stays.
    | [] => pure ()
    | g :: rest => modify fun w => { w with graphics := g, stack := rest }
  | .concatenate =>
    let t ← six c operands
    change fun g => { g with ctm := g.ctm.concatenate t }
  | .lineWidth =>
    let x ← one c operands
    change fun g => { g with lineWidth := x }
  | .beginText => modify fun w => { w with textMatrix := .identity, lineMatrix := .identity }
  | .selectFont =>
    let name ← textOperand c operands 0
    -- The font is selected already when the size turns out to be missing.
    change fun g => { g with font := resources.font? name }
    let size ← Act.ofExcept (c.graph.numberOr 0 (← operand operands 1))
    change fun g => { g with fontSize := size }
  | .charSpacing =>
    let x ← one c operands
    change fun g => { g with charSpacing := x }
  | .wordSpacing =>
    let x ← one c operands
    change fun g => { g with wordSpacing := x }
  | .scaling =>
    let x ← one c operands
    change fun g => { g with scaling := x }
  | .leading =>
    let x ← one c operands
    change fun g => { g with leading := x }
  | .rise =>
    let x ← one c operands
    change fun g => { g with rise := x }
  | .moveText =>
    let (x, y) ← two c operands
    nextLine x y
  | .moveTextLeading =>
    let (x, y) ← two c operands
    change fun g => { g with leading := -y }
    nextLine x y
  | .textMatrix =>
    let t ← six c operands
    modify fun w => { w with textMatrix := t, lineMatrix := t }
  | .nextLine => nextLine 0 (-(← get).graphics.leading)
  | .show => showString c (← operand operands 0)
  | .showArray => showItems c (← Act.ofExcept (itemsOf c.graph (← operand operands 0)))
  | .nextLineShow =>
    nextLine 0 (-(← get).graphics.leading)
    showString c (← operand operands 0)
  | .spacedShow =>
    let (word, char) ← two c operands
    change fun g => { g with wordSpacing := word, charSpacing := char }
    nextLine 0 (-(← get).graphics.leading)
    showString c (← operand operands 2)
  | .path => sendOperator c resources i
  | .drawObject =>
    let name ← textOperand c operands 0
    if (resources.object? name).isSome then sendOperator c resources i

/-- Lets a malformed operator pass. -/
def skipMalformed (act : Act (Walker α σ) Unit) : Act (Walker α σ) Unit :=
  tryCatch act fun fault => if fault.isMalformed then pure () else throw fault

/-- The form that an instruction draws, if it draws one. -/
def form? (c : WalkContext α σ) (resources : Resources α) (i : Instruction α) : Option Nat :=
  if Verb.ofName? i.operator = some .drawObject then
    match i.operands with
    | o :: _ =>
      match (c.graph.text o).toOption.bind resources.object? with
      | some (.form index) => some index
      | _ => none
    | [] => none
  else none

/-- The warning about a form that is being drawn already. -/
def recursionReport (name : Text) : LogRecord :=
  ⟨.warning, Text.lit "Skipping recursive use of form " ++ name⟩

def report (c : WalkContext α σ) (r : LogRecord) : Act (Walker α σ) Unit :=
  modify fun w => { w with listener := c.listener.report r w.listener }

/-- Walks within a form: in its user space, and back to the state and the matrices of before when it
is through, however that comes about. The stack of saved states is left as it then is. -/
def withinForm (form : Form α) (act : Act (Walker α σ) Unit) : Act (Walker α σ) Unit := do
  let saved ← get
  change fun g => { g with ctm := g.ctm.concatenate form.matrix }
  act.ensuring (modify fun w =>
    { w with
      graphics := saved.graphics
      textMatrix := saved.textMatrix
      lineMatrix := saved.lineMatrix })

/-- The operators of a form; a form without content has none. -/
def contentOf (c : WalkContext α σ) (form : Form α) : Option (Content α) :=
  (form.content.bind fun node => c.graph.nodes[node]?).map (·.content)

/-- Walks through instructions. Only forms that are `idle`, not being drawn, are entered. -/
def walk (c : WalkContext α σ) (idle : List Nat) (resources : Resources α) :
    List (Instruction α) → Act (Walker α σ) Unit
  | [] => pure ()
  | i :: rest =>
    let first : Act (Walker α σ) Unit :=
      match form? c resources i with
      | none =>
        match Verb.ofName? i.operator with
        | some verb => perform c resources i verb
        | none => pure ()
      | some index =>
        match c.model.catalog.forms[index]? with
        | none => pure ()
        | some form =>
          if _ : index ∈ idle then
            match contentOf c form with
            | none => pure ()
            | some (.error fault) => withinForm form (throw fault)
            | some (.ok content) =>
              -- A form without resources of its own has those of where it is drawn.
              let own := (form.resources.map c.model.catalog.resourcesAt).getD resources
              withinForm form (walk c (idle.erase index) own content)
          else report c (recursionReport form.name)
    skipMalformed first >>= fun _ => walk c idle resources rest
termination_by instructions => (idle.length, instructions.length)
decreasing_by
  -- Within a form one form less is idle; behind an instruction there is one less to walk.
  · have member : index ∈ idle := by assumption
    have := List.length_erase_of_mem member
    have := List.length_pos_of_mem member
    exact Prod.Lex.left _ _ (by omega)
  · exact Prod.Lex.right _ (by simp)

end Walker

end Folio.Pdf
