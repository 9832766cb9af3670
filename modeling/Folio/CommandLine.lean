import Folio.CommandLine.Arguments
import Folio.Conversion
import Folio.Files.Size

/-!
# Command line

Two commands: `convert` turns a document into an HTML file, `info` describes its pages and fonts. A
run shows things in order and ends with a status: 0 for success, 1 for a failure, 2 for arguments
that make no sense. Arguments are checked in the order they are given, the input last; one that no
path can be is a fault of the run as a whole.
-/

namespace Folio.CommandLine

/-- Something shown to whoever runs the program. -/
inductive Shown
  /-- Reports are set up, debugging ones included or not. -/
  | reports (debugging : Bool)
  /-- A line with its markup. -/
  | line (markup : Text)
  /-- A task of so many steps begins. -/
  | task (name : Text) (total : Nat)
  /-- So many of its steps are done. -/
  | completed (done : Nat)
  | table (title : Text) (columns : List Text) (rows : List (List Text))

/-- What the program finds when it starts. -/
structure Scene (α : Type) where
  reader : Pdf.Reader α
  /-- The path that an argument means. -/
  locate : Text → FilePath
  files : FileTree
  /-- The home directory of a user, by name; the empty name is that of whoever runs the program. -/
  home? : Text → Option FilePath
  machine : Machine := .usual

/-- A finished run. -/
structure Run where
  status : Nat
  shown : List Shown := []
  workspace : Workspace

namespace Scene

variable {α : Type}

/-- A run that has done nothing. -/
def ended (scene : Scene α) (status : Nat) : Run := ⟨status, [], { files := scene.files }⟩

/-- Whether the text asks for a directory by its last step. -/
def asksForDirectory (t : Text) : Bool :=
  (Text.lit "/").isSuffixOf t || (Text.lit "/.").isSuffixOf t

/-- What stands where an argument points. -/
def entry? (scene : Scene α) (t : Text) : Option FileTree.Entry :=
  if t.isEmpty then none
  else match scene.files.look (scene.locate t) with
    | .ok (some (.file content)) => if asksForDirectory t then none else some (.file content)
    | .ok found => found
    | .error _ => none

def isFile (scene : Scene α) (t : Text) : Bool :=
  match scene.entry? t with
  | some (.file _) => true
  | _ => false

def isDirectory (scene : Scene α) (t : Text) : Bool :=
  match scene.entry? t with
  | some .directory => true
  | _ => false

/-- Whether a place that an argument names is as it should be. -/
def suits (scene : Scene α) (fit : Text → Bool) (t : Text) : Except Fault Bool := do
  (scene.locate t).check
  return fit t

/-- The path that an argument means to a conversion: a tilde in front stands for a home directory,
that of the user named behind it. -/
def expand (scene : Scene α) (t : Text) : Except Fault FilePath :=
  match FilePath.stepsOf t with
  | [] => .ok (scene.locate t)
  | first :: rest =>
    if (Text.lit "/").isPrefixOf t || !(Text.lit "~").isPrefixOf first then .ok (scene.locate t)
    else match scene.home? (first.drop 1) with
      | none => .error .homeless
      | some home => .ok { home with steps := home.steps ++ rest }

end Scene

/-- The last step of a path as it was written. -/
def baseName (t : Text) : Text := (FilePath.pieces t).getLast?.getD []

/-- The line that shows a failure. -/
def failureLine (fault : Fault) : Shown :=
  .line (Text.lit "\n[bold red]✗ Error:[/bold red] " ++ fault.message)

variable {α : Type} [Scalar α]

/-! ## Converting -/

def convertGrammar : Grammar where
  long := [
    ("--output", .output), ("--image-mode", .imageMode), ("--image-dir", .imageDir),
    ("--no-indent-correction", .noIndentCorrection), ("--quote-spacing", .quoteSpacing),
    ("--line-mode", .lineMode), ("--password", .password), ("--verbose", .verbose),
    ("--help", .help)]
  short := [('o', .output), ('v', .verbose)]

/-- The emission that was asked for; an unknown one is refused. -/
def emission? (given : Given) : Option Emission :=
  match given.value? .imageMode with
  | none => some .inline
  | some word =>
    match Emission.ofText word with
    | .unknown _ => none
    | emission => some emission

/-- Whether the place that a switch names, if it was given, is as it should be. -/
def placeSuits (scene : Scene α) (given : Given) (s : Switch) (fit : Text → Bool) :
    Except Fault Bool :=
  match given.value? s with
  | none => .ok true
  | some t => scene.suits fit t

/-- Whether the value of a switch makes sense. -/
def switchSuits (scene : Scene α) (given : Given) : Switch → Except Fault Bool
  | .output => placeSuits scene given .output fun t => !scene.isDirectory t
  | .imageDir => placeSuits scene given .imageDir fun t => !scene.isFile t
  | .imageMode => .ok (emission? given).isSome
  | _ => .ok true

/-- The options that were asked for. -/
def optionsOf (scene : Scene α) (given : Given) (emission : Emission) : Options α :=
  { (Options.standard : Options α) with
    emission := emission
    imageDir := ((given.value? .imageDir).filter fun t => !t.isEmpty).map scene.locate
    correctsIndent := !given.has .noIndentCorrection
    spacesQuotes := given.has .quoteSpacing
    mergesLines := !given.has .lineMode
    machine := scene.machine }

/-- A row that is left out when it counts nothing. -/
def countRow (name : String) (n : Nat) : List (List Text) :=
  if n = 0 then [] else [[Text.lit name, Text.ofNat n]]

/-- The number of bytes of a file. -/
def sizeOf (files : FileTree) (path : FilePath) : α :=
  Scalar.ofNat (((files.readFile path).toOption.map List.length).getD 0)

/-- The table about a finished conversion. -/
def summary (size : α) (result : Conversion.Result) : Shown :=
  let row (name : String) (value : Text) : List Text := [Text.lit name, value]
  let t := result.tally
  .table (Text.lit "Conversion Summary") [Text.lit "Property", Text.lit "Value"]
    ([row "Output" result.output.text,
      row "Size" (FileSize.text size),
      row "Pages" (Text.ofNat result.pageCount),
      row "Paragraphs" (Text.ofNat t.paragraphs),
      row "Lines" (Text.ofNat t.rules),
      row "Images" (Text.ofNat t.pictures)]
      ++ countRow "Skipped images" t.skippedPictures
      ++ countRow "Unsupported fonts" t.unsupportedFonts)

/-- Converts the input. It is opened once before, to learn how many pages there are. -/
def convert (scene : Scene α) (given : Given) (emission : Emission) (input : Text) : Run :=
  let opening : List Shown :=
    [.reports (given.has .verbose), .line (Text.lit "\n[bold cyan]Opening PDF...[/bold cyan]")]
  let password := given.value? .password
  match Pdf.Document.open? scene.reader scene.files (scene.locate input) input password with
  | .error fault => ⟨1, opening ++ [failureLine fault], { files := scene.files }⟩
  | .ok document =>
    let conversion : Act Workspace Conversion.Result := do
      let input ← Act.ofExcept (scene.expand input)
      let output ← Act.ofExcept ((given.value? .output).mapM scene.expand)
      let request : Conversion.Request α :=
        { input := input, options := optionsOf scene given emission, password := password }
      Conversion.convert scene.reader request output
    let (answer, w) := conversion.run { files := scene.files }
    let shown := opening ++ [.task (Text.lit "Converting pages") document.pageCount]
      ++ w.progress.map fun p => .completed p.1
    match answer with
    | .error fault => ⟨1, shown ++ [failureLine fault], w⟩
    | .ok result =>
      let success := Text.join [Text.lit "\n[bold green]✓ Successfully converted ",
        baseName input, Text.lit "[/bold green]"]
      ⟨0, shown ++ [.line success, summary (sizeOf (α := α) w.files result.output) result], w⟩

/-! ## Describing -/

def infoGrammar : Grammar where
  long := [("--password", .password), ("--help", .help)]

/-- What has been learned of a document's pages. -/
structure Survey (α : Type) where
  model : Pdf.ResourceModel α := {}
  fonts : FontTable α
  rows : List (List Text) := []
  log : Log := []

def pageRow (s : Pdf.PageSummary α) : List Text :=
  let length (x : α) : Text := Scalar.thousandths x
  [Text.ofNat s.number,
    Text.join [length s.crop.left, Text.lit ", ", length s.crop.bottom, Text.lit ", ",
      length s.crop.width, Text.lit " x ", length s.crop.height],
    Text.ofInt s.rotation ++ Text.lit "°"]

def surveyPage (document : Pdf.Document α) (number : Nat) (page : Pdf.Page α) :
    Act (Survey α) Unit := do
  let s ← Act.ofExcept (document.summary number page)
  modify fun survey => { survey with rows := survey.rows ++ [pageRow s] }
  let index ← (Pdf.ResourceModel.build document.graph page.resources).onPart (·.model)
    fun model survey => { survey with model := model }
  modify fun survey =>
    let (fonts, log) := survey.fonts.update survey.model.catalog index
    { survey with fonts := fonts, log := survey.log ++ log }

/-- Learns about pages, the first of which has that number. -/
def surveyPages (document : Pdf.Document α) : Nat → List (Pdf.Page α) → Act (Survey α) Unit
  | _, [] => pure ()
  | number, page :: rest => do
    surveyPage document number page
    surveyPages document (number + 1) rest

def fontRow (font : Font α) (entry : FontEntry) : List Text :=
  [entry.family, font.title, entry.kind.text]

/-- What is shown of a document's pages and fonts. -/
def description (input : Text) (document : Pdf.Document α) (survey : Survey α) : List Shown :=
  let title : Shown := .line (Text.lit "[bold]Title:[/bold] " ++ document.title)
  let pages : Shown := .table (Text.lit "Pages: " ++ baseName input)
    [Text.lit "Page", Text.lit "Crop box", Text.lit "Rotation"] survey.rows
  let fonts : Shown := .table (Text.lit "Fonts")
    [Text.lit "Family", Text.lit "Base font", Text.lit "Kind"]
    (survey.fonts.entries.map fun (font, entry) => fontRow font entry)
  let rejected := survey.fonts.unsupportedCount
  let warning : List Shown :=
    if rejected = 0 then []
    else [.line (Text.join [Text.lit "[yellow]", Text.ofNat rejected,
      Text.lit " unsupported font(s)[/yellow]"])]
  [title, pages, fonts] ++ warning

def info (scene : Scene α) (given : Given) (input : Text) : Run :=
  let password := given.value? .password
  match Pdf.Document.open? scene.reader scene.files (scene.locate input) input password with
  | .error fault => ⟨1, [failureLine fault], { files := scene.files }⟩
  | .ok document =>
    let (answer, survey) := (surveyPages document 1 document.pages).run
      { fonts := { fallback := (Options.standard : Options α).fallbackFamily } }
    let w : Workspace := { files := scene.files, log := survey.log }
    match answer with
    | .error fault => ⟨1, [failureLine fault], w⟩
    | .ok _ => ⟨0, description input document survey, w⟩

/-! ## The program -/

/-- The switches of the program itself. -/
def programGrammar : Grammar where
  long := [("--version", .version), ("--help", .help)]
  mixed := false

/-- The input, if the arguments make sense. There has to be exactly one place, a file. -/
def input? (scene : Scene α) (given : Given) : Except Fault (Option Text) := do
  if !(← given.settings.allM fun s => switchSuits scene given s.1) then return none
  match given.places with
  | [] => return none
  | input :: more =>
    return if (← scene.suits scene.isFile input) && more.isEmpty then some input else none

/-- Runs a command with its arguments. -/
def runCommand (scene : Scene α) (g : Grammar) (args : List Text) (act : Given → Text → Run) :
    Except Fault Run :=
  match collect? g {} args with
  | none => .ok (scene.ended 2)
  | some given =>
    if given.has .help then .ok (scene.ended 0)
    else (input? scene given).map fun
      | some input => act given input
      | none => scene.ended 2

/-- Runs the command that was named first. -/
def dispatch (scene : Scene α) (name : Text) (args : List Text) : Except Fault Run :=
  if name = Text.lit "convert" then
    runCommand scene convertGrammar args fun given input =>
      convert scene given ((emission? given).getD .inline) input
  else if name = Text.lit "info" then
    runCommand scene infoGrammar args (info scene)
  else
    -- What looks like a switch behind two hyphens still asks for help.
    match collect? programGrammar {} (name :: args) with
    | some given => .ok (scene.ended (if given.settings.isEmpty then 2 else 0))
    | none => .ok (scene.ended 2)

def run (scene : Scene α) (args : List Text) : Except Fault Run :=
  match collect? programGrammar {} args with
  | none => .ok (scene.ended 2)
  | some given =>
    if !given.settings.isEmpty then .ok (scene.ended 0)
    else match given.places with
      | [] => .ok (scene.ended 2)
      | name :: rest => dispatch scene name rest

end Folio.CommandLine
