import Folio.Layout
import Folio.Pdf.Document

/-!
# Conversion

A whole document becomes one HTML text: `render` answers it, `convert` writes it to a file. The
options are settled first, then the directory of the output is made, the document opened and the
output emptied; only then is anything laid out. What has been written by the time of a failure
stays.

Failures of the package and refused values reach the caller as they are. Any other failure after
the document was opened counts as a failed conversion of that input.
-/

namespace Folio

/-- What a conversion works on and leaves behind. -/
structure Workspace where
  files : FileTree
  log : Log := []
  /-- How many of the selected pages were done, each time one was. -/
  progress : List (Nat × Nat) := []

namespace Workspace

/-- Makes a directory and all above it. -/
def makeDirectories (path : FilePath) : Act Workspace Unit := do
  let files ← Act.ofExcept ((← get).files.makeDirectories path)
  modify fun w => { w with files := files }

/-- Empties a file, or makes it, and answers its place. -/
def emptyFile (path : FilePath) : Act Workspace FilePath := do
  let place ← Act.ofExcept ((← get).files.writable path)
  modify fun w => { w with files := w.files.put place [] }
  return place

end Workspace

/-- A layout at work, and the progress it has heard of. -/
structure Press (α : Type) where
  layout : Layout α
  progress : List (Nat × Nat) := []

namespace Press

variable {α : Type} [Scalar α]

/-- Lays out every event. -/
def listener : Listener α (Press α) where
  receive e := (Layout.receive e).onPart (·.layout) fun l p => { p with layout := l }
  progress done total := modify fun p => { p with progress := p.progress ++ [(done, total)] }
  report r p := { p with layout := { p.layout with log := p.layout.log ++ [r] } }

/-- The text laid out so far. -/
def text (p : Press α) : Text := p.layout.emitter.output.text

/-- Lays out the selected pages, up to the first failure. -/
def run (document : Pdf.Document α) (selection : Option (List Int)) (options : Options α)
    (output : Output) (files : FileTree) : Except Fault Unit × Press α :=
  (document.run listener selection).run { layout := .start options output files }

end Press

namespace Conversion

variable {α : Type} [Scalar α]

/-- What to convert and how. -/
structure Request (α : Type) where
  input : FilePath
  options : Options α
  password : Option Text := none
  /-- The numbers of the pages wanted; all of them by default. -/
  pages : Option (List Int) := none

/-- What was converted. -/
structure Result where
  input : FilePath
  output : FilePath
  pageCount : Nat
  tally : Tally

/-- A path without double dots; one that no file can have or that leads in a circle is refused. -/
def resolved (path : FilePath) : Act Workspace FilePath := do
  Act.ofExcept ((← get).files.resolve path)

/-- The options to work with: picture files go beside the output unless a directory was chosen. -/
def settle (options : Options α) (output : Option FilePath) : Except Fault (Options α) := do
  let wantsFiles ← options.emission.wantsFiles
  let beside := output.map fun path => path.parent.join (Text.lit "image")
  let options :=
    if wantsFiles && options.imageDir.isNone then { options with imageDir := beside } else options
  options.check
  return options

/-- Whether a caller sees the failure as it is. -/
def passes : Fault → Bool
  | .problem .. => true
  | fault => fault.isValue

/-- How a failure after opening the input reaches the caller. -/
def failure (input : FilePath) (fault : Fault) : Fault :=
  if passes fault then fault
  else .ofProblem .conversion (Text.join [
    Text.lit "Conversion failed for ", input.text, Text.lit ": ", fault.message])

def openInput (reader : Pdf.Reader α) (input : FilePath) (password : Option Text) :
    Act Workspace (Pdf.Document α) := do
  Act.ofExcept (Pdf.Document.open? reader (← get).files input input.text password)

/-- Lays the document out and answers its text and counts; files, reports and progress are kept
whatever happens, and the output is closed. -/
def press (document : Pdf.Document α) (selection : Option (List Int)) (options : Options α)
    (output : Output) : Act Workspace (Text × Tally) := do
  let (answer, p) := Press.run document selection options output (← get).files
  modify fun w =>
    { files := p.layout.closed.placer.files
      log := w.log ++ p.layout.log
      progress := w.progress ++ p.progress }
  Act.ofExcept answer
  return (p.text, p.layout.tally)

/-- Empties the output and writes the document into it. -/
def write (document : Pdf.Document α) (selection : Option (List Int)) (options : Options α)
    (output : FilePath) : Act Workspace Tally := do
  let place ← Workspace.emptyFile output
  return (← press document selection options (.toFile place)).2

/-- Converts the input to a file: the given one, or the input with another ending. -/
def convert (reader : Pdf.Reader α) (request : Request α) (output : Option FilePath) :
    Act Workspace Result := do
  let input ← resolved request.input
  let output ←
    match output with
    | some path => resolved path
    | none => Act.ofExcept (input.withSuffix (Text.lit ".html"))
  let options ← Act.ofExcept (settle request.options (some output))
  Workspace.makeDirectories output.parent
  let document ← openInput reader input request.password
  let tally ←
    tryCatch (write document request.pages options output) fun f => throw (failure input f)
  return ⟨input, output, document.pageCount, tally⟩

/-- Converts the input to a text. -/
def render (reader : Pdf.Reader α) (request : Request α) : Act Workspace Text := do
  let input ← resolved request.input
  let options ← Act.ofExcept (settle request.options none)
  let document ← openInput reader input request.password
  let (text, _) ←
    tryCatch (press document request.pages options .memory) fun f => throw (failure input f)
  return text

end Conversion

end Folio
