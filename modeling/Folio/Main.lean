import Folio.CommandLine
import Folio.Pdf.Notation
import Folio.Text.Codec

/-!
# The program

The command line on a real file system. Whatever the arguments point to is looked up first, the run
works on what was found, and the files it changed are written afterwards. Documents are read in
their JSON notation.
-/

namespace Folio.Program

def reader : Pdf.Reader Float := fun bytes =>
  match (Text.ofUtf8? bytes).bind Json.read? with
  | some j => Pdf.Notation.source j
  | none => .error (.damaged (Text.lit "not a document in JSON"))

def probe (path : FilePath) : IO (Option FileTree.Entry) := do
  try
    let content ← IO.FS.readBinFile path.text.toString
    return some (.file content.toList)
  catch
    | .inappropriateType .. => return some .directory
    | _ => return none

/-- Takes up what stands along the steps from a directory on. -/
def look (root : Text) : List Text → List Text → FileTree → IO FileTree
  | _, [], tree => return tree
  | done, step :: rest, tree => do
    if step = Text.lit ".." then look root done.dropLast rest tree
    else
      let path : FilePath := ⟨root, done ++ [step]⟩
      match ← probe path with
      | some .directory => look root path.steps rest { tree with dirs := tree.dirs ++ [path] }
      | some (.file content) => return tree.put path content
      | none => return tree

/-- Takes up what the arguments may concern. -/
def lookAll (here : FilePath) : List Text → FileTree → IO FileTree
  | [], tree => return tree
  | arg :: rest, tree => do
    let path := here.join arg
    let tree ← look path.root [] path.steps tree
    let beside := path.parent.join (Text.lit "image")
      :: (path.withSuffix (Text.lit ".html")).toOption.toList
    let tree ← beside.foldlM (fun tree path => look path.root [] path.steps tree) tree
    lookAll here rest tree

/-- Writes what a run has changed. -/
def save (before after : FileTree) : IO Unit := do
  for path in after.dirs do
    unless before.dirs.contains path do IO.FS.createDirAll path.text.toString
  for (path, content) in after.files do
    unless before.files.lookup path == some content do
      IO.FS.writeBinFile path.text.toString ⟨content.toArray⟩

/-- What is shown, line by line. -/
def lines : CommandLine.Shown → List Text
  | .reports _ => []
  | .line markup => [markup]
  | .task name total => [Text.join [name, Text.lit ": ", Text.ofNat total]]
  | .completed done => [Text.lit "  " ++ Text.ofNat done]
  | .table title columns rows =>
    title :: (columns :: rows).map (Text.joinWith (Text.lit "\t"))

/-- The machine, on which the program has one thread. -/
def machine (thread : UInt64) : Machine :=
  let word := Text.ofNat thread.toNat
  if h : CodePoint.ofChar '/' ∉ word then { Machine.usual with word, noSlash := h } else .usual

def usage : String :=
  "folio convert INPUT [-o FILE] [--image-mode inline|file] [--image-dir DIR] [--password TEXT]\n"
    ++ "    [--no-indent-correction] [--quote-spacing] [--line-mode] [-v]\n"
    ++ "folio info INPUT [--password TEXT]"

def recordLine (r : LogRecord) : Text :=
  Text.lit (match r.level with | .warning => "WARNING: " | .error => "ERROR: ") ++ r.message

end Folio.Program

open Folio Folio.Program in
/-- Runs the program with its arguments. -/
def main (args : List String) : IO UInt32 := do
  let args := args.map Text.lit
  let here : FilePath := (⟨[], []⟩ : FilePath).join (Text.lit (← IO.currentDir).toString)
  let files ← lookAll here args {}
  let home := (← IO.getEnv "HOME").map fun home => here.join (Text.lit home)
  let scene : CommandLine.Scene Float :=
    { reader, files, machine := machine (← IO.getTID)
      locate := here.join, home? := fun user => if user.isEmpty then home else none }
  match CommandLine.run scene args with
  | .error fault =>
    IO.eprintln fault.message.toString
    return 1
  | .ok run =>
    save files run.workspace.files
    for r in run.workspace.log do IO.eprintln (recordLine r).toString
    for line in run.shown.flatMap lines do IO.println line.toString
    if run.shown.isEmpty then IO.println usage
    return run.status.toUInt32
