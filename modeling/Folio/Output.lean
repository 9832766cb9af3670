import Folio.Files.OpenFile

/-!
# Outputs

Where a document's text goes: to memory alone, or to a file as well. An output decides for each
write whether it takes it, going by the number of writes before and the text itself; a write it
refuses leaves nothing behind. The file holds back what is written, so `settle` has to follow a
write, and `close` the last one.
-/

namespace Folio

/-- The text taken so far, in pieces, and the rule by which writes are refused. -/
structure Output where
  refuses : Nat → Text → Option Fault
  pieces : List Text := []
  attempts : Nat := 0
  /-- The file that the text goes to. -/
  file : Option OpenFile := none

namespace Output

/-- Takes everything. -/
def memory : Output := { refuses := fun _ _ => none }

/-- Goes to an empty file, in UTF-8; a text without such a form is refused. -/
def toFile (place : FilePath) : Output where
  refuses := fun _ t => if t.any CodePoint.isSurrogate then some (.unencodable t) else none
  file := some { place := place }

/-- Everything taken so far. -/
def text (output : Output) : Text := Text.join output.pieces.reverse

/-- An output with one more text. -/
def add (t : Text) (output : Output) : Output :=
  { output with
    pieces := t :: output.pieces
    file := output.file.map (OpenFile.write (t.utf8?.getD [])) }

/-- Writes a text whole, or not at all. -/
def write (t : Text) : Act Output Unit := do
  let output ← get
  set { output with attempts := output.attempts + 1 }
  match output.refuses output.attempts t with
  | some fault => throw fault
  | none => modify (add t)

/-- Carries out something on the file. -/
def onFile (act : OpenFile → FileTree → OpenFile × FileTree) (output : Output) (tree : FileTree) :
    Output × FileTree :=
  match output.file with
  | none => (output, tree)
  | some file =>
    let (file, tree) := act file tree
    ({ output with file := some file }, tree)

/-- Lets what the file holds back go if it is enough. -/
def settle : Output → FileTree → Output × FileTree := onFile OpenFile.settle

/-- Lets all go that the file holds back. -/
def close : Output → FileTree → Output × FileTree := onFile OpenFile.flush

end Output

end Folio
