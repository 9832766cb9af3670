import Folio.Files

/-!
# Open files

A file that is being written. What is written is held back until enough of it has come together;
then all of it goes to the file, behind what went there before. Whatever else has been done to the
file in the meantime is overwritten from there on and stays where it reaches further.
-/

namespace Folio

/-- A file in the middle of being written. -/
structure OpenFile where
  place : FilePath
  /-- How many bytes have gone to the file. -/
  offset : Nat := 0
  /-- What is held back. -/
  held : Bytes := []

namespace OpenFile

/-- As much as this is no longer held back. -/
def holdLimit : Nat := 8192

/-- Takes more to be written. -/
def write (bytes : Bytes) (file : OpenFile) : OpenFile := { file with held := file.held ++ bytes }

/-- Lets everything held back go to the file. -/
def flush (file : OpenFile) (tree : FileTree) : OpenFile × FileTree :=
  if file.held.isEmpty then (file, tree)
  else
    ({ file with offset := file.offset + file.held.length, held := [] },
      tree.writeAt file.place file.offset file.held)

/-- Lets what is held back go to the file if it is enough. -/
def settle (file : OpenFile) (tree : FileTree) : OpenFile × FileTree :=
  if holdLimit ≤ file.held.length then file.flush tree else (file, tree)

end OpenFile

end Folio
