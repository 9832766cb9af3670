import Folio.Bytes
import Folio.Fault

/-!
# File trees

The part of a file system that a conversion sees: directories and files under a root, each named by
the steps that lead to it. Making a directory makes those above it; a file is written whole, or from
some byte of it on. The refusals are those of a file system, each with the path that was asked for.
A path that no file can have is refused before anything is looked up. A system may refuse more than
what stands in the tree accounts for: to those who may not, or where links lead in a circle.
-/

namespace Folio

/-- A path: a root in its own words and the steps below it. -/
structure FilePath where
  root : Text
  steps : List Text
  deriving DecidableEq, Repr

namespace FilePath

def text (path : FilePath) : Text :=
  path.root ++ path.steps.flatMap fun step => CodePoint.ofChar '/' :: step

/-- Whether a code point stands for a byte of a name that is no UTF-8. -/
def isLooseByte (c : CodePoint) : Bool := 0xDC80 ≤ c.val && c.val < 0xDD00

/-- Refuses a path that no file can have: one with a surrogate that stands for no byte, or with a
null byte. -/
def check (path : FilePath) : Except Fault Unit :=
  let t := path.text
  if t.any fun c => c.isSurrogate && !isLooseByte c then .error (.unencodable t)
  else if t.any fun c => c.val = 0 then .error (.badValue (Text.lit "embedded null byte"))
  else .ok ()

/-- The number of bytes in a name or a path. -/
def size (t : Text) : Nat := t.foldl (fun n c => n + (c.utf8?.map List.length).getD 1) 0

/-- The most bytes that a name may have. -/
def nameLimit : Nat := 255

/-- The most bytes that a path may have. -/
def sizeLimit : Nat := 4095

/-- The pieces of a text between slashes. -/
def pieces : Text → List Text
  | [] => [[]]
  | c :: rest =>
    if c = CodePoint.ofChar '/' then [] :: pieces rest
    else match pieces rest with
      | [] => [[c]]
      | piece :: more => (c :: piece) :: more

/-- The steps that a text writes; empty steps and single dots mean nothing. -/
def stepsOf (t : Text) : List Text :=
  (pieces t).filter fun step => !step.isEmpty && step != Text.lit "."

/-- The path of a text below here, whether or not it starts with a slash. -/
def below (path : FilePath) (t : Text) : FilePath :=
  { path with steps := path.steps ++ stepsOf t }

/-- The path that a text leads to from here; a leading slash leads to the top of all paths. -/
def join (path : FilePath) (t : Text) : FilePath :=
  if (Text.lit "/").isPrefixOf t then ⟨[], stepsOf t⟩ else path.below t

/-- The steps with every double dot taken together with the step before it. -/
def resolveSteps (steps : List Text) : List Text :=
  steps.foldl (fun done step => if step = Text.lit ".." then done.dropLast else done ++ [step]) []

/-- The same place without double dots. -/
def resolve (path : FilePath) : FilePath := { path with steps := resolveSteps path.steps }

/-- The directory that holds the path. -/
def parent (path : FilePath) : FilePath := { path with steps := path.steps.dropLast }

/-- The last step. -/
def name (path : FilePath) : Text := path.steps.getLast?.getD []

/-- The place of the last dot that has something before and after it, if there is one. -/
def suffixStart? (name : Text) : Option Nat :=
  let after := (name.reverse.takeWhile (· != CodePoint.ofChar '.')).length
  if after < name.length then
    let start := name.length - after - 1
    if 0 < start ∧ 0 < after then some start else none
  else none

/-- The path with another ending to its name. The top of all paths has no name. -/
def withSuffix (path : FilePath) (suffix : Text) : Except Fault FilePath :=
  if path.root.isEmpty && path.steps.isEmpty then
    .error (.badValue (Text.lit "PosixPath(\x27/\x27) has an empty name"))
  else
    let name := path.name
    let stem := match suffixStart? name with
      | some start => name.take start
      | none => name
    .ok { path with steps := path.steps.dropLast ++ [stem ++ suffix] }

end FilePath

/-- What a system is asked to do with a path. -/
inductive Deed
  /-- To find out where it leads. -/
  | resolve
  /-- To tell what stands there. -/
  | look
  /-- To read the file. -/
  | read
  /-- To make or empty the file. -/
  | write
  /-- To make a directory. -/
  | make

/-- Directories and files. The root is always a directory. -/
structure FileTree where
  dirs : List FilePath := []
  files : List (FilePath × Bytes) := []
  /-- What the system refuses, whatever stands there. -/
  refuses : Deed → FilePath → Option FileProblem := fun _ _ => none

namespace FileTree

/-- What stands at a path. -/
inductive Entry
  | directory
  | file (content : Bytes)

/-- What stands at a path without double dots. -/
def entry? (tree : FileTree) (path : FilePath) : Option Entry :=
  if path.steps.isEmpty then some .directory
  else match tree.files.lookup path with
    | some content => some (.file content)
    | none => if tree.dirs.contains path then some .directory else none

/-- Follows the steps from the root; every step but the last has to lead through a directory, and
none may be too long for a name. -/
def follow (tree : FileTree) (root : Text) : List Text → List Text → Except FileProblem (List Text)
  | done, [] => .ok done
  | done, step :: rest =>
    match tree.entry? ⟨root, done⟩ with
    | none => .error .missing
    | some (.file _) => .error .notDirectory
    | some .directory =>
      if FilePath.nameLimit < FilePath.size step then .error .tooLong
      else if step = Text.lit ".." then tree.follow root done.dropLast rest
      else tree.follow root (done ++ [step]) rest

/-- The place a path leads to, if all directories on the way are there. A path that is too long as a
whole is not followed at all. -/
def locate (tree : FileTree) (path : FilePath) : Except FileProblem FilePath :=
  if FilePath.sizeLimit < FilePath.size path.text then .error .tooLong
  else (tree.follow path.root [] path.steps).map fun steps => { path with steps := steps }

/-- What the system says that stands at a path. That nothing does is no failure. -/
def look (tree : FileTree) (path : FilePath) : Except FileProblem (Option Entry) :=
  let answer : Except FileProblem (Option Entry) :=
    match tree.refuses .look path with
    | some problem => .error problem
    | none => (tree.locate path).map tree.entry?
  match answer with
  | .error problem => if problem.isAbsence then .ok none else .error problem
  | .ok found => .ok found

/-- How a path fails that the system does not resolve. -/
def unresolved (path : FilePath) (problem : FileProblem) : Fault :=
  if problem = .looped then .circular path.text else .file problem path.text

/-- The path without double dots, if there can be such a file and the system resolves it. -/
def resolve (tree : FileTree) (path : FilePath) : Except Fault FilePath := do
  path.check
  match tree.refuses .resolve path with
  | some problem => throw (unresolved path problem)
  | none => return path.resolve

def makeDirectory (tree : FileTree) (path : FilePath) : Except FileProblem FileTree := do
  let place ← tree.locate path
  match tree.entry? place with
  | some _ => throw .taken
  | none =>
    match tree.refuses .make path with
    | some problem => throw problem
    | none => return { tree with dirs := tree.dirs ++ [place] }

/-- The tree as it is, where a directory that cannot be made is there already. -/
def hasDirectory (tree : FileTree) (path : FilePath) (problem : FileProblem) :
    Except Fault FileTree :=
  match tree.look path with
  | .ok (some .directory) => .ok tree
  | .ok _ => .error (.file problem path.text)
  | .error unseen => .error (.file unseen path.text)

/-- Makes the directory of those steps below a root and all above it; one that is there is fine.
The steps come last one first. -/
def makeReversed (tree : FileTree) (root : Text) : List Text → Except Fault FileTree
  | [] => .ok tree
  | step :: above =>
    let path : FilePath := ⟨root, (step :: above).reverse⟩
    match tree.makeDirectory path with
    | .ok tree => .ok tree
    | .error .missing => do
      let tree ← tree.makeReversed root above
      match tree.makeDirectory path with
      | .ok tree => return tree
      | .error problem => tree.hasDirectory path problem
    | .error problem => tree.hasDirectory path problem

/-- Makes a directory and all above it. -/
def makeDirectories (tree : FileTree) (path : FilePath) : Except Fault FileTree := do
  path.check
  tree.makeReversed path.root path.steps.reverse

/-- Puts a file's content in place of what it held. -/
def put (tree : FileTree) (place : FilePath) (content : Bytes) : FileTree :=
  { tree with
    files :=
      if tree.files.any (·.1 == place) then
        tree.files.map fun f => if f.1 == place then (place, content) else f
      else tree.files ++ [(place, content)] }

/-- The place of a file that is to be written, whether or not there is one yet. -/
def writable (tree : FileTree) (path : FilePath) : Except Fault FilePath := do
  path.check
  match tree.locate path with
  | .error problem => throw (.file problem path.text)
  | .ok place =>
    match tree.entry? place with
    | some .directory => throw (.file .isDirectory path.text)
    | _ =>
      match tree.refuses .write path with
      | some problem => throw (.file problem path.text)
      | none => return place

def writeFile (tree : FileTree) (path : FilePath) (content : Bytes) : Except Fault FileTree := do
  return tree.put (← tree.writable path) content

/-- Bytes in place of those from `offset` on, as far as they reach. What lies between the end of the
content and `offset` is filled with null bytes. -/
def overlay (content : Bytes) (offset : Nat) (bytes : Bytes) : Bytes :=
  content.take offset ++ List.replicate (offset - content.length) 0 ++ bytes
    ++ content.drop (offset + bytes.length)

/-- Writes into a file from `offset` on. -/
def writeAt (tree : FileTree) (place : FilePath) (offset : Nat) (bytes : Bytes) : FileTree :=
  tree.put place (overlay ((tree.files.lookup place).getD []) offset bytes)

/-- The tree with one more file, whose directories are made; what cannot be made is left out. -/
def withFile (tree : FileTree) (path : FilePath) (content : Bytes) : FileTree :=
  let tree := (tree.makeDirectories path.parent).toOption.getD tree
  (tree.writeFile path content).toOption.getD tree

/-- The files below a root that an earlier tree lacks, by their steps with slashes between them, in
the order of those texts. -/
def added (tree : FileTree) (root : Text) (earlier : FileTree) : List (Text × Bytes) :=
  let fresh := tree.files.filter fun f =>
    f.1.root == root && !(earlier.files.any (·.1 == f.1))
  let named := fresh.map fun f => (Text.joinWith (Text.lit "/") f.1.steps, f.2)
  named.mergeSort fun a b => Text.le a.1 b.1

/-- What a file holds, whoever may read it. -/
def readFile (tree : FileTree) (path : FilePath) : Except Fault Bytes :=
  match tree.locate path with
  | .error problem => .error (.file problem path.text)
  | .ok place =>
    match tree.entry? place with
    | some .directory => .error (.file .isDirectory path.text)
    | some (.file content) => .ok content
    | none => .error (.file .missing path.text)

end FileTree

end Folio
