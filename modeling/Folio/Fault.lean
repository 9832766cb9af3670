import Folio.Text.Quoted

/-!
# What can go wrong

Every failure of the library as a cause. `Fault.message` words a cause. A fault is thrown inside
`Act`, which keeps the state reached so far: whoever catches it goes on from there.
-/

namespace Folio

/-- The package's own failures, by what they say is wrong. -/
inductive Problem
  /-- Some other failure of the package. -/
  | unknown
  /-- The document is missing, damaged or not a document. -/
  | invalidDocument
  /-- The document is encrypted and does not open. -/
  | encrypted
  /-- The conversion as a whole failed. -/
  | conversion
  /-- A raster cannot be encoded. -/
  | imageEncoding
  /-- Geometry is inconsistent. -/
  | layout
  deriving DecidableEq, Repr

namespace Problem

/-- What is said when nothing more is known. -/
def defaultMessage : Problem → Text
  | unknown => Text.lit "An unknown pdf2htmlx error occurred."
  | invalidDocument => Text.lit "Invalid or corrupted PDF file."
  | encrypted => Text.lit "PDF is encrypted and cannot be processed without a password."
  | conversion => Text.lit "PDF to HTML conversion failed."
  | imageEncoding => Text.lit "Unable to encode extracted image."
  | layout => Text.lit "Invalid layout geometry."

/-- The given words, or the default ones for none. -/
def wording (problem : Problem) (words : Text) : Text :=
  if words.isEmpty then problem.defaultMessage else words

end Problem

/-- Failures of the file system. -/
inductive FileProblem
  /-- The path is taken by something that is no directory. -/
  | taken
  /-- A part of the path is no directory. -/
  | notDirectory
  /-- A directory stands where a file is wanted. -/
  | isDirectory
  /-- Nothing stands at the path. -/
  | missing
  /-- The path or a step of it is longer than any file's. -/
  | tooLong
  /-- Whoever asks may not do that. -/
  | denied
  /-- The links on the way lead in a circle. -/
  | looped
  /-- Whatever else the system says. -/
  | other (words : Text)
  deriving DecidableEq, Repr

namespace FileProblem

/-- The system's number and words for the failure. -/
def words : FileProblem → Text
  | taken => Text.lit "[Errno 17] File exists"
  | notDirectory => Text.lit "[Errno 20] Not a directory"
  | isDirectory => Text.lit "[Errno 21] Is a directory"
  | missing => Text.lit "[Errno 2] No such file or directory"
  | tooLong => Text.lit "[Errno 36] File name too long"
  | denied => Text.lit "[Errno 13] Permission denied"
  | looped => Text.lit "[Errno 40] Too many levels of symbolic links"
  | other words => words

/-- Whether the failure tells no more than that nothing is there. -/
def isAbsence : FileProblem → Bool
  | missing | notDirectory | looped => true
  | _ => false

end FileProblem

/-- Causes of failure. -/
inductive Fault
  /-- A failure of the package, with its words. -/
  | problem (kind : Problem) (words : Text)
  /-- The file system refused a path. -/
  | file (kind : FileProblem) (path : Text)
  /-- An output or an encoder gave up, with its words. -/
  | device (words : Text)
  /-- A value the package refuses, with its words. -/
  | refused (words : Text)
  /-- An undefined number where a whole one is wanted. -/
  | undefinedWhole
  /-- An infinite number where a whole one is wanted. -/
  | infiniteWhole
  /-- A whole number beyond the range of coordinates. -/
  | wholeTooLarge
  /-- A repetition count beyond any index. -/
  | countTooLarge
  /-- A repetition longer than any text. -/
  | textTooLong
  /-- A repetition that fits no memory. -/
  | outOfMemory
  /-- A division by zero. -/
  | divisionByZero
  /-- A value of the wrong kind, with the words of whoever refused it. -/
  | wrongKind (words : Text)
  /-- A reference to an object that there is none of. -/
  | missingObject (number : Int)
  /-- A reference to something that is not of the kind wanted, with the words about that. -/
  | referenceToOther (words : Text)
  /-- A reference to another reference, where only one step is taken. -/
  | referenceToReference
  /-- A reference that leads back to itself. -/
  | endlessReference
  /-- A value of the right kind that cannot be used, with the words of whoever refused it. -/
  | badValue (words : Text)
  /-- A missing operand. -/
  | missingItem
  /-- A text with surrogates, which UTF-8 cannot write. -/
  | unencodable (text : Text)
  /-- A document part that cannot be read, with the reader's words. -/
  | unreadable (words : Text)
  /-- A home directory that nobody knows. -/
  | homeless
  /-- A path whose links lead in a circle, where it is to be resolved. -/
  | circular (path : Text)
  deriving DecidableEq, Repr

namespace Fault

/-- What is said of a text with surrogates: where the first run of them stands. -/
def surrogateWords (t : Text) : Text :=
  let start := (t.takeWhile fun c => !c.isSurrogate).length
  let run := (t.drop start).takeWhile CodePoint.isSurrogate
  let what :=
    match run with
    | [c] => Text.join [Text.lit " \x27\\u", Bytes.hexOfUnit c.val, Text.lit "\x27 in position ",
        Text.ofNat start]
    | _ => Text.join [Text.lit "s in position ", Text.ofNat start, Text.lit "-",
        Text.ofNat (start + run.length - 1)]
  Text.join [Text.lit "\x27utf-8\x27 codec can\x27t encode character", what,
    Text.lit ": surrogates not allowed"]

def message : Fault → Text
  | problem _ words => words
  | file kind path => kind.words ++ Text.lit ": " ++ Text.quoted path
  | device words => words
  | refused words => words
  | undefinedWhole => Text.lit "cannot convert float NaN to integer"
  | infiniteWhole => Text.lit "cannot convert float infinity to integer"
  | wholeTooLarge => Text.lit "int too large to convert to float"
  | countTooLarge => Text.lit "cannot fit \x27int\x27 into an index-sized integer"
  | textTooLong => Text.lit "repeated string is too long"
  | outOfMemory => []
  | divisionByZero => Text.lit "float division by zero"
  | wrongKind words => words
  | missingObject number => Text.ofInt number
  | referenceToOther words => words
  | referenceToReference => Text.lit "the object referred to is a reference"
  | endlessReference => Text.lit "maximum recursion depth exceeded"
  | badValue words => words
  | missingItem => Text.lit "tuple index out of range"
  | unencodable t => surrogateWords t
  | unreadable words => words
  | homeless => Text.lit "Could not determine home directory."
  | circular path => Text.lit "Symlink loop from " ++ Text.quoted path

/-- The package's own failure of that kind; without words it takes the default ones. -/
def ofProblem (kind : Problem) (words : Text) : Fault := problem kind (kind.wording words)

/-- Faults that make a content operator malformed: it is skipped and the page goes on. The other
causes end the page. -/
def isMalformed : Fault → Bool
  | undefinedWhole | wrongKind _ | badValue _ | refused _ | missingItem | unencodable _
  | missingObject _ => true
  | _ => false

/-- Faults about a value, which callers of a conversion see as they are. -/
def isValue : Fault → Bool
  | undefinedWhole | badValue _ | refused _ | unencodable _ => true
  | _ => false

/-- Faults for which a picture alone is dropped: it cannot be encoded or stored. -/
def isPictureFault : Fault → Bool
  | problem .imageEncoding _ | file .. | device _ => true
  | _ => false

end Fault

/-- A step over a state `σ` that may fail; a failure keeps the state reached. -/
abbrev Act (σ : Type) := ExceptT Fault (StateM σ)

namespace Act

/-- Runs the step from a state. -/
def run {σ β : Type} (act : Act σ β) (s : σ) : Except Fault β × σ :=
  let r := StateT.run (ExceptT.run act) s
  (r.1, r.2)

/-- A step from its meaning. -/
def ofFunction {σ β : Type} (f : σ → Except Fault β × σ) : Act σ β :=
  ExceptT.mk fun s => f s

/-- A pure answer or failure as a step. -/
def ofExcept {σ β : Type} : Except Fault β → Act σ β
  | .ok b => pure b
  | .error e => throw e

/-- A step on a part of the state. -/
def onPart {σ τ β : Type} (get : σ → τ) (set : τ → σ → σ) (act : Act τ β) : Act σ β :=
  ofFunction fun s =>
    let (r, t) := act.run (get s)
    (r, set t s)

/-- Runs `last` whatever `act` did; `act`'s failure is passed on unless `last` fails itself. -/
def ensuring {σ β : Type} (act : Act σ β) (last : Act σ Unit) : Act σ β :=
  ofFunction fun s =>
    let (r, s) := act.run s
    let (r', s) := last.run s
    match r' with
    | .error e => (.error e, s)
    | .ok _ => (r, s)

end Act

end Folio
