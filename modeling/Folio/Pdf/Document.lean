import Folio.Files
import Folio.Pdf.Walker

/-!
# Documents

A document that has been read: its pages, its objects and what is said of it. `open?` refuses what
is no document or cannot be decrypted; `run` sends the events of pages to a listener. Every page
that has begun ends, even when something on it fails.
-/

namespace Folio.Pdf

/-- A page. Without content there is nothing to walk. -/
structure Page (α : Type) where
  /-- The crop box as it is written. -/
  crop : CropBox (Object α)
  rotation : Angle α
  resources : Object α
  content : Option (Content α)

/-- Why a file could not be read. -/
inductive ReadFailure
  /-- It is no proper document. -/
  | damaged (words : Text)
  /-- Something else happened. -/
  | unexpected (words : Text)

/-- The contents of a file that was read as a document. What is asked of them only then may fail
still. -/
structure Source (α : Type) where
  graph : Graph α
  pages : Except Fault (List (Page α))
  title : Option Text := none
  encrypted : Except Fault Bool := .ok false
  /-- Whether a password opens the encrypted document. -/
  opens : Text → Except Fault Bool := fun _ => .ok true

/-- How the bytes of a file are read. -/
abbrev Reader (α : Type) := Bytes → Except ReadFailure (Source α)

/-- An open document. -/
structure Document (α : Type) where
  graph : Graph α
  pages : List (Page α)
  /-- The title, or the name of the file where there is none. -/
  title : Text

/-- What is said of a page. -/
structure PageSummary (α : Type) where
  number : Nat
  crop : CropBox α
  rotation : Int

namespace Document

variable {α : Type} [Scalar α]

def invalid (words : List Text) : Fault := .ofProblem .invalidDocument (Text.join words)

/-- The bytes of the file at a path, called `shown` in complaints. -/
def bytes? (files : FileTree) (path : FilePath) (shown : Text) : Except Fault Bytes :=
  match files.look path with
  -- Whoever cannot tell whether there is a file does not say that there is none.
  | .error unseen => .error (.file unseen path.text)
  | .ok (some (.file bytes)) =>
    match files.refuses .read path with
    | none => .ok bytes
    | some problem =>
      .error (invalid [Text.lit "Unable to read PDF file: ", shown, Text.lit ". Error: ",
        (Fault.file problem path.text).message])
  | .ok _ => .error (invalid [Text.lit "PDF file not found: ", shown])

/-- What the bytes are as a document. -/
def source? (reader : Reader α) (bytes : Bytes) (shown : Text) : Except Fault (Source α) :=
  match reader bytes with
  | .ok source => .ok source
  | .error (.damaged words) =>
    .error (invalid
      [Text.lit "Corrupted or invalid PDF file: ", shown, Text.lit ". Error: ", words])
  | .error (.unexpected words) =>
    .error (invalid
      [Text.lit "Unexpected error reading PDF: ", shown, Text.lit ". Error: ", words])

/-- Opens an encrypted document with a password; an empty one is none. -/
def decrypt (source : Source α) : Option Text → Except Fault Unit
  | none | some [] =>
    .error (.ofProblem .encrypted
      (Text.lit "PDF is encrypted. Supply a password to process this file."))
  | some given => do
    unless ← source.opens given do
      throw (.ofProblem .encrypted (Text.lit "Failed to decrypt PDF with supplied password."))

/-- Opens a document if it is encrypted. -/
def unlock (source : Source α) (password : Option Text) : Except Fault Unit := do
  if ← source.encrypted then decrypt source password

/-- Opens the file at a path, called `shown` in complaints. -/
def open? (reader : Reader α) (files : FileTree) (path : FilePath) (shown : Text)
    (password : Option Text) : Except Fault (Document α) := do
  let source ← source? reader (← bytes? files path shown) shown
  unlock source password
  let pages ← source.pages
  if pages.isEmpty then throw (invalid [Text.lit "PDF has no pages: ", shown])
  let title :=
    match source.title with
    | none | some [] => path.name
    | some title => title
  return ⟨source.graph, pages, title⟩

def pageCount (document : Document α) : Nat := document.pages.length

/-- The page of a number, counted from one. -/
def page? (document : Document α) (number : Nat) : Option (Page α) :=
  if number = 0 then none else document.pages[number - 1]?

/-- The numbers of a crop box. -/
def cropBox (graph : Graph α) (box : CropBox (Object α)) : Except Fault (CropBox α) := do
  return ⟨← graph.number box.left, ← graph.number box.bottom, ← graph.number box.width,
    ← graph.number box.height⟩

/-- What is said of a page of the document. -/
def summary (document : Document α) (number : Nat) (page : Page α) :
    Except Fault (PageSummary α) := do
  return ⟨number, ← cropBox document.graph page.crop, ← page.rotation.degrees⟩

/-- The selected page numbers, all of them by default; one that there is no page for is refused. -/
def pageNumbers (document : Document α) : Option (List Int) → Except Fault (List Nat)
  | none => .ok ((List.range document.pageCount).map (· + 1))
  | some numbers => numbers.mapM fun (n : Int) =>
    if n < 1 ∨ (document.pageCount : Int) < n then
      .error (.refused (Text.join [Text.lit "Page ", Text.ofInt n, Text.lit " out of range (1-",
        Text.ofNat document.pageCount, Text.lit ")"]))
    else .ok n.toNat

/-- A document in use: the resources built so far, and whoever listens. -/
structure Session (α σ : Type) where
  model : ResourceModel α := {}
  listener : σ

namespace Session

variable {σ : Type}

def send (l : Listener α σ) (e : Event α) : Act (Session α σ) Unit :=
  (l.receive e).onPart (·.listener) fun s session => { session with listener := s }

def report (l : Listener α σ) (r : LogRecord) : Act (Session α σ) Unit :=
  modify fun session => { session with listener := l.report r session.listener }

def resources (document : Document α) (page : Page α) : Act (Session α σ) Nat :=
  (ResourceModel.build document.graph page.resources).onPart (·.model)
    fun model session => { session with model := model }

def walkContent (document : Document α) (l : Listener α σ) (frame : Page.Frame α) (index : Nat)
    (content : List (Instruction α)) : Act (Session α σ) Unit := do
  let model := (← get).model
  let context : WalkContext α σ := ⟨document.graph, model, frame.transform, l⟩
  let walk := Walker.walk context (List.range model.catalog.forms.size)
    (model.catalog.resourcesAt index) content
  walk.onPart (fun session => Walker.start session.listener)
    fun w session => { session with listener := w.listener }

/-- What happens on a page between its beginning and its end. -/
def pageBody (document : Document α) (l : Listener α σ) (page : Page α) (s : PageSummary α) :
    Act (Session α σ) Unit := do
  let index ← resources document page
  send l (.resources (← get).model.catalog index)
  match page.content with
  | none => pure ()
  | some (.error fault) =>
    report l ⟨.warning, Text.join [Text.lit "Unable to parse content stream of page ",
      Text.ofNat s.number, Text.lit ": ", fault.message]⟩
  | some (.ok content) =>
    let (turn, warning) ← Act.ofExcept (Angle.whole (α := α) s.rotation).rotation
    if let some words := warning then report l ⟨.warning, words⟩
    walkContent document l (Page.frame s.number (some s.crop) turn) index content

/-- Sends the events of a page. -/
def page (document : Document α) (l : Listener α σ) (number : Nat) : Act (Session α σ) Unit := do
  match document.page? number with
  | none => pure ()
  | some page =>
    let s ← Act.ofExcept (document.summary number page)
    send l (.pageBegin number s.crop s.rotation)
    (pageBody document l page s).ensuring (send l .pageEnd)

/-- Sends the events of pages; `done` of the `total` are through. -/
def pages (document : Document α) (l : Listener α σ) (total : Nat) :
    Nat → List Nat → Act (Session α σ) Unit
  | _, [] => pure ()
  | done, number :: rest => do
    page document l number
    (l.progress (done + 1) total).onPart (·.listener)
      fun s session => { session with listener := s }
    pages document l total (done + 1) rest

/-- Sends the events of the selected pages in the given order. -/
def run (document : Document α) (l : Listener α σ) (selection : Option (List Int)) :
    Act (Session α σ) Unit := do
  let numbers ← Act.ofExcept (document.pageNumbers selection)
  send l (.documentBegin (some document.title))
  pages document l numbers.length 0 numbers
  send l .documentEnd

end Session

/-- Sends the events of the selected pages to a listener. -/
def run {σ : Type} (document : Document α) (l : Listener α σ) (selection : Option (List Int)) :
    Act σ Unit :=
  (Session.run document l selection).onPart (fun s => { listener := s }) fun session _ =>
    session.listener

end Document

end Folio.Pdf
