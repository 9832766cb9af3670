import Folio.Proofs.Files.Growth
import Folio.Conversion
import Folio.Proofs.Pdf.Recording

/-!
# Stages of a conversion

A conversion checks its paths and its options, makes directories, opens the document and looks for
the place of its output (`prepare`). Until then nothing that can be read changes (`grows_prepare`).
Then it empties the output, and the document is laid out into it (`proceed`, `run_convert`).
-/

namespace Folio

open Text (lit)

variable {α : Type}

namespace Conversion

variable [Scalar α]

/-- What a conversion has found out before it empties its output. -/
structure Prepared (α : Type) where
  input : FilePath
  output : FilePath
  options : Options α
  document : Pdf.Document α
  /-- Where the output is. -/
  place : FilePath

namespace Prepared

/-- The press that lays the document out into the emptied output. -/
def first (b : Prepared α) (made : Workspace) : Press α :=
  { layout := .start b.options (.toFile b.place) (made.files.put b.place []) }

/-- What comes of laying the document out, and the press after that. -/
def pressed (b : Prepared α) (selection : Option (List Int)) (made : Workspace) :
    Except Fault Unit × Press α :=
  Press.run b.document selection b.options (.toFile b.place) (made.files.put b.place [])

/-- The events of the document that the press hears, each with the press that hears it. -/
def record (b : Prepared α) (selection : Option (List Int)) (made : Workspace) :
    Record α (Press α) :=
  ((b.document.run Press.listener.recording selection).run (b.first made, [])).2.2

end Prepared

/-- Where the output goes. -/
def target (input : FilePath) : Option FilePath → Act Workspace FilePath
  | some path => resolved path
  | none => Act.ofExcept (input.withSuffix (lit ".html"))

/-- What a conversion does with its paths before it empties its output. -/
def prepareAt (reader : Pdf.Reader α) (request : Request α) (input output : FilePath) :
    Act Workspace (Prepared α) := do
  let options ← Act.ofExcept (settle request.options (some output))
  Workspace.makeDirectories output.parent
  let document ← openInput reader input request.password
  let place ← Act.ofExcept (((← get).files.writable output).mapError (failure input))
  return ⟨input, output, options, document, place⟩

/-- What a conversion does before it empties its output. -/
def prepare (reader : Pdf.Reader α) (request : Request α) (output : Option FilePath) :
    Act Workspace (Prepared α) := do
  let input ← resolved request.input
  prepareAt reader request input (← target input output)

/-- What a conversion makes of a workspace once it is prepared. -/
def proceed (request : Request α) (b : Prepared α) (w : Workspace) :
    Except Fault Result × Workspace :=
  let pressed := b.pressed request.pages w
  ((pressed.1.mapError (failure b.input)).map fun _ =>
      ⟨b.input, b.output, b.document.pageCount, pressed.2.layout.tally⟩,
    { files := pressed.2.layout.closed.placer.files
      log := w.log ++ pressed.2.layout.log
      progress := w.progress ++ pressed.2.progress })

/-- A conversion with its paths. -/
def convertAt (reader : Pdf.Reader α) (request : Request α) (input output : FilePath) :
    Act Workspace Result := do
  let options ← Act.ofExcept (settle request.options (some output))
  Workspace.makeDirectories output.parent
  let document ← openInput reader input request.password
  let tally ←
    tryCatch (write document request.pages options output) fun f => throw (failure input f)
  return ⟨input, output, document.pageCount, tally⟩

theorem convert_eq_convertAt (reader : Pdf.Reader α) (request : Request α)
    (output : Option FilePath) :
    convert reader request output = (resolved request.input >>= fun input =>
      target input output >>= fun output => convertAt reader request input output) := by
  cases output <;> rfl

theorem run_write (document : Pdf.Document α) (selection : Option (List Int))
    (options : Options α) (output : FilePath) (w : Workspace) :
    (write document selection options output).run w = match w.files.writable output with
      | .error e => (.error e, w)
      | .ok place =>
        let pressed := Press.run document selection options (.toFile place) (w.files.put place [])
        (pressed.1.map fun _ => pressed.2.layout.tally,
          { files := pressed.2.layout.closed.placer.files
            log := w.log ++ pressed.2.layout.log
            progress := w.progress ++ pressed.2.progress }) := by
  rw [write, Act.run_bind]
  have hempty : (Workspace.emptyFile output).run w = match w.files.writable output with
      | .error e => (.error e, w)
      | .ok place => (.ok place, { w with files := w.files.put place [] }) := by
    rw [Workspace.emptyFile, Act.run_bind_ok (Act.run_get w), Act.run_bind, Act.run_ofExcept]
    cases w.files.writable output <;> rfl
  rw [hempty]
  cases w.files.writable output with
  | error e => rfl
  | ok place =>
    simp only
    rw [Act.run_bind, press, Act.run_bind_ok (Act.run_get _)]
    rcases Press.run document selection options (.toFile place) (w.files.put place [])
      with ⟨e | _, p⟩
    · rfl
    · rfl

theorem run_convertAt (reader : Pdf.Reader α) (request : Request α) (input output : FilePath)
    (w : Workspace) :
    (convertAt reader request input output).run w
      = match (prepareAt reader request input output).run w with
        | (.error e, w') => (.error e, w')
        | (.ok b, w') => proceed request b w' := by
  rw [convertAt, prepareAt, Act.run_bind, Act.run_bind, Act.run_ofExcept]
  cases settle request.options (some output) with
  | error e => rfl
  | ok options =>
    simp only
    rw [Act.run_bind, Act.run_bind]
    rcases (Workspace.makeDirectories output.parent).run w with ⟨e | made, w₁⟩
    · rfl
    · simp only
      rw [Act.run_bind, Act.run_bind]
      rcases (openInput reader input request.password).run w₁ with ⟨e | document, w₂⟩
      · rfl
      · simp only
        rw [Act.run_bind, Act.run_tryCatch, run_write, Act.run_bind_ok (Act.run_get w₂), Act.run_bind,
          Act.run_ofExcept]
        cases w₂.files.writable output with
        | error e => rfl
        | ok place =>
          show _ = proceed request ⟨input, output, options, document, place⟩ w₂
          dsimp only [proceed, Prepared.pressed]
          rcases Press.run document request.pages options (.toFile place) (w₂.files.put place [])
            with ⟨e | _, p⟩
          · rfl
          · rfl

/-- A conversion is prepared, and then the document is laid out into the emptied output. -/
theorem run_convert (reader : Pdf.Reader α) (request : Request α) (output : Option FilePath)
    (w : Workspace) :
    (convert reader request output).run w = match (prepare reader request output).run w with
      | (.error e, w') => (.error e, w')
      | (.ok b, w') => proceed request b w' := by
  rw [convert_eq_convertAt, prepare, Act.run_bind, Act.run_bind]
  rcases (resolved request.input).run w with ⟨e | input, w₁⟩
  · rfl
  · simp only
    rw [Act.run_bind, Act.run_bind]
    rcases (target input output).run w₁ with ⟨e | output, w₂⟩
    · rfl
    · exact run_convertAt reader request input output w₂

/-! ### What is known of a prepared conversion -/

variable {reader : Pdf.Reader α} {request : Request α} {output : Option FilePath}

/-- Until a conversion is prepared, the files only grow. -/
theorem grows_prepare (tree : FileTree) :
    (prepare reader request output).Keeps fun w => tree.Grows w.files := by
  have hresolved : ∀ path, (resolved path).Keeps fun w => tree.Grows w.files :=
    fun path => .bind .get fun _ => .ofExcept _
  have hmade : ∀ path, (Workspace.makeDirectories path).Keeps fun w => tree.Grows w.files := by
    intro path w hw
    rw [Workspace.makeDirectories, Act.run_bind_ok (Act.run_get w), Act.run_bind, Act.run_ofExcept]
    cases hmade : w.files.makeDirectories path with
    | error e => exact hw
    | ok made => exact hw.trans (FileTree.grows_makeDirectories hmade)
  refine .bind (hresolved _) fun input => .bind ?_ fun output => .bind (.ofExcept _) fun options =>
    .bind (hmade _) fun _ => .bind (.bind .get fun _ => .ofExcept _) fun document =>
      .bind .get fun _ => .bind (.ofExcept _) fun place => .pure _
  cases output with
  | none => exact .ofExcept _
  | some path => exact hresolved path

/-- A prepared conversion has settled its options and knows where its output is. -/
theorem of_prepare {w made : Workspace} {b : Prepared α}
    (h : (prepare reader request output).run w = (.ok b, made)) :
    settle request.options (some b.output) = .ok b.options
      ∧ made.files.writable b.output = .ok b.place := by
  obtain ⟨input, _, -, h⟩ := Act.run_bind_eq_ok h
  obtain ⟨target, _, -, h⟩ := Act.run_bind_eq_ok h
  obtain ⟨options, hsettle, h⟩ := Act.run_ofExcept_bind_eq_ok h
  obtain ⟨_, _, -, h⟩ := Act.run_bind_eq_ok h
  obtain ⟨document, w', -, h⟩ := Act.run_bind_eq_ok h
  rw [Act.run_bind_ok (Act.run_get w')] at h
  obtain ⟨place, hplace, h⟩ := Act.run_ofExcept_bind_eq_ok h
  cases h
  refine ⟨hsettle, ?_⟩
  cases hwritable : w'.files.writable target with
  | error e =>
    rw [hwritable] at hplace
    cases hplace
  | ok found =>
    rw [hwritable] at hplace
    cases hplace
    exact hwritable

omit [Scalar α] in
/-- A file that is read goes on being read when files are added. -/
theorem bytes?_of_grows {tree tree' : FileTree} (h : tree.Grows tree') {path : FilePath}
    {shown : Text} {bytes : Bytes}
    (hbytes : Pdf.Document.bytes? tree path shown = .ok bytes) :
    Pdf.Document.bytes? tree' path shown = .ok bytes := by
  unfold Pdf.Document.bytes? at hbytes ⊢
  split at hbytes
  · cases hbytes
  next found hlook =>
    rw [FileTree.look_of_grows h hlook, h.refuses]
    exact hbytes
  · cases hbytes

omit [Scalar α] in
/-- So does a document. -/
theorem open?_of_grows {tree tree' : FileTree} (h : tree.Grows tree') {path : FilePath}
    {shown : Text} {password : Option Text} {document : Pdf.Document α}
    (hopen : Pdf.Document.open? reader tree path shown password = .ok document) :
    Pdf.Document.open? reader tree' path shown password = .ok document := by
  unfold Pdf.Document.open? at hopen ⊢
  cases hbytes : Pdf.Document.bytes? tree path shown with
  | error e =>
    rw [hbytes] at hopen
    cases hopen
  | ok bytes =>
    rw [hbytes] at hopen
    rw [bytes?_of_grows h hbytes]
    exact hopen

omit [Scalar α] in
theorem run_resolved (path : FilePath) (w : Workspace) :
    (resolved path).run w = (w.files.resolve path, w) := by
  rw [resolved, Act.run_bind_ok (Act.run_get w), Act.run_ofExcept]

omit [Scalar α] in
theorem of_resolved {path resolvedPath : FilePath} {w w' : Workspace}
    (h : (resolved path).run w = (.ok resolvedPath, w')) : w' = w := by
  rw [run_resolved] at h
  exact (congrArg Prod.snd h).symm

omit [Scalar α] in
theorem of_openInput {input : FilePath} {password : Option Text} {document : Pdf.Document α}
    {w w' : Workspace} (h : (openInput reader input password).run w = (.ok document, w')) :
    Pdf.Document.open? reader w.files input input.text password = .ok document ∧ w' = w := by
  rw [openInput, Act.run_bind_ok (Act.run_get w), Act.run_ofExcept] at h
  obtain ⟨hopen, hstays⟩ := Prod.mk.inj h
  exact ⟨hopen, hstays.symm⟩

/-- A prepared conversion has resolved its input and opened the document. -/
theorem opened_of_prepare {w made : Workspace} {b : Prepared α}
    (h : (prepare reader request output).run w = (.ok b, made)) :
    (resolved request.input).run w = (.ok b.input, w)
      ∧ Pdf.Document.open? reader made.files b.input b.input.text request.password
        = .ok b.document := by
  obtain ⟨input, w₁, hinput, h⟩ := Act.run_bind_eq_ok h
  obtain ⟨target, w₂, htarget, h⟩ := Act.run_bind_eq_ok h
  obtain ⟨options, -, h⟩ := Act.run_ofExcept_bind_eq_ok h
  obtain ⟨_, w₃, -, h⟩ := Act.run_bind_eq_ok h
  obtain ⟨document, w₄, hopen, h⟩ := Act.run_bind_eq_ok h
  rw [Act.run_bind_ok (Act.run_get w₄)] at h
  obtain ⟨place, hplace, h⟩ := Act.run_ofExcept_bind_eq_ok h
  cases h
  obtain rfl := of_resolved hinput
  obtain ⟨hopen, rfl⟩ := of_openInput hopen
  exact ⟨hinput, hopen⟩

end Conversion

end Folio
