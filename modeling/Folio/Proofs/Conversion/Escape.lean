import Folio.CommandLine
import Folio.Proofs.Conversion.Stages
import Folio.Proofs.Scalar.Rational

/-!
# Failures that callers see as they are

A caller is told of failures of the package and of refused values as they are, and of anything else
as a failed conversion. That last step stands around the layout alone, so whatever comes before it
may let other failures out (`Escapes`): the paths that are resolved, the directory of the output,
the look at the input, and what a document is asked before it is open. `failures_escape` says at
which of these places a failure escapes, and which failures that can be; no other failure does.
-/

namespace Folio.Conversion

open Text (lit)

variable {α β γ σ : Type} {e : Fault}

/-! ## Failures that pass -/

/-- The failure reaches the caller, though it is no failure of the package and no refused value. -/
def Escapes (answer : Except Fault β) (e : Fault) : Prop := answer = .error e ∧ passes e = false

/-- Whatever fails here is the package's own failure or a refused value. -/
def AllPass (x : Except Fault β) : Prop := ∀ e, x = .error e → passes e = true

namespace AllPass

theorem ok (b : β) : AllPass (.ok b) := fun _ h => by cases h

theorem error (h : passes e = true) : AllPass (.error e : Except Fault β) := by
  intro _ he
  cases he
  exact h

theorem bind {x : Except Fault β} {f : β → Except Fault γ} (hx : AllPass x)
    (hf : ∀ b, AllPass (f b)) : AllPass (x >>= f) := by
  intro e h
  cases x with
  | error e' =>
    cases h
    exact hx e rfl
  | ok b => exact hf b e h

theorem ite {p : Prop} [Decidable p] {x y : Except Fault β} (hx : AllPass x) (hy : AllPass y) :
    AllPass (if p then x else y) := by
  split
  · exact hx
  · exact hy

theorem not_escapes {x : Except Fault β} (hx : AllPass x) : ¬ Escapes x e := by
  rintro ⟨h, hpasses⟩
  rw [hx e h] at hpasses
  cases hpasses

end AllPass

theorem escapes_error_iff {e' : Fault} :
    Escapes (.error e' : Except Fault β) e ↔ e' = e ∧ passes e = false := by
  rw [Escapes, Except.error.injEq]

/-- A failure escapes two steps from the first one, or from the second one behind it. -/
theorem escapes_bind_iff {x : Except Fault β} {f : β → Except Fault γ} :
    Escapes (x >>= f) e ↔ Escapes x e ∨ ∃ b, x = .ok b ∧ Escapes (f b) e := by
  cases x with
  | error e' =>
    refine ⟨fun h => .inl (escapes_error_iff.mpr (escapes_error_iff.mp h)), ?_⟩
    rintro (h | ⟨b, hb, -⟩)
    · exact escapes_error_iff.mpr (escapes_error_iff.mp h)
    · cases hb
  | ok b =>
    refine ⟨fun h => .inr ⟨b, rfl, h⟩, ?_⟩
    rintro (⟨h, -⟩ | ⟨_, ⟨⟩, h⟩)
    · cases h
    · exact h

theorem escapes_bind_of_allPass {x : Except Fault β} (hx : AllPass x) {f : β → Except Fault γ} :
    Escapes (x >>= f) e ↔ ∃ b, x = .ok b ∧ Escapes (f b) e :=
  escapes_bind_iff.trans (or_iff_right hx.not_escapes)

theorem escapes_run_bind_iff {x : Act σ β} {f : β → Act σ γ} {s : σ} :
    Escapes ((x >>= f).run s).1 e
      ↔ Escapes (x.run s).1 e ∨ ∃ b s', x.run s = (.ok b, s') ∧ Escapes ((f b).run s').1 e := by
  rw [Act.run_bind]
  rcases x.run s with ⟨e' | b, s'⟩
  · refine ⟨fun h => .inl (escapes_error_iff.mpr (escapes_error_iff.mp h)), ?_⟩
    rintro (h | ⟨b, s', hb, -⟩)
    · exact escapes_error_iff.mpr (escapes_error_iff.mp h)
    · cases hb
  · refine ⟨fun h => .inr ⟨b, s', rfl, h⟩, ?_⟩
    rintro (⟨h, -⟩ | ⟨_, _, ⟨⟩, h⟩)
    · cases h
    · exact h

theorem escapes_ofExcept_bind_iff {x : Except Fault β} {f : β → Act σ γ} {s : σ} :
    Escapes ((Act.ofExcept x >>= f).run s).1 e
      ↔ Escapes x e ∨ ∃ b, x = .ok b ∧ Escapes ((f b).run s).1 e := by
  rw [escapes_run_bind_iff, Act.run_ofExcept]
  refine or_congr_right ⟨?_, fun ⟨b, hb, h⟩ => ⟨b, s, Prod.ext hb rfl, h⟩⟩
  rintro ⟨b, s', hrun, h⟩
  cases hrun
  exact ⟨b, rfl, h⟩

/-- What has failed after the document was opened is told as it should be. -/
theorem passes_failure (input : FilePath) (fault : Fault) :
    passes (failure input fault) = true := by
  unfold failure
  split
  next h => exact h
  next => rfl

/-- A path that no file can have is a refused value. -/
theorem allPass_check (path : FilePath) : AllPass path.check :=
  .ite (.error rfl) (.ite (.error rfl) (.ok ()))

theorem allPass_wantsFiles : ∀ emission : Emission, AllPass emission.wantsFiles
  | .inline => .ok false
  | .files => .ok true
  | .unknown _ => .error rfl

/-- Every path but the top of all has a name that can be given another ending. -/
theorem allPass_withSuffix (path : FilePath) (suffix : Text) : AllPass (path.withSuffix suffix) :=
  .ite (.error rfl) (.ok _)

/-- Bytes that are no document are a failure of the package. -/
theorem allPass_source? (reader : Pdf.Reader α) (bytes : Bytes) (shown : Text) :
    AllPass (Pdf.Document.source? reader bytes shown) := by
  unfold Pdf.Document.source?
  split
  · exact .ok _
  · exact .error rfl
  · exact .error rfl

section

variable [Scalar α]

theorem allPass_optionsCheck (options : Options α) : AllPass options.check := by
  have hguard : ∀ {p : Prop} [Decidable p] {words : Text} {x : Except Fault Unit}, AllPass x →
      AllPass (if p then (throw (.refused words) : Except Fault PUnit) >>= fun _ => x else x) :=
    fun hx => .ite (.bind (.error rfl) fun _ => hx) hx
  exact hguard (hguard (hguard (hguard
    (.bind (allPass_wantsFiles _) fun _ => .ite (.error rfl) (.ok ())))))

theorem allPass_settle (options : Options α) (output : Option FilePath) :
    AllPass (settle options output) :=
  .bind (allPass_wantsFiles _) fun _ => .bind (allPass_optionsCheck _) fun _ => .ok _

/-! ## Failures that do not pass -/

omit [Scalar α] in
theorem passes_unresolved (path : FilePath) (problem : FileProblem) :
    passes (FileTree.unresolved path problem) = false := by
  unfold FileTree.unresolved
  split <;> rfl

omit [Scalar α] in
/-- A path that the system does not resolve may still be that of a file. -/
theorem resolve_escapes_iff (tree : FileTree) (path : FilePath) :
    Escapes (tree.resolve path) e ↔ path.check = .ok () ∧ ∃ problem,
      tree.refuses .resolve path = some problem ∧ e = FileTree.unresolved path problem := by
  refine (escapes_bind_of_allPass (allPass_check path)).trans ⟨?_, ?_⟩
  · rintro ⟨⟨⟩, hcheck, h⟩
    refine ⟨hcheck, ?_⟩
    cases hrefuses : tree.refuses .resolve path with
    | none =>
      rw [hrefuses] at h
      cases h.1
    | some problem =>
      rw [hrefuses] at h
      exact ⟨problem, rfl, (escapes_error_iff.mp h).1.symm⟩
  · rintro ⟨hcheck, problem, hrefuses, rfl⟩
    refine ⟨(), hcheck, ?_⟩
    rw [hrefuses]
    exact escapes_error_iff.mpr ⟨rfl, passes_unresolved path problem⟩

omit [Scalar α] in
theorem of_hasDirectory {tree : FileTree} {path : FilePath} {problem : FileProblem}
    (h : tree.hasDirectory path problem = .error e) : ∃ kind path, e = .file kind path := by
  unfold FileTree.hasDirectory at h
  split at h <;> cases h
  · exact ⟨_, _, rfl⟩
  · exact ⟨_, _, rfl⟩

omit [Scalar α] in
/-- What cannot be made is a failure of the file system. -/
theorem of_makeReversed {tree : FileTree} {root : Text} {steps : List Text}
    (h : tree.makeReversed root steps = .error e) : ∃ kind path, e = .file kind path := by
  induction steps generalizing tree with
  | nil => cases h
  | cons step above ih =>
    unfold FileTree.makeReversed at h
    simp only at h
    split at h
    · cases h
    · cases habove : tree.makeReversed root above with
      | error e' =>
        rw [habove] at h
        cases h
        exact ih habove
      | ok made =>
        rw [habove] at h
        simp only [bind, Except.bind] at h
        split at h
        · cases h
        · exact of_hasDirectory h
    · exact of_hasDirectory h

omit [Scalar α] in
theorem of_makeDirectories {tree : FileTree} {path : FilePath}
    (h : Escapes (tree.makeDirectories path) e) : ∃ kind path, e = .file kind path := by
  obtain ⟨_, -, hmade⟩ := (escapes_bind_of_allPass (allPass_check path)).mp h
  exact of_makeReversed hmade.1

/-! ## Opening -/

/-- The system lets the file at the path be read, and its bytes are that. -/
structure Reads (reader : Pdf.Reader α) (tree : FileTree) (path : FilePath) (source : Pdf.Source α)
    (bytes : Bytes) : Prop where
  there : tree.look path = .ok (some (.file bytes))
  readable : tree.refuses .read path = none
  document : reader bytes = .ok source

/-- Why a document does not open, failures of the package and refused values apart. -/
inductive Unopened (reader : Pdf.Reader α) (tree : FileTree) (path : FilePath)
    (password : Option Text) : Fault → Prop
  /-- The system does not say what stands at the path. -/
  | unseen {problem : FileProblem} (hlook : tree.look path = .error problem) :
    Unopened reader tree path password (.file problem path.text)
  /-- Whether the document is encrypted cannot be told. -/
  | encryption {source : Pdf.Source α} {bytes : Bytes} {e : Fault}
    (hread : Reads reader tree path source bytes) (h : Escapes source.encrypted e) :
    Unopened reader tree path password e
  /-- It is, and trying the password fails. -/
  | decryption {source : Pdf.Source α} {bytes : Bytes} {given : Text} {e : Fault}
    (hread : Reads reader tree path source bytes) (hencrypted : source.encrypted = .ok true)
    (hgiven : password = some given) (hwords : given ≠ []) (h : Escapes (source.opens given) e) :
    Unopened reader tree path password e
  /-- The pages of the document cannot be counted. -/
  | pages {source : Pdf.Source α} {bytes : Bytes} {e : Fault}
    (hread : Reads reader tree path source bytes)
    (hunlocked : Pdf.Document.unlock source password = .ok ()) (h : Escapes source.pages e) :
    Unopened reader tree path password e

omit [Scalar α] in
/-- A file that cannot be read is a failure of the package, but one that cannot be looked at is
not. -/
theorem bytes?_escapes_iff (tree : FileTree) (path : FilePath) (shown : Text) :
    Escapes (Pdf.Document.bytes? tree path shown) e
      ↔ ∃ problem, tree.look path = .error problem ∧ e = .file problem path.text := by
  unfold Pdf.Document.bytes?
  cases hlook : tree.look path with
  | error unseen =>
    refine escapes_error_iff.trans ⟨fun h => ⟨unseen, rfl, h.1.symm⟩, ?_⟩
    rintro ⟨_, ⟨⟩, rfl⟩
    exact ⟨rfl, rfl⟩
  | ok found =>
    refine ⟨fun h => absurd h (AllPass.not_escapes ?_), fun ⟨_, h, _⟩ => by cases h⟩
    rcases found with _ | _ | bytes
    · exact .error rfl
    · exact .error rfl
    · simp only
      split
      · exact .ok _
      · exact .error rfl

omit [Scalar α] in
theorem bytes?_eq_ok_iff {tree : FileTree} {path : FilePath} {shown : Text} {bytes : Bytes} :
    Pdf.Document.bytes? tree path shown = .ok bytes
      ↔ tree.look path = .ok (some (.file bytes)) ∧ tree.refuses .read path = none := by
  unfold Pdf.Document.bytes?
  rcases tree.look path with unseen | _ | _ | found
  · simp
  · simp
  · simp
  · cases tree.refuses .read path <;> simp

omit [Scalar α] in
theorem source?_eq_ok_iff {reader : Pdf.Reader α} {bytes : Bytes} {shown : Text}
    {source : Pdf.Source α} :
    Pdf.Document.source? reader bytes shown = .ok source ↔ reader bytes = .ok source := by
  unfold Pdf.Document.source?
  rcases reader bytes with (words | words) | found <;> simp

omit [Scalar α] in
/-- To decrypt a document may fail where the reader tries the password. -/
theorem decrypt_escapes_iff (source : Pdf.Source α) (password : Option Text) :
    Escapes (Pdf.Document.decrypt source password) e
      ↔ ∃ given, password = some given ∧ given ≠ [] ∧ Escapes (source.opens given) e := by
  rcases password with _ | _ | ⟨c, rest⟩
  · exact ⟨fun h => absurd h (AllPass.not_escapes (.error rfl)), fun ⟨_, h, _⟩ => by cases h⟩
  · refine ⟨fun h => absurd h (AllPass.not_escapes (.error rfl)), ?_⟩
    rintro ⟨_, ⟨⟩, hwords, -⟩
    exact absurd rfl hwords
  · have hrefused : ∀ opened : Bool, AllPass (do
        unless opened do
          throw (.ofProblem .encrypted (lit "Failed to decrypt PDF with supplied password.")) :
          Except Fault Unit) := by
      rintro (_ | _)
      · exact .error rfl
      · exact .ok ()
    refine escapes_bind_iff.trans ⟨?_, ?_⟩
    · rintro (h | ⟨opened, -, h⟩)
      · exact ⟨_, rfl, List.cons_ne_nil _ _, h⟩
      · exact absurd h (hrefused opened).not_escapes
    · rintro ⟨_, ⟨⟩, -, h⟩
      exact .inl h

omit [Scalar α] in
theorem unlock_escapes_iff (source : Pdf.Source α) (password : Option Text) :
    Escapes (Pdf.Document.unlock source password) e
      ↔ Escapes source.encrypted e ∨ source.encrypted = .ok true
        ∧ ∃ given, password = some given ∧ given ≠ [] ∧ Escapes (source.opens given) e := by
  rw [← decrypt_escapes_iff]
  refine escapes_bind_iff.trans (or_congr_right ⟨?_, fun ⟨h, hd⟩ => ⟨true, h, hd⟩⟩)
  rintro ⟨_ | _, hencrypted, h⟩
  · cases h.1
  · exact ⟨hencrypted, h⟩

omit [Scalar α] in
/-- A document opens stage by stage, and behind its pages nothing escapes. -/
theorem open?_escapes_iff_stages (reader : Pdf.Reader α) (tree : FileTree) (path : FilePath)
    (shown : Text) (password : Option Text) :
    Escapes (Pdf.Document.open? reader tree path shown password) e
      ↔ Escapes (Pdf.Document.bytes? tree path shown) e
        ∨ ∃ bytes, Pdf.Document.bytes? tree path shown = .ok bytes
          ∧ ∃ source, Pdf.Document.source? reader bytes shown = .ok source
            ∧ (Escapes (Pdf.Document.unlock source password) e
              ∨ ∃ u, Pdf.Document.unlock source password = .ok u ∧ Escapes source.pages e) := by
  refine escapes_bind_iff.trans (or_congr_right (exists_congr fun bytes => and_congr_right fun _ =>
    (escapes_bind_of_allPass (allPass_source? reader bytes shown)).trans ?_))
  refine exists_congr fun source => and_congr_right fun _ => escapes_bind_iff.trans
    (or_congr_right (exists_congr fun _ => and_congr_right fun _ => escapes_bind_iff.trans
      (or_iff_left ?_)))
  rintro ⟨pages, -, h⟩
  revert h
  cases pages with
  | nil => exact AllPass.not_escapes (.error rfl)
  | cons page rest => exact AllPass.not_escapes (.ok _)

omit [Scalar α] in
theorem open?_escapes_iff (reader : Pdf.Reader α) (tree : FileTree) (path : FilePath) (shown : Text)
    (password : Option Text) :
    Escapes (Pdf.Document.open? reader tree path shown password) e
      ↔ Unopened reader tree path password e := by
  constructor
  · intro h
    rcases (open?_escapes_iff_stages reader tree path shown password).mp h with
      h | ⟨bytes, hbytes, source, hsource, h⟩
    · obtain ⟨problem, hlook, rfl⟩ := (bytes?_escapes_iff tree path shown).mp h
      exact .unseen hlook
    · obtain ⟨hthere, hreadable⟩ := bytes?_eq_ok_iff.mp hbytes
      have hread : Reads reader tree path source bytes :=
        ⟨hthere, hreadable, source?_eq_ok_iff.mp hsource⟩
      rw [unlock_escapes_iff] at h
      rcases h with (h | ⟨hencrypted, given, hgiven, hwords, h⟩) | ⟨⟨⟩, hunlocked, h⟩
      · exact .encryption hread h
      · exact .decryption hread hencrypted hgiven hwords h
      · exact .pages hread hunlocked h
  · -- Whatever is asked of the document is asked when its bytes have been read.
    have hasked : ∀ {source : Pdf.Source α} {bytes : Bytes},
        Reads reader tree path source bytes →
        (Escapes (Pdf.Document.unlock source password) e
          ∨ ∃ u, Pdf.Document.unlock source password = .ok u ∧ Escapes source.pages e) →
        Escapes (Pdf.Document.open? reader tree path shown password) e := fun hread h =>
      (open?_escapes_iff_stages reader tree path shown password).mpr (.inr
        ⟨_, bytes?_eq_ok_iff.mpr ⟨hread.there, hread.readable⟩, _,
          source?_eq_ok_iff.mpr hread.document, h⟩)
    intro h
    cases h with
    | unseen hlook =>
      exact (open?_escapes_iff_stages reader tree path shown password).mpr
        (.inl ((bytes?_escapes_iff tree path shown).mpr ⟨_, hlook, rfl⟩))
    | encryption hread h => exact hasked hread (.inl ((unlock_escapes_iff _ _).mpr (.inl h)))
    | decryption hread hencrypted hgiven hwords h =>
      exact hasked hread
        (.inl ((unlock_escapes_iff _ _).mpr (.inr ⟨hencrypted, _, hgiven, hwords, h⟩)))
    | pages hread hunlocked h => exact hasked hread (.inr ⟨(), hunlocked, h⟩)

/-! ## Stages -/

omit [Scalar α] in
theorem resolved_escapes_iff {path : FilePath} {f : FilePath → Act Workspace β} {w : Workspace} :
    Escapes ((resolved path >>= f).run w).1 e
      ↔ Escapes (w.files.resolve path) e
        ∨ ∃ place, w.files.resolve path = .ok place ∧ Escapes ((f place).run w).1 e := by
  rw [resolved, bind_assoc, Act.run_bind_ok (Act.run_get w)]
  exact escapes_ofExcept_bind_iff

omit [Scalar α] in
theorem makeDirectories_escapes_iff {path : FilePath} {f : Unit → Act Workspace β}
    {w : Workspace} :
    Escapes ((Workspace.makeDirectories path >>= f).run w).1 e
      ↔ Escapes (w.files.makeDirectories path) e
        ∨ ∃ made, w.files.makeDirectories path = .ok made
          ∧ Escapes ((f ()).run { w with files := made }).1 e := by
  rw [Workspace.makeDirectories, bind_assoc, Act.run_bind_ok (Act.run_get w), bind_assoc]
  exact escapes_ofExcept_bind_iff

omit [Scalar α] in
theorem openInput_escapes_iff {reader : Pdf.Reader α} {input : FilePath} {password : Option Text}
    {f : Pdf.Document α → Act Workspace β} {w : Workspace} :
    Escapes ((openInput reader input password >>= f).run w).1 e
      ↔ Unopened reader w.files input password e
        ∨ ∃ document, Pdf.Document.open? reader w.files input input.text password = .ok document
          ∧ Escapes ((f document).run w).1 e := by
  rw [openInput, bind_assoc, Act.run_bind_ok (Act.run_get w), ← open?_escapes_iff]
  exact escapes_ofExcept_bind_iff

omit [Scalar α] in
/-- After a document was opened, every failure is told as it should be. -/
theorem not_escapes_wrapped (input : FilePath) {x : Act Workspace β} {f : β → Act Workspace γ}
    (hf : ∀ b s, ∃ c, ((f b).run s).1 = .ok c) (w : Workspace) :
    ¬ Escapes (((tryCatch x fun fault => throw (failure input fault)) >>= f).run w).1 e := by
  rw [escapes_run_bind_iff, Act.run_tryCatch]
  rintro (h | ⟨b, s, -, h, -⟩)
  · rcases hx : x.run w with ⟨fault | b, w'⟩
    · rw [hx] at h
      have hpasses := passes_failure input fault
      obtain ⟨rfl, hescapes⟩ := escapes_error_iff.mp h
      rw [hescapes] at hpasses
      cases hpasses
    · rw [hx] at h
      cases h.1
  · obtain ⟨c, hc⟩ := hf b s
    rw [hc] at h
    cases h

variable {reader : Pdf.Reader α} {request : Request α} {w : Workspace}

/-- What can escape a conversion with its paths. -/
theorem convertAt_escapes_iff {input target : FilePath} :
    Escapes ((convertAt reader request input target).run w).1 e
      ↔ ∃ options, settle request.options (some target) = .ok options
        ∧ (Escapes (w.files.makeDirectories target.parent) e
          ∨ ∃ made, w.files.makeDirectories target.parent = .ok made
            ∧ Unopened reader made input request.password e) := by
  refine escapes_ofExcept_bind_iff.trans
    ((or_iff_right (allPass_settle _ _).not_escapes).trans ?_)
  refine exists_congr fun options => and_congr_right fun _ => makeDirectories_escapes_iff.trans ?_
  refine or_congr_right (exists_congr fun made => and_congr_right fun _ =>
    openInput_escapes_iff.trans (or_iff_left ?_))
  rintro ⟨document, -, h⟩
  exact not_escapes_wrapped input (fun tally s => ⟨_, rfl⟩) _ h

/-- Where the output of a conversion is to go. -/
def destination (tree : FileTree) (input : FilePath) : Option FilePath → Except Fault FilePath
  | none => input.withSuffix (lit ".html")
  | some path => tree.resolve path

omit [Scalar α] in
/-- An output beside the input has a name, so only one that was given may fail to resolve. -/
theorem destination_escapes_iff {tree : FileTree} {input : FilePath} {output : Option FilePath} :
    Escapes (destination tree input output) e
      ↔ ∃ path, output = some path ∧ Escapes (tree.resolve path) e := by
  cases output with
  | none =>
    exact ⟨fun h => absurd h (allPass_withSuffix _ _).not_escapes, fun ⟨_, h, _⟩ => by cases h⟩
  | some path => exact ⟨fun h => ⟨path, rfl, h⟩, fun ⟨_, rfl, h⟩ => h⟩

omit [Scalar α] in
theorem target_escapes_iff {input : FilePath} {output : Option FilePath}
    {f : FilePath → Act Workspace β} {w : Workspace} :
    Escapes ((target input output >>= f).run w).1 e
      ↔ Escapes (destination w.files input output) e
        ∨ ∃ place, destination w.files input output = .ok place
          ∧ Escapes ((f place).run w).1 e := by
  cases output with
  | none => exact escapes_ofExcept_bind_iff
  | some path => exact resolved_escapes_iff

/-- Where a conversion reads and where it writes, if its paths resolve and its options make
sense. -/
structure Begins (request : Request α) (output : Option FilePath) (tree : FileTree)
    (input target : FilePath) : Prop where
  source : tree.resolve request.input = .ok input
  destination : destination tree input output = .ok target
  options : ∃ options, settle request.options (some target) = .ok options

/-- At which place a failure escapes a conversion. -/
inductive ConvertEscapes (reader : Pdf.Reader α) (request : Request α) (output : Option FilePath)
    (tree : FileTree) (e : Fault) : Prop
  | input (h : Escapes (tree.resolve request.input) e) : ConvertEscapes reader request output tree e
  /-- The output that was given does not resolve. -/
  | output {input path : FilePath} (hinput : tree.resolve request.input = .ok input)
    (hpath : output = some path) (h : Escapes (tree.resolve path) e) :
    ConvertEscapes reader request output tree e
  /-- The directory of the output cannot be made. -/
  | directory {input target : FilePath} (hbegins : Begins request output tree input target)
    (h : Escapes (tree.makeDirectories target.parent) e) :
    ConvertEscapes reader request output tree e
  /-- It can, but the document does not open then. -/
  | document {input target : FilePath} {made : FileTree}
    (hbegins : Begins request output tree input target)
    (hmade : tree.makeDirectories target.parent = .ok made)
    (h : Unopened reader made input request.password e) :
    ConvertEscapes reader request output tree e

theorem convert_escapes_iff {output : Option FilePath} :
    Escapes ((convert reader request output).run w).1 e
      ↔ ConvertEscapes reader request output w.files e := by
  have hconvert : Escapes ((convert reader request output).run w).1 e
      ↔ Escapes (w.files.resolve request.input) e
        ∨ ∃ input, w.files.resolve request.input = .ok input
          ∧ Escapes ((target input output >>= convertAt reader request input).run w).1 e := by
    rw [convert_eq_convertAt]
    exact resolved_escapes_iff
  rw [hconvert]
  constructor
  · rintro (h | ⟨input, hinput, h⟩)
    · exact .input h
    · rcases target_escapes_iff.mp h with h | ⟨target, htarget, h⟩
      · obtain ⟨path, hpath, h⟩ := destination_escapes_iff.mp h
        exact .output hinput hpath h
      · obtain ⟨options, hoptions, h⟩ := convertAt_escapes_iff.mp h
        have hbegins : Begins request output w.files input target :=
          ⟨hinput, htarget, options, hoptions⟩
        rcases h with h | ⟨made, hmade, h⟩
        · exact .directory hbegins h
        · exact .document hbegins hmade h
  · intro h
    cases h with
    | input h => exact .inl h
    | output hinput hpath h =>
      exact .inr ⟨_, hinput,
        target_escapes_iff.mpr (.inl (destination_escapes_iff.mpr ⟨_, hpath, h⟩))⟩
    | directory hbegins h =>
      obtain ⟨options, hoptions⟩ := hbegins.options
      refine .inr ⟨_, hbegins.source, target_escapes_iff.mpr (.inr ⟨_, hbegins.destination, ?_⟩)⟩
      exact convertAt_escapes_iff.mpr ⟨options, hoptions, .inl h⟩
    | document hbegins hmade h =>
      obtain ⟨options, hoptions⟩ := hbegins.options
      refine .inr ⟨_, hbegins.source, target_escapes_iff.mpr (.inr ⟨_, hbegins.destination, ?_⟩)⟩
      exact convertAt_escapes_iff.mpr ⟨options, hoptions, .inr ⟨_, hmade, h⟩⟩

/-- What can escape a conversion to a text. -/
theorem render_escapes_iff :
    Escapes ((render reader request).run w).1 e
      ↔ Escapes (w.files.resolve request.input) e
        ∨ ∃ input options, w.files.resolve request.input = .ok input
          ∧ settle request.options none = .ok options
          ∧ Unopened reader w.files input request.password e := by
  refine resolved_escapes_iff.trans (or_congr_right (exists_congr fun input => ?_))
  rw [exists_and_left]
  refine and_congr_right fun _ => escapes_ofExcept_bind_iff.trans
    ((or_iff_right (allPass_settle _ _).not_escapes).trans ?_)
  refine exists_congr fun options => and_congr_right fun _ => openInput_escapes_iff.trans
    (or_iff_left ?_)
  rintro ⟨document, -, h⟩
  exact not_escapes_wrapped input (fun answer s => ⟨answer.1, rfl⟩) w h

omit [Scalar α] in
/-- A path in words either is one, or nobody knows the home directory that it starts from. -/
theorem homeless_of_expand {scene : CommandLine.Scene α} {t : Text}
    (h : scene.expand t = .error e) : e = .homeless := by
  unfold CommandLine.Scene.expand at h
  split at h
  · cases h
  · split at h
    · cases h
    · split at h
      · cases h
        rfl
      · cases h

/-- Which failures callers see as they are, though they are no failures of the package and no refused
values: of a conversion and of one to a text, by the place where they escape, and what they can be
at those places; where the words of a path are expanded, that is a home directory that nobody
knows. -/
theorem failures_escape (reader : Pdf.Reader α) (request : Request α) (output : Option FilePath)
    (w : Workspace) (e : Fault) :
    (Escapes ((convert reader request output).run w).1 e
      ↔ ConvertEscapes reader request output w.files e)
    ∧ (Escapes ((render reader request).run w).1 e
      ↔ Escapes (w.files.resolve request.input) e
        ∨ ∃ input options, w.files.resolve request.input = .ok input
          ∧ settle request.options none = .ok options
          ∧ Unopened reader w.files input request.password e)
    ∧ (∀ (tree : FileTree) (path : FilePath),
      (Escapes (tree.resolve path) e ↔ path.check = .ok () ∧ ∃ problem,
        tree.refuses .resolve path = some problem ∧ e = FileTree.unresolved path problem)
      ∧ (Escapes (tree.makeDirectories path) e → ∃ kind path, e = .file kind path))
    ∧ ∀ (scene : CommandLine.Scene α) (t : Text), Escapes (scene.expand t) e → e = .homeless := by
  refine ⟨convert_escapes_iff, render_escapes_iff,
    fun tree path => ⟨resolve_escapes_iff tree path, of_makeDirectories⟩, fun scene t h => ?_⟩
  exact homeless_of_expand h.1

/-- A file stands where the directory of the output should. -/
def blockedDesk : FileTree :=
  { files := [(⟨[], [lit "a.pdf"]⟩, []), (⟨[], [lit "out"]⟩, [])] }

def intoBlocked : Request ℚ := { input := ⟨[], [lit "a.pdf"]⟩, options := .standard }

/-- A conversion into that directory fails as the file system does. -/
theorem failures_escape_blockedDesk :
    Escapes ((convert (fun _ => .error (.damaged [])) intoBlocked
        (some ⟨[], [lit "out", lit "x.html"]⟩)).run { files := blockedDesk }).1
        (.file .taken (lit "/out"))
      ∧ ConvertEscapes (fun _ => .error (.damaged [])) intoBlocked
        (some ⟨[], [lit "out", lit "x.html"]⟩) blockedDesk (.file .taken (lit "/out")) := by
  have hrun : ((convert (fun _ => .error (.damaged [])) intoBlocked
      (some ⟨[], [lit "out", lit "x.html"]⟩)).run { files := blockedDesk }).1.map (fun _ => ())
        = .error (.file .taken (lit "/out")) := by
    decide +kernel
  have hescapes : Escapes ((convert (fun _ => .error (.damaged [])) intoBlocked
      (some ⟨[], [lit "out", lit "x.html"]⟩)).run { files := blockedDesk }).1
      (.file .taken (lit "/out")) := by
    rcases h : ((convert (fun _ => .error (.damaged [])) intoBlocked
        (some ⟨[], [lit "out", lit "x.html"]⟩)).run { files := blockedDesk }).1 with e | result
    · rw [h] at hrun
      exact escapes_error_iff.mpr ⟨Except.error.inj hrun, rfl⟩
    · rw [h] at hrun
      cases hrun
  exact ⟨hescapes, (failures_escape _ _ _ { files := blockedDesk } _).1.mp hescapes⟩

end

end Folio.Conversion
