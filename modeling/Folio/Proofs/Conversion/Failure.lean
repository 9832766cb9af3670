import Folio.Proofs.Conversion.Stages
import Folio.Proofs.Layout.Written

/-!
# What a failed conversion leaves

A conversion that fails before its output is emptied leaves everything as it could be read. One that
fails later does not (`failed_convert`): the numbers of the pages are looked at only then, so one that
is out of range leaves an empty file, and any failure leaves the text that had been laid out by then,
if no picture may be written to the same place.
-/

namespace Folio.Conversion

open Text (lit)

variable {α : Type} [Scalar α] {reader : Pdf.Reader α} {request : Request α}
  {output : Option FilePath}

omit [Scalar α] in
/-- A page number that is out of range is a refused value. -/
theorem passes_of_pageNumbers {document : Pdf.Document α} {selection : Option (List Int)}
    {fault : Fault} (h : document.pageNumbers selection = .error fault) : passes fault = true := by
  cases selection with
  | none => cases h
  | some numbers =>
    induction numbers with
    | nil => cases h
    | cons n rest ih =>
      simp only [Pdf.Document.pageNumbers, List.mapM_cons, bind, Except.bind] at h ih
      split at h
      · rename_i hn
        split at hn
        · cases hn
          cases h
          rfl
        · cases hn
      · split at h
        · rename_i hrest
          cases h
          exact ih hrest
        · cases h

/-! ## Failures -/

/-- A conversion that fails either was never prepared, and then everything that could be read still
reads as it did; or it has emptied its output. A page number that is out of range leaves nothing in
it, and what was there is lost; any failure leaves the text that had been laid out by then, and the
other files, if no picture may be written there. -/
theorem failed_convert {w w' : Workspace} {e : Fault}
    (hfails : (convert reader request output).run w = (.error e, w')) :
    ((prepare reader request output).run w = (.error e, w')
        ∧ ∀ path content, w.files.readFile path = .ok content →
          w'.files.readFile path = .ok content)
      ∨ ∃ b made, (prepare reader request output).run w = (.ok b, made)
        ∧ (∀ fault, b.document.pageNumbers request.pages = .error fault →
          e = fault ∧ w'.files.readFile b.output = .ok [])
        ∧ (¬ Placer.MayWrite b.options b.place →
          (∃ bytes, (b.pressed request.pages made).2.text.utf8? = some bytes
            ∧ w'.files.readFile b.output = .ok bytes)
          ∧ ∀ path content, path.resolve ≠ b.place → ¬ Placer.MayWrite b.options path.resolve →
            w.files.readFile path = .ok content → w'.files.readFile path = .ok content) := by
  have hgrows : w.files.Grows ((prepare reader request output).run w).2.files :=
    grows_prepare w.files w (.refl _)
  rw [run_convert] at hfails
  rcases hprepare : (prepare reader request output).run w with ⟨e' | b, made⟩
  · rw [hprepare] at hfails hgrows
    cases hfails
    exact .inl ⟨rfl, fun path content => FileTree.readFile_of_grows hgrows⟩
  · rw [hprepare] at hfails hgrows
    have hproceed : proceed request b made = (.error e, w') := hfails
    obtain ⟨-, hwritable⟩ := of_prepare hprepare
    obtain ⟨-, hlocate, hplace⟩ := FileTree.writable_eq_ok hwritable
    refine .inr ⟨b, made, rfl, fun fault hfault => ?_, fun hapart => ?_⟩
    · rw [proceed, Prepared.pressed, Press.run_of_pageNumbers hfault] at hproceed
      cases hproceed
      have hpasses := passes_of_pageNumbers hfault
      refine ⟨?_, FileTree.readFile_put_self hlocate hplace []⟩
      rw [failure, if_pos hpasses]
    · have hfiles : w'.files = (b.pressed request.pages made).2.layout.closed.placer.files :=
        congrArg Workspace.files (congrArg Prod.snd hproceed).symm
      obtain ⟨hbacked, hpage⟩ := Press.file_of_run hapart hwritable b.document request.pages
      rw [hfiles]
      refine ⟨hpage, fun path content hpath hother hread => ?_⟩
      exact FileTree.readFile_of_keepsDirectories hbacked.directories
        (hbacked.elsewhere _ _ hpath hother) (FileTree.readFile_of_grows hgrows hread)

/-! A page that is not there -/

/-- A document of one empty page. -/
def blank : Pdf.Source ℚ where
  graph := { nodes := #[], objects := [] }
  pages := .ok [{
    crop := ⟨.whole 0, .whole 0, .whole 100, .whole 100⟩, rotation := .whole 0, resources := .null
    content := none }]

/-- A document, and what it was converted to before. -/
def desk : FileTree :=
  { files := [(⟨[], [lit "a.pdf"]⟩, []), (⟨[], [lit "a.html"]⟩, [104])] }

/-- Only the second page is wanted. -/
def pastEnd : Request ℚ where
  input := ⟨[], [lit "a.pdf"]⟩
  options := .standard
  pages := some [2]

/-- The second of one page is refused, and the earlier output is gone. -/
theorem failed_convert_pastEnd : ∃ e w',
    (convert (fun _ => .ok blank) pastEnd none).run { files := desk } = (.error e, w')
      ∧ desk.readFile ⟨[], [lit "a.html"]⟩ = .ok [104]
      ∧ w'.files.readFile ⟨[], [lit "a.html"]⟩ = .ok [] := by
  have hanswer : ((convert (fun _ => .ok blank) pastEnd none).run { files := desk }).1.toOption.isNone
      = true := by decide +kernel
  have hprepared : ((prepare (fun _ => .ok blank) pastEnd none).run { files := desk }).1.toOption.map
      (fun b => (b.output, (b.document.pageNumbers pastEnd.pages).toOption.isNone))
      = some (⟨[], [lit "a.html"]⟩, true) := by decide +kernel
  have hread : desk.readFile ⟨[], [lit "a.html"]⟩ = .ok [104] := by rfl
  rcases hrun : (convert (fun _ => .ok blank) pastEnd none).run { files := desk } with ⟨e | _, w'⟩
  · refine ⟨e, w', rfl, hread, ?_⟩
    rcases failed_convert hrun with ⟨hnever, -⟩ | ⟨b, made, hprepare, hpages, -⟩
    · rw [hnever] at hprepared
      cases hprepared
    · rw [hprepare] at hprepared
      obtain ⟨houtput, hrefused⟩ := Prod.mk.inj (Option.some.inj hprepared)
      rcases hnumbers : b.document.pageNumbers pastEnd.pages with fault | numbers
      · rw [← houtput]
        exact (hpages fault hnumbers).2
      · rw [hnumbers] at hrefused
        cases hrefused
  · rw [hrun] at hanswer
    cases hanswer

end Folio.Conversion
