import Folio.Files.OpenFile
import Folio.Proofs.Act
import Folio.Proofs.Files.Growth

/-!
# File trees without contents

What a file system refuses depends on where directories and files stand, and not on what the files
hold. A tree with all of its files emptied (`hollow`) gives way to the same directories and files and
refuses the same ones, so two trees that are alike when emptied stay so
(`makeDirectories_hollow`, `writeFile_hollow`). To write more into a file that is there changes
nothing about them (`hollow_settle`).
-/

namespace Folio

namespace FileTree

/-- What is left of an entry without its content. -/
def Entry.hollow : Entry → Entry
  | directory => directory
  | file _ => file []

/-- The tree with all of its files emptied. -/
def hollow (tree : FileTree) : FileTree :=
  { tree with files := tree.files.map fun f => (f.1, []) }

/-- A file stands at the place. -/
def hasFile (tree : FileTree) (place : FilePath) : Bool := tree.files.any (·.1 == place)

variable (tree : FileTree)

theorem hasFile_hollow (place : FilePath) : tree.hollow.hasFile place = tree.hasFile place := by
  rw [hasFile, hollow, List.any_map, hasFile]
  rfl

/-! ## Looking -/

theorem lookup_hollow (place : FilePath) :
    tree.hollow.files.lookup place = (tree.files.lookup place).map fun _ => [] := by
  show (tree.files.map fun f => (f.1, [])).lookup place = _
  induction tree.files with
  | nil => rfl
  | cons f files ih =>
    rw [List.map_cons, List.lookup_cons, List.lookup_cons]
    cases place == f.1 with
    | true => rfl
    | false => exact ih

theorem entry?_hollow (path : FilePath) :
    tree.hollow.entry? path = ( tree.entry? path).map Entry.hollow := by
  have hdirs : tree.hollow.dirs = tree.dirs := rfl
  unfold entry?
  rw [lookup_hollow, hdirs]
  split
  · rfl
  · cases tree.files.lookup path with
    | some content => rfl
    | none =>
      simp only [Option.map_none]
      split <;> rfl

theorem follow_hollow (root : Text) (steps : List Text) :
    ∀ done, tree.hollow.follow root done steps = tree.follow root done steps := by
  induction steps with
  | nil => intro done; rfl
  | cons step steps ih =>
    intro done
    rw [follow, follow, entry?_hollow]
    rcases tree.entry? ⟨root, done⟩ with _ | (_ | content)
    · rfl
    · simp only [Option.map_some, Entry.hollow, ih]
    · rfl

theorem locate_hollow (path : FilePath) : tree.hollow.locate path = tree.locate path := by
  rw [locate, locate, follow_hollow]

theorem look_hollow (path : FilePath) :
    tree.hollow.look path = (tree.look path).map fun found => found.map Entry.hollow := by
  have hrefuses : tree.hollow.refuses = tree.refuses := rfl
  rw [look, look, hrefuses, locate_hollow]
  cases tree.refuses .look path with
  | some problem =>
    simp only
    split <;> rfl
  | none =>
    cases tree.locate path with
    | error problem =>
      simp only [Except.map]
      split <;> rfl
    | ok place =>
      simp only [Except.map]
      rw [entry?_hollow]

theorem writable_hollow (path : FilePath) : tree.hollow.writable path = tree.writable path := by
  rw [writable, writable, locate_hollow]
  cases path.check with
  | error e => rfl
  | ok =>
    cases tree.locate path with
    | error problem => rfl
    | ok place =>
      have hrefuses : tree.hollow.refuses = tree.refuses := rfl
      simp only [entry?_hollow, hrefuses]
      rcases tree.entry? place with _ | (_ | content) <;> rfl

/-! ## Making -/

theorem makeDirectory_hollow (path : FilePath) :
    tree.hollow.makeDirectory path = (tree.makeDirectory path).map hollow := by
  rw [makeDirectory, makeDirectory, locate_hollow]
  cases tree.locate path with
  | error problem => rfl
  | ok place =>
    simp only [bind, Except.bind, entry?_hollow]
    have hrefuses : tree.hollow.refuses = tree.refuses := rfl
    rw [hrefuses]
    cases tree.entry? place with
    | some entry => rfl
    | none =>
      cases tree.refuses .make path with
      | some problem => rfl
      | none => rfl

theorem hasDirectory_hollow (path : FilePath) (problem : FileProblem) :
    tree.hollow.hasDirectory path problem = (tree.hasDirectory path problem).map hollow := by
  rw [hasDirectory, hasDirectory, look_hollow]
  rcases tree.look path with unseen | _ | _ | content <;> rfl

theorem makeReversed_hollow (root : Text) (steps : List Text) (tree : FileTree) :
    tree.hollow.makeReversed root steps = (tree.makeReversed root steps).map hollow := by
  induction steps generalizing tree with
  | nil => rfl
  | cons step above ih =>
    rw [makeReversed, makeReversed, makeDirectory_hollow]
    cases hmake : tree.makeDirectory ⟨root, (step :: above).reverse⟩ with
    | ok made => rfl
    | error problem =>
      cases problem with
      | missing =>
        -- The directories above are made first, and then this one is tried again.
        simp only [Except.map, bind, Except.bind]
        rw [ih]
        cases tree.makeReversed root above with
        | error e => rfl
        | ok below =>
          simp only [Except.map]
          rw [makeDirectory_hollow]
          cases below.makeDirectory ⟨root, (step :: above).reverse⟩ with
          | ok made => rfl
          | error problem => exact hasDirectory_hollow below _ problem
      | taken | notDirectory | isDirectory | tooLong | denied | looped | other _ =>
        exact hasDirectory_hollow tree _ _

theorem makeDirectories_hollow (path : FilePath) :
    tree.hollow.makeDirectories path = (tree.makeDirectories path).map hollow := by
  rw [makeDirectories, makeDirectories]
  cases path.check with
  | error e => rfl
  | ok => exact makeReversed_hollow _ _ tree

theorem hollow_put (place : FilePath) (content : Bytes) :
    (tree.put place content).hollow = tree.hollow.put place [] := by
  have hsame : tree.hollow.files.any (·.1 == place) = tree.files.any (·.1 == place) :=
    hasFile_hollow tree place
  unfold put
  rw [hsame]
  by_cases hthere : tree.files.any (·.1 == place) = true
  · simp only [if_pos hthere, hollow, List.map_map]
    congr 1
    refine List.map_congr_left fun f _ => ?_
    simp only [Function.comp]
    split <;> rfl
  · simp only [if_neg hthere, hollow, List.map_append]
    rfl

theorem writeFile_hollow (path : FilePath) (content : Bytes) :
    (tree.writeFile path content).map hollow = tree.hollow.writeFile path [] := by
  rw [writeFile, writeFile, writable_hollow]
  cases tree.writable path with
  | error e => rfl
  | ok place => exact congrArg Except.ok (hollow_put tree place content)

/-! ## Files that are there -/

variable {tree}

/-- A file that is there may hold something else. -/
theorem hollow_put_of_hasFile {place : FilePath} (h : tree.hasFile place = true) (content : Bytes) :
    (tree.put place content).hollow = tree.hollow := by
  have hthere : tree.files.any (·.1 == place) = true := h
  unfold put
  rw [if_pos hthere, hollow, hollow, List.map_map]
  congr 1
  refine List.map_congr_left fun f _ => ?_
  simp only [Function.comp]
  split
  · rename_i hplace
    rw [beq_iff_eq.mp hplace]
  · rfl

theorem hasFile_put {place : FilePath} (h : tree.hasFile place = true) (other : FilePath)
    (content : Bytes) : (tree.put other content).hasFile place = true := by
  obtain ⟨f, hf, hplace⟩ := List.any_eq_true.mp h
  unfold put hasFile
  split
  · rw [List.any_map]
    refine List.any_eq_true.mpr ⟨f, hf, ?_⟩
    simp only [Function.comp]
    split
    · rename_i hother
      rw [← beq_iff_eq.mp hother]
      exact hplace
    · exact hplace
  · have hthere : tree.files.any (·.1 == place) = true := h
    rw [List.any_append, hthere, Bool.true_or]

theorem files_makeDirectory {tree' : FileTree} {path : FilePath}
    (h : tree.makeDirectory path = .ok tree') : tree'.files = tree.files := by
  obtain ⟨place, -, rfl⟩ := makeDirectory_eq_ok h
  rfl

theorem files_makeDirectories {tree' : FileTree} {path : FilePath}
    (h : tree.makeDirectories path = .ok tree') : tree'.files = tree.files :=
  makeReversed_induction (R := fun t u => u.files = t.files) (fun _ => rfl)
    (fun hfirst hsecond => hsecond.trans hfirst) files_makeDirectory (makeDirectories_eq_ok h)

/-- To make directories moves no file. -/
theorem hasFile_makeDirectories {tree' : FileTree} {path : FilePath}
    (h : tree.makeDirectories path = .ok tree') (place : FilePath) :
    tree'.hasFile place = tree.hasFile place := by
  rw [hasFile, files_makeDirectories h, hasFile]

theorem hasFile_writeFile {tree' : FileTree} {path : FilePath} {content : Bytes}
    (h : tree.writeFile path content = .ok tree') {place : FilePath}
    (hplace : tree.hasFile place = true) : tree'.hasFile place = true := by
  obtain ⟨other, -, rfl⟩ := writeFile_eq_ok h
  exact hasFile_put hplace other content

end FileTree

namespace OpenFile

/-- What is let go goes to a file that is there, and stays with it. -/
theorem hollow_settle {file : OpenFile} {tree : FileTree} (h : tree.hasFile file.place = true) :
    (file.settle tree).2.hollow = tree.hollow ∧ (file.settle tree).1.place = file.place
      ∧ (file.settle tree).2.hasFile file.place = true := by
  unfold settle flush FileTree.writeAt
  split
  · split
    · exact ⟨rfl, rfl, h⟩
    · exact ⟨FileTree.hollow_put_of_hasFile h _, rfl, FileTree.hasFile_put h _ _⟩
  · exact ⟨rfl, rfl, h⟩

end OpenFile

end Folio
