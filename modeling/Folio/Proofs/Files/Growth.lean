import Folio.Files

/-!
# Growing file trees

A tree only grows while a program makes directories in it: what stands somewhere goes on standing
there (`grows_makeDirectories`). A file that is written changes one place, which is no directory, so
every directory stays one (`keepsDirectories_put`). A path leads to the same place as long as the
directories on its way stay, so what is read behind it is decided at that one place
(`readFile_of_keepsDirectories`), and a file that has been written reads as it was written
(`readFile_writeFile`).

Wherever a path leads, it is where its double dots say (`locate_eq_resolve`).
-/

namespace Folio.FileTree

variable {tree tree' : FileTree}

/-! ## Making directories -/

/-- Making a directory and those above it is a chain of single directories made. -/
theorem makeReversed_induction {R : FileTree → FileTree → Prop} (refl : ∀ t, R t t)
    (trans : ∀ {t u v}, R t u → R u v → R t v)
    (make : ∀ {t u path}, t.makeDirectory path = .ok u → R t u) {root : Text} {steps : List Text}
    (h : tree.makeReversed root steps = .ok tree') : R tree tree' := by
  induction steps generalizing tree tree' with
  | nil =>
    cases h
    exact refl tree
  | cons step above ih =>
    have hthere : ∀ {t u : FileTree} {problem : FileProblem},
        t.hasDirectory ⟨root, (step :: above).reverse⟩ problem = .ok u → R t u := by
      intro t u problem h
      unfold hasDirectory at h
      split at h
      · cases h
        exact refl t
      · cases h
      · cases h
    rw [makeReversed] at h
    cases hmake : tree.makeDirectory ⟨root, (step :: above).reverse⟩ with
    | ok made =>
      rw [hmake] at h
      cases h
      exact make hmake
    | error problem =>
      rw [hmake] at h
      cases problem with
      | missing =>
        -- The directories above are made first, and then this one is tried again.
        simp only [bind, Except.bind] at h
        cases habove : tree.makeReversed root above with
        | error e =>
          rw [habove] at h
          cases h
        | ok below =>
          rw [habove] at h
          simp only at h
          cases hagain : below.makeDirectory ⟨root, (step :: above).reverse⟩ with
          | ok made =>
            rw [hagain] at h
            cases h
            exact trans (ih habove) (make hagain)
          | error problem =>
            rw [hagain] at h
            exact trans (ih habove) (hthere h)
      | taken | notDirectory | isDirectory | tooLong | denied | looped | other _ => exact hthere h

theorem makeDirectory_eq_ok {path : FilePath} (h : tree.makeDirectory path = .ok tree') :
    ∃ place, tree.entry? place = none ∧ tree' = { tree with dirs := tree.dirs ++ [place] } := by
  rw [makeDirectory] at h
  cases hlocate : tree.locate path with
  | error problem =>
    rw [hlocate] at h
    cases h
  | ok place =>
    rw [hlocate] at h
    simp only [bind, Except.bind] at h
    cases hentry : tree.entry? place with
    | some entry =>
      rw [hentry] at h
      cases h
    | none =>
      rw [hentry] at h
      simp only at h
      split at h
      · cases h
      · cases h
        exact ⟨place, hentry, rfl⟩

theorem makeDirectories_eq_ok {path : FilePath} (h : tree.makeDirectories path = .ok tree') :
    tree.makeReversed path.root path.steps.reverse = .ok tree' := by
  rw [makeDirectories] at h
  cases hcheck : path.check with
  | error e =>
    rw [hcheck] at h
    cases h
  | ok =>
    rw [hcheck] at h
    exact h

/-! ## What goes on standing -/

/-- What stands somewhere in the one tree stands there in the other, which refuses no more and no
less. -/
structure Grows (tree tree' : FileTree) : Prop where
  entry : ∀ path entry, tree.entry? path = some entry → tree'.entry? path = some entry
  refuses : tree'.refuses = tree.refuses

/-- Every directory of the one tree is one in the other. -/
def KeepsDirectories (tree tree' : FileTree) : Prop :=
  ∀ path, tree.entry? path = some .directory → tree'.entry? path = some .directory

theorem Grows.refl (tree : FileTree) : tree.Grows tree := ⟨fun _ _ h => h, rfl⟩

theorem Grows.trans {a b c : FileTree} (h : a.Grows b) (h' : b.Grows c) : a.Grows c :=
  ⟨fun path entry hentry => h'.entry path entry (h.entry path entry hentry),
    h'.refuses.trans h.refuses⟩

theorem Grows.keepsDirectories (h : tree.Grows tree') : tree.KeepsDirectories tree' :=
  fun path => h.entry path .directory

theorem KeepsDirectories.trans {a b c : FileTree} (h : a.KeepsDirectories b)
    (h' : b.KeepsDirectories c) : a.KeepsDirectories c :=
  fun path hpath => h' path (h path hpath)

/-- One more directory takes nobody's place, for files come first and other directories stay. -/
theorem grows_dirs (tree : FileTree) (place : FilePath) :
    tree.Grows { tree with dirs := tree.dirs ++ [place] } := by
  refine ⟨fun path entry h => ?_, rfl⟩
  unfold entry? at h ⊢
  split
  · rename_i hroot
    rw [if_pos hroot] at h
    exact h
  · rename_i hroot
    rw [if_neg hroot] at h
    cases hlookup : tree.files.lookup path with
    | some content =>
      rw [hlookup] at h
      exact h
    | none =>
      rw [hlookup] at h
      simp only at h ⊢
      split at h
      · rename_i hdirs
        rw [if_pos (by rw [List.contains_append, hdirs, Bool.true_or])]
        exact h
      · cases h

theorem grows_makeDirectory {path : FilePath} (h : tree.makeDirectory path = .ok tree') :
    tree.Grows tree' := by
  obtain ⟨place, -, rfl⟩ := makeDirectory_eq_ok h
  exact grows_dirs tree place

theorem grows_makeDirectories {path : FilePath} (h : tree.makeDirectories path = .ok tree') :
    tree.Grows tree' :=
  makeReversed_induction Grows.refl Grows.trans grows_makeDirectory (makeDirectories_eq_ok h)

/-! ## Writing at a place -/

/-- Another content for every file at the place. -/
theorem lookup_map_replace (place : FilePath) (content : Bytes) (path : FilePath)
    (files : List (FilePath × Bytes)) :
    (files.map fun f => if f.1 == place then (place, content) else f).lookup path
      = if path = place then (files.lookup place).map fun _ => content
        else files.lookup path := by
  induction files with
  | nil => simp
  | cons f files ih =>
    rw [List.map_cons, List.lookup_cons, ih, List.lookup_cons, List.lookup_cons]
    by_cases hpath : path = place
    · by_cases hf : place = f.1
      · simp [hpath, ← hf]
      · have hother : (place == f.1) = false := beq_eq_false_iff_ne.mpr hf
        simp [hpath, Ne.symm hf, hother]
    · by_cases hf : f.1 = place
      · have hother : (path == place) = false := beq_eq_false_iff_ne.mpr hpath
        simp [hpath, hf, hother]
      · simp [hpath, hf]

theorem lookup_eq_none_iff_any (files : List (FilePath × Bytes)) (place : FilePath) :
    files.lookup place = none ↔ files.any (·.1 == place) = false := by
  rw [List.lookup_eq_none_iff, List.any_eq_false]
  refine forall₂_congr fun f _ => ?_
  rw [bne_iff_ne, beq_iff_eq]
  exact not_congr eq_comm

theorem lookup_put (tree : FileTree) (place : FilePath) (content : Bytes) (path : FilePath) :
    (tree.put place content).files.lookup path
      = if path = place then some content else tree.files.lookup path := by
  unfold put
  simp only
  split
  · rename_i hthere
    rw [lookup_map_replace]
    cases hlookup : tree.files.lookup place with
    | some old => rfl
    | none =>
      rw [(lookup_eq_none_iff_any _ _).mp hlookup] at hthere
      cases hthere
  · rename_i hthere
    have hnone := (lookup_eq_none_iff_any tree.files place).mpr (Bool.eq_false_iff.mpr hthere)
    rw [List.lookup_append]
    by_cases hplace : path = place
    · rw [if_pos hplace, hplace, hnone]
      simp
    · rw [if_neg hplace, List.lookup_cons, beq_eq_false_iff_ne.mpr hplace]
      simp

/-- One place holds the content then, unless it is the root; the others are as they were. -/
theorem entry?_put (tree : FileTree) (place : FilePath) (content : Bytes) (path : FilePath) :
    FileTree.entry? (tree.put place content) path
      = if path = place ∧ place.steps ≠ [] then some (.file content) else tree.entry? path := by
  have hdirs : (tree.put place content).dirs = tree.dirs := rfl
  unfold entry?
  rw [lookup_put, hdirs]
  by_cases hplace : path = place
  · subst hplace
    by_cases hroot : path.steps = []
    · simp [hroot]
    · simp [hroot]
  · simp [hplace]

theorem entry?_put_self {place : FilePath} (hplace : tree.entry? place ≠ some .directory)
    (content : Bytes) : FileTree.entry? (tree.put place content) place = some (.file content) := by
  have hroot : place.steps ≠ [] := by
    intro hroot
    refine hplace ?_
    rw [ entry?, hroot]
    rfl
  rw [entry?_put, if_pos ⟨rfl, hroot⟩]

theorem entry?_put_of_ne {place path : FilePath} (h : path ≠ place) (content : Bytes) :
    FileTree.entry? (tree.put place content) path = tree.entry? path := by
  rw [entry?_put, if_neg fun h' => h h'.1]

/-- Whatever happens to one place that is no directory, the directories stay. -/
theorem keepsDirectories_of_elsewhere {place : FilePath}
    (hplace : tree.entry? place ≠ some .directory)
    (hother : ∀ path, path ≠ place → tree'.entry? path = tree.entry? path) :
    tree.KeepsDirectories tree' := by
  intro path hpath
  have hne : path ≠ place := by
    rintro rfl
    exact hplace hpath
  exact (hother path hne).trans hpath

theorem keepsDirectories_put {place : FilePath} (hplace : tree.entry? place ≠ some .directory)
    (content : Bytes) : tree.KeepsDirectories (tree.put place content) :=
  keepsDirectories_of_elsewhere hplace fun _ hne => entry?_put_of_ne hne content

theorem writable_eq_ok {path place : FilePath} (h : tree.writable path = .ok place) :
    path.check = .ok () ∧ tree.locate path = .ok place ∧ tree.entry? place ≠ some .directory := by
  rw [writable] at h
  cases hcheck : path.check with
  | error e =>
    rw [hcheck] at h
    cases h
  | ok =>
    rw [hcheck] at h
    simp only [bind, Except.bind] at h
    cases hlocate : tree.locate path with
    | error problem =>
      rw [hlocate] at h
      cases h
    | ok found =>
      rw [hlocate] at h
      simp only at h
      split at h
      · cases h
      · rename_i hentry
        split at h
        · cases h
        · cases h
          exact ⟨rfl, rfl, hentry⟩

theorem writeFile_eq_ok {path : FilePath} {content : Bytes}
    (h : tree.writeFile path content = .ok tree') :
    ∃ place, tree.writable path = .ok place ∧ tree' = tree.put place content := by
  rw [writeFile] at h
  cases hwritable : tree.writable path with
  | error e =>
    rw [hwritable] at h
    cases h
  | ok place =>
    rw [hwritable] at h
    cases h
    exact ⟨place, rfl, rfl⟩

/-! ## Where paths lead -/

theorem follow_of_keepsDirectories (h : tree.KeepsDirectories tree') {root : Text}
    {done steps place : List Text} (hfollow : tree.follow root done steps = .ok place) :
    tree'.follow root done steps = .ok place := by
  induction steps generalizing done with
  | nil => exact hfollow
  | cons step rest ih =>
    rw [follow] at hfollow ⊢
    split at hfollow
    · cases hfollow
    · cases hfollow
    · rename_i hentry
      rw [h _ hentry]
      simp only
      split at hfollow
      · cases hfollow
      · rename_i hsize
        rw [if_neg hsize]
        split at hfollow
        · rename_i hdots
          rw [if_pos hdots]
          exact ih hfollow
        · rename_i hdots
          rw [if_neg hdots]
          exact ih hfollow

/-- A path goes on leading where it leads while the directories stay. -/
theorem locate_of_keepsDirectories (h : tree.KeepsDirectories tree') {path place : FilePath}
    (hlocate : tree.locate path = .ok place) : tree'.locate path = .ok place := by
  rw [locate] at hlocate ⊢
  split at hlocate
  · cases hlocate
  · rename_i hsize
    rw [if_neg hsize]
    cases hfollow : tree.follow path.root [] path.steps with
    | error problem =>
      rw [hfollow] at hlocate
      cases hlocate
    | ok steps =>
      rw [follow_of_keepsDirectories h hfollow]
      rw [hfollow] at hlocate
      exact hlocate

theorem follow_eq {root : Text} {done steps place : List Text}
    (h : tree.follow root done steps = .ok place) :
    place = steps.foldl
      (fun done step => if step = Text.lit ".." then done.dropLast else done ++ [step]) done := by
  induction steps generalizing done with
  | nil => exact (Except.ok.inj h).symm
  | cons step rest ih =>
    rw [follow] at h
    split at h
    · cases h
    · cases h
    · split at h
      · cases h
      · rw [List.foldl_cons]
        split at h
        · rename_i hdots
          rw [if_pos hdots]
          exact ih h
        · rename_i hdots
          rw [if_neg hdots]
          exact ih h

theorem locate_eq_resolve {path place : FilePath} (h : tree.locate path = .ok place) :
    place = path.resolve := by
  rw [locate] at h
  split at h
  · cases h
  · cases hfollow : tree.follow path.root [] path.steps with
    | error problem =>
      rw [hfollow] at h
      cases h
    | ok steps =>
      rw [hfollow] at h
      have hsteps := follow_eq hfollow
      rw [← Except.ok.inj h, hsteps]
      rfl

/-! ## Reading -/

theorem readFile_eq_ok_iff {path : FilePath} {content : Bytes} :
    tree.readFile path = .ok content
      ↔ ∃ place, tree.locate path = .ok place ∧ tree.entry? place = some (.file content) := by
  rw [readFile]
  constructor
  · intro h
    split at h
    · cases h
    · rename_i place hlocate
      refine ⟨place, hlocate, ?_⟩
      split at h
      · cases h
      · rename_i hentry
        cases h
        exact hentry
      · cases h
  · rintro ⟨place, hlocate, hentry⟩
    rw [hlocate]
    simp only [hentry]

/-- Only the directories on the way and the place itself matter to what is read. -/
theorem readFile_of_keepsDirectories (h : tree.KeepsDirectories tree') {path : FilePath}
    {content : Bytes} (hentry : tree.entry? path.resolve = some (.file content) →
      tree'.entry? path.resolve = some (.file content))
    (hread : tree.readFile path = .ok content) : tree'.readFile path = .ok content := by
  obtain ⟨place, hlocate, hplace⟩ := readFile_eq_ok_iff.mp hread
  have hresolve := locate_eq_resolve hlocate
  refine readFile_eq_ok_iff.mpr ⟨place, locate_of_keepsDirectories h hlocate, ?_⟩
  rw [hresolve] at hplace ⊢
  exact hentry hplace

theorem readFile_of_grows (h : tree.Grows tree') {path : FilePath} {content : Bytes}
    (hread : tree.readFile path = .ok content) : tree'.readFile path = .ok content :=
  readFile_of_keepsDirectories h.keepsDirectories (h.entry _ _) hread

/-- Whatever stands at a path goes on standing there. -/
theorem look_of_grows (h : tree.Grows tree') {path : FilePath} {entry : Entry}
    (hlook : tree.look path = .ok (some entry)) : tree'.look path = .ok (some entry) := by
  rw [look] at hlook ⊢
  rw [h.refuses]
  cases hrefuses : tree.refuses .look path with
  | some problem =>
    rw [hrefuses] at hlook
    simp only at hlook
    split at hlook <;> cases hlook
  | none =>
    rw [hrefuses] at hlook
    cases hlocate : tree.locate path with
    | error problem =>
      rw [hlocate] at hlook
      simp only [Except.map] at hlook
      split at hlook <;> cases hlook
    | ok place =>
      rw [hlocate] at hlook
      rw [locate_of_keepsDirectories h.keepsDirectories hlocate]
      have hentry : tree.entry? place = some entry := Except.ok.inj hlook
      simp only [Except.map]
      rw [h.entry place entry hentry]

/-- What has been written is what is read. -/
theorem readFile_put_self {path place : FilePath} (hlocate : tree.locate path = .ok place)
    (hplace : tree.entry? place ≠ some .directory) (content : Bytes) :
    (tree.put place content).readFile path = .ok content :=
  readFile_eq_ok_iff.mpr ⟨place,
    locate_of_keepsDirectories (keepsDirectories_put hplace content) hlocate,
    entry?_put_self hplace content⟩

theorem readFile_writeFile {path : FilePath} {content : Bytes}
    (h : tree.writeFile path content = .ok tree') : tree'.readFile path = .ok content := by
  obtain ⟨place, hwritable, rfl⟩ := writeFile_eq_ok h
  obtain ⟨-, hlocate, hplace⟩ := writable_eq_ok hwritable
  exact readFile_put_self hlocate hplace content

theorem keepsDirectories_writeFile {path : FilePath} {content : Bytes}
    (h : tree.writeFile path content = .ok tree') : tree.KeepsDirectories tree' := by
  obtain ⟨place, hwritable, rfl⟩ := writeFile_eq_ok h
  exact keepsDirectories_put (writable_eq_ok hwritable).2.2 content

theorem entry?_writeFile_of_ne {path : FilePath} {content : Bytes}
    (h : tree.writeFile path content = .ok tree') {place : FilePath} (hne : place ≠ path.resolve) :
    tree'.entry? place = tree.entry? place := by
  obtain ⟨found, hwritable, rfl⟩ := writeFile_eq_ok h
  obtain ⟨-, hlocate, -⟩ := writable_eq_ok hwritable
  exact entry?_put_of_ne (locate_eq_resolve hlocate ▸ hne) content

end Folio.FileTree
