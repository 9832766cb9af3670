import Folio.Proofs.Image.Naming
import Folio.Proofs.Image.Storing
import Folio.Proofs.Scalar.Rational

/-!
# Picture files stay intact

A placer that writes files goes through its numbers once. A call that gets as far as a name uses up
the number in it, whether or not the file can be written (`placed_call`), so every name is given only
once. A file that has been written is at another place than every later one, and writing there leaves
it as it is (`Placed.readFile`).

A course is any sequence of calls, the failing ones included. A failing call may meet any tree of
files, and whatever trouble it has, a write that fails may leave anything in the file that it was
to write and nothing anywhere else. Others may work on the tree between the calls. As long as nobody
but the placer touches the files of pictures that it has returned, each of them holds what it held
when it was written (`Course.intact`): no write that fails comes near one, for its name is another.
-/

namespace Folio.Placer

open Text (HasNoSlash)

variable {α : Type}

/-! ## One call -/

/-- A picture that is to be drawn. -/
structure Drawing (α : Type) where
  raster : Raster
  page : Affine α
  user : Affine α

/-- A call for a picture, and what is left of the placer. -/
def call [Scalar α] (options : Options α) (d : Drawing α) (p : Placer) :
    Except Fault (Option (Picture α)) × Placer :=
  (place options d.raster d.page d.user).run p

/-- What a call can come to with files. The directory is made first, then a name is given, and then
the file is written. -/
inductive Placed (options : Options α) (raster : Raster) (p : Placer) :
    Except Fault (Option (Picture α)) → Placer → Prop
  /-- Nothing was named. -/
  | unnamed {answer q} (hbox : ∀ picture, answer ≠ .ok (some picture))
      (hindex : q.index = p.index) (hfiles : q.files = p.files) : Placed options raster p answer q
  /-- A name was given in vain. -/
  | refused {dir image made e q} (hdir : options.imageDir = some dir)
      (himage : (ImageEncoding.encode raster).1 = .ok image)
      (hmade : p.files.makeDirectories dir = .ok made)
      (hindex : q.index = p.index + 1) (hfiles : q.files = made) :
      Placed options raster p (.error e) q
  | stored {dir image made written extent q} (hdir : options.imageDir = some dir)
      (himage : (ImageEncoding.encode raster).1 = .ok image)
      (hmade : p.files.makeDirectories dir = .ok made)
      (hwritten : made.writeFile (dir.join (fileName options p.index image)) image.data
        = .ok written)
      (hindex : q.index = p.index + 1) (hfiles : q.files = written) :
      Placed options raster p
        (.ok (some ⟨address options (fileName options p.index image), extent⟩)) q

/-- What storing comes to, for a placer that has only got reports since. -/
theorem placed_store (options : Options α) {raster : Raster} {image : EncodedImage}
    (himage : (ImageEncoding.encode raster).1 = .ok image) (extent : Extent α) (p : Placer)
    (log : Log) :
    let stored : Act Placer (Option (Picture α)) :=
      store options image >>= fun source => pure (some ⟨source, extent⟩)
    Placed options raster p (stored.run { p with log := log }).1
      (stored.run { p with log := log }).2 := by
  intro stored
  cases hdir : options.imageDir with
  | none =>
    unfold stored store directory
    rw [hdir]
    exact .unnamed (fun _ h => by cases h) rfl rfl
  | some dir =>
    have hdirectory : directory options = .ok dir := by rw [directory, hdir]
    unfold stored
    rw [Act.run_bind, run_store options hdirectory]
    cases hmade : p.files.makeDirectories dir with
    | error e =>
      simp only
      exact .unnamed (fun _ h => by cases h) rfl rfl
    | ok made =>
      simp only
      cases hwritten : made.writeFile (dir.join (fileName options p.index image)) image.data with
      | error e => exact .refused hdir himage hmade rfl rfl
      | ok written =>
        exact .stored hdir himage hmade hwritten rfl rfl

theorem placed_call [Scalar α] {options : Options α} (hfiles : options.emission = .files) (d : Drawing α)
    (p : Placer) : Placed options d.raster p (call options d p).1 (call options d p).2 := by
  have hemit : emit options = store options := by
    funext image
    rw [emit, hfiles]
    rfl
  unfold call place
  rw [hemit]
  split
  · exact .unnamed (fun _ h => by cases h) rfl rfl
  · split
    · exact .unnamed (fun _ h => by cases h) rfl rfl
    · cases hwidth : (Scalar.ofWhole d.raster.width : Except Fault α) with
      | error e => exact .unnamed (fun _ h => by cases h) rfl rfl
      | ok width =>
        rw [Act.run_bind_ok (Act.run_ofExcept _ p)]
        cases hheight : (Scalar.ofWhole d.raster.height : Except Fault α) with
        | error e => exact .unnamed (fun _ h => by cases h) rfl rfl
        | ok height =>
          rw [Act.run_bind_ok (Act.run_ofExcept _ p)]
          cases hextent : extent d.page d.user width height with
          | error e => exact .unnamed (fun _ h => by cases h) rfl rfl
          | ok extent =>
            rw [Act.run_bind_ok (Act.run_ofExcept _ p)]
            rcases hencode : ImageEncoding.encode d.raster with ⟨_ | image, log⟩
            · exact .unnamed (fun _ h => by cases h) rfl rfl
            · have himage : (ImageEncoding.encode d.raster).1 = .ok image := by rw [hencode]
              exact placed_store options himage extent p (p.log ++ log)

namespace Placed

variable {options : Options α} {raster : Raster} {p q : Placer}
  {answer : Except Fault (Option (Picture α))}

theorem index_le (h : Placed options raster p answer q) : p.index ≤ q.index := by
  cases h with
  | unnamed _ hindex => exact hindex.ge
  | refused _ _ _ hindex => omega
  | stored _ _ _ _ hindex => omega

theorem keepsDirectories (h : Placed options raster p answer q) :
    p.files.KeepsDirectories q.files := by
  cases h with
  | unnamed _ _ hfiles =>
    rw [hfiles]
    exact (FileTree.Grows.refl _).keepsDirectories
  | refused _ _ hmade _ hfiles =>
    rw [hfiles]
    exact (FileTree.grows_makeDirectories hmade).keepsDirectories
  | stored _ _ hmade hwritten _ hfiles =>
    rw [hfiles]
    exact (FileTree.grows_makeDirectories hmade).keepsDirectories.trans
      (FileTree.keepsDirectories_writeFile hwritten)

/-- A file at another place than the one that is written stays. -/
theorem keepsEntry (h : Placed options raster p answer q) {place : FilePath}
    (hplace : ∀ box, answer = .ok (some box) → ∀ dir image, options.imageDir = some dir →
      (ImageEncoding.encode raster).1 = .ok image →
      place ≠ (dir.join (fileName options p.index image)).resolve)
    {content : Bytes} (hentry : p.files.entry? place = some (.file content)) :
    q.files.entry? place = some (.file content) := by
  cases h with
  | unnamed _ _ hfiles =>
    rw [hfiles]
    exact hentry
  | refused _ _ hmade _ hfiles =>
    rw [hfiles]
    exact (FileTree.grows_makeDirectories hmade).entry _ _ hentry
  | stored hdir himage hmade hwritten _ hfiles =>
    rw [hfiles, FileTree.entry?_writeFile_of_ne hwritten (hplace _ rfl _ _ hdir himage)]
    exact (FileTree.grows_makeDirectories hmade).entry _ _ hentry

/-- A file at another place than the one that is written holds what it held. -/
theorem readFile (h : Placed options raster p answer q) {path : FilePath}
    (hplace : ∀ box, answer = .ok (some box) → ∀ dir image, options.imageDir = some dir →
      (ImageEncoding.encode raster).1 = .ok image →
      path.resolve ≠ (dir.join (fileName options p.index image)).resolve)
    {content : Bytes} (hread : p.files.readFile path = .ok content) :
    q.files.readFile path = .ok content :=
  FileTree.readFile_of_keepsDirectories h.keepsDirectories (h.keepsEntry hplace) hread

end Placed

/-! ## The record of a course -/

/-- A call and what came of it: the numbers that the placer had before and after, and the answer. -/
structure Filed (α : Type) where
  drawing : Drawing α
  number : Nat
  next : Nat
  answer : Except Fault (Option (Picture α))

namespace Filed

/-- The call as a placer takes it. -/
def of [Scalar α] (options : Options α) (d : Drawing α) (p : Placer) : Filed α :=
  ⟨d, p.index, (call options d p).2.index, (call options d p).1⟩

/-- The name that was given in the call. Giving a name uses a number up. -/
def name? (options : Options α) (f : Filed α) : Option Text :=
  if f.next = f.number then none
  else (ImageEncoding.encode f.drawing.raster).1.toOption.map (fileName options f.number)

/-- Where the file of that name belongs. -/
def path? (options : Options α) (f : Filed α) : Option FilePath :=
  options.imageDir.bind fun dir => (f.name? options).map dir.join

/-- The call returned a box. -/
def IsBox (f : Filed α) : Prop := ∃ box, f.answer = .ok (some box)

instance (f : Filed α) : Decidable f.IsBox :=
  match h : f.answer with
  | .ok (some box) => isTrue ⟨box, h⟩
  | .ok none => isFalse fun hbox => by
      obtain ⟨box, hbox⟩ := hbox
      rw [h] at hbox
      cases hbox
  | .error e => isFalse fun hbox => by
      obtain ⟨box, hbox⟩ := hbox
      rw [h] at hbox
      cases hbox

end Filed

/-- What the files of returned boxes hold in the one tree they hold in the other. -/
def Spares (options : Options α) (record : List (Filed α)) (files files' : FileTree) : Prop :=
  ∀ f ∈ record, f.IsBox → ∀ path ∈ f.path? options, ∀ content,
    files.readFile path = .ok content → files'.readFile path = .ok content

/-- What stands at other places than this one is left alone. -/
def SparesOthers (place : Option FilePath) (files files' : FileTree) : Prop :=
  ∀ path, (∀ named ∈ place, path.resolve ≠ named.resolve) → ∀ content,
    files.readFile path = .ok content → files'.readFile path = .ok content

/-- The calls that a placer has taken so far, the oldest first, and what has become of it. -/
inductive Course [Scalar α] (options : Options α) (first : Placer) : List (Filed α) → Placer → Prop
  | start : Course options first [] first
  | place {record p} (d : Drawing α) (h : Course options first record p) :
      Course options first (record ++ [.of options d p]) (call options d p).2
  /-- The call fails because of what it finds in the tree. It may leave something in the file that
  it has named, and leaves others alone. -/
  | fails {record p} (d : Drawing α) (found left : FileTree) {e : Fault}
      (hfails : (call options d { p with files := found }).1 = .error e)
      (hspares : SparesOthers ((Filed.of options d { p with files := found }).path? options)
        p.files left)
      (h : Course options first record p) :
      Course options first (record ++ [.of options d { p with files := found }])
        { (call options d { p with files := found }).2 with files := left }
  /-- Others work on the tree. -/
  | elsewhere {record p} (files : FileTree) (hspares : Spares options record p.files files)
      (h : Course options first record p) : Course options first record { p with files := files }

/-! ## Names are given once -/

variable {options : Options α} {first last : Placer} {record : List (Filed α)}

theorem Filed.number_le_next [Scalar α] (hfiles : options.emission = .files) (d : Drawing α) (p : Placer) :
    (Filed.of options d p).number ≤ (Filed.of options d p).next :=
  (placed_call hfiles d p).index_le

/-- A name is given only when its number is used up. -/
theorem Filed.exists_of_name? {f : Filed α} {name : Text} (h : f.name? options = some name) :
    f.next ≠ f.number ∧ ∃ image, (ImageEncoding.encode f.drawing.raster).1 = .ok image
      ∧ name = fileName options f.number image := by
  unfold name? at h
  split at h
  · cases h
  · rename_i hnumber
    obtain ⟨image, himage, rfl⟩ := Option.map_eq_some_iff.mp h
    refine ⟨hnumber, image, ?_, rfl⟩
    cases hencode : (ImageEncoding.encode f.drawing.raster).1 with
    | error e =>
      rw [hencode] at himage
      cases himage
    | ok found =>
      rw [hencode] at himage
      exact congrArg Except.ok (Option.some.inj himage)

/-- The numbers of a course go up: no call has a number that an earlier one has used up. -/
structure Ordered (record : List (Filed α)) (index : Nat) : Prop where
  ascends : record.Pairwise fun f g => f.next ≤ g.number
  number_le : ∀ f ∈ record, f.number ≤ f.next
  next_le : ∀ f ∈ record, f.next ≤ index

theorem Ordered.append {index : Nat} (h : Ordered record index) {f : Filed α}
    (hnumber : f.number = index) (hnext : f.number ≤ f.next) :
    Ordered (record ++ [f]) f.next := by
  refine ⟨List.pairwise_append.mpr ⟨h.ascends, List.pairwise_singleton _ _, ?_⟩, ?_, ?_⟩
  · intro g hg f' hf'
    rw [List.mem_singleton.mp hf', hnumber]
    exact h.next_le g hg
  · intro g hg
    rcases List.mem_append.mp hg with hg | hg
    · exact h.number_le g hg
    · rw [List.mem_singleton.mp hg]
      exact hnext
  · intro g hg
    rcases List.mem_append.mp hg with hg | hg
    · have hindex := h.next_le g hg
      omega
    · rw [List.mem_singleton.mp hg]

theorem Course.ordered [Scalar α] (hfiles : options.emission = .files)
    (h : Course options first record last) :
    Ordered record last.index := by
  induction h with
  | start => exact ⟨.nil, fun _ h => absurd h List.not_mem_nil, fun _ h => absurd h List.not_mem_nil⟩
  | place d _ ih => exact ih.append rfl (Filed.number_le_next hfiles d _)
  | fails d found left _ _ _ ih => exact ih.append rfl (Filed.number_le_next hfiles d _)
  | elsewhere _ _ _ ih => exact ih

theorem Ordered.names_nodup {index : Nat} (h : Ordered record index) :
    (record.filterMap (·.name? options)).Nodup := by
  refine List.pairwise_filterMap.mpr (h.ascends.imp_of_mem ?_)
  intro f g hf _ hascends name hname name' hname' heq
  obtain ⟨hused, image, -, rfl⟩ := Filed.exists_of_name? hname
  obtain ⟨-, image', -, rfl⟩ := Filed.exists_of_name? hname'
  have hnumber := ((fileName_eq_iff rfl).mp heq).1
  have hle := h.number_le f hf
  omega

/-! ## Files hold their pictures -/

/-- A box that points to the name that was given in the call, with the picture that belongs there. -/
structure IsNamed (options : Options α) (f : Filed α) (box : Picture α) (dir : FilePath)
    (image : EncodedImage) : Prop where
  directory : options.imageDir = some dir
  encoded : (ImageEncoding.encode f.drawing.raster).1 = .ok image
  named : f.name? options = some (fileName options f.number image)
  source : box.source = address options (fileName options f.number image)

/-- The file of that name holds the picture. -/
structure IsFiled (options : Options α) (f : Filed α) (box : Picture α) (dir : FilePath)
    (image : EncodedImage) (files : FileTree) : Prop extends
    IsNamed options f box dir image where
  held : files.readFile (dir.join (fileName options f.number image)) = .ok image.data

section

variable {f : Filed α} {box : Picture α} {dir : FilePath} {image : EncodedImage} {files : FileTree}

theorem IsNamed.isStep (h : IsNamed options f box dir image) (hcontext : HasNoSlash options.context)
    (hformat : ∀ format ∈ f.drawing.raster.format?, HasNoSlash format) :
    FilePath.IsStep (fileName options f.number image) :=
  isStep_fileName hcontext f.number (ImageEncoding.hasNoSlash_fileEnding hformat h.encoded)

theorem IsFiled.of_spares (h : IsFiled options f box dir image files)
    (hbox : f.answer = .ok (some box)) (hf : f ∈ record) {files' : FileTree}
    (hspares : Spares options record files files') : IsFiled options f box dir image files' := by
  refine ⟨h.toIsNamed, hspares f hf ⟨box, hbox⟩ _ ?_ _ h.held⟩
  rw [Filed.path?, h.directory, h.named]
  rfl

end

/-- A box that is returned has its file. -/
theorem isFiled_call [Scalar α] (hfiles : options.emission = .files) {d : Drawing α} {p : Placer}
    {box : Picture α} (hbox : (call options d p).1 = .ok (some box)) :
    ∃ dir image,
      IsFiled options (Filed.of options d p) box dir image (call options d p).2.files := by
  have hplaced := placed_call hfiles d p
  rw [hbox] at hplaced
  generalize hq : (call options d p).2 = q at hplaced
  cases hplaced with
  | unnamed hnone => exact absurd rfl (hnone box)
  | stored hdir himage hmade hwritten hindex hkept =>
    refine ⟨_, _, ⟨hdir, himage, ?_, rfl⟩, hkept ▸ FileTree.readFile_writeFile hwritten⟩
    have hused : (Filed.of options d p).next ≠ (Filed.of options d p).number := by
      show (call options d p).2.index ≠ p.index
      rw [hq]
      omega
    rw [Filed.name?, if_neg hused]
    show ((ImageEncoding.encode d.raster).1.toOption).map _ = _
    rw [himage]
    rfl

/-- A call that returns no box under the same name leaves the file as it is, whoever takes it. -/
theorem IsFiled.after_call [Scalar α] {options options' : Options α} {f : Filed α}
    {box : Picture α} {dir : FilePath} {image : EncodedImage} {p : Placer}
    (h : IsFiled options f box dir image p.files)
    (hstep : FilePath.IsStep (fileName options f.number image))
    (hfiles : options'.emission = .files) (hcontext : HasNoSlash options'.context)
    (hdir : options'.imageDir = options.imageDir) {d : Drawing α}
    (hformat : ∀ format ∈ d.raster.format?, HasNoSlash format)
    (hother : (Filed.of options' d p).IsBox →
      (Filed.of options' d p).name? options' ≠ some (fileName options f.number image)) :
    IsFiled options f box dir image (call options' d p).2.files := by
  refine ⟨h.toIsNamed, (placed_call hfiles d p).readFile ?_ h.held⟩
  intro box' hbox' dir' image' hdir' himage' hresolve
  obtain ⟨dir₁, image₁, hfiled⟩ := isFiled_call hfiles hbox'
  have hsame : image₁ = image' := Except.ok.inj (hfiled.encoded.symm.trans himage')
  have hplace : dir' = dir := Option.some.inj (hdir'.symm.trans (hdir.trans h.directory))
  subst hsame hplace
  have hstep' := isStep_fileName hcontext p.index
    (ImageEncoding.hasNoSlash_fileEnding hformat himage')
  refine hother ⟨box', hbox'⟩ ?_
  rw [hfiled.named, (FilePath.resolve_join_inj _ hstep hstep').mp hresolve]
  rfl

/-- A name of a later number is another one. -/
theorem IsNamed.ne_name? [Scalar α] {f : Filed α} {box : Picture α} {dir : FilePath}
    {image : EncodedImage} (h : IsNamed options f box dir image) {record : List (Filed α)}
    (hf : f ∈ record) {p : Placer} (hordered : Ordered record p.index) (d : Drawing α) :
    (Filed.of options d p).name? options ≠ some (fileName options f.number image) := by
  intro hname
  -- The number of this call has not been used up by any call before.
  obtain ⟨-, image', -, hname'⟩ := Filed.exists_of_name? hname
  have hsame : f.number = p.index := ((fileName_eq_iff rfl).mp hname').1
  have hused := (Filed.exists_of_name? h.named).1
  have hle := hordered.number_le f hf
  have hle' := hordered.next_le f hf
  omega

/-- A write of another name that fails does not come near the file. -/
theorem IsFiled.of_sparesOthers {f g : Filed α} {box : Picture α} {dir : FilePath}
    {image : EncodedImage} {files files' : FileTree} (h : IsFiled options f box dir image files)
    (hstep : FilePath.IsStep (fileName options f.number image))
    (hcontext : HasNoSlash options.context)
    (hformat : ∀ format ∈ g.drawing.raster.format?, HasNoSlash format)
    (hother : g.name? options ≠ some (fileName options f.number image))
    (hspares : SparesOthers (g.path? options) files files') :
    IsFiled options f box dir image files' := by
  refine ⟨h.toIsNamed, hspares _ (fun place hplace hresolve => ?_) _ h.held⟩
  rw [Filed.path?, h.directory] at hplace
  obtain ⟨name, hname, rfl⟩ := Option.map_eq_some_iff.mp hplace
  obtain ⟨-, image', himage', rfl⟩ := Filed.exists_of_name? hname
  -- In one directory, two names lead to one place only if they are the same.
  have hstep' := isStep_fileName hcontext g.number
    (ImageEncoding.hasNoSlash_fileEnding hformat himage')
  rw [(FilePath.resolve_join_inj _ hstep hstep').mp hresolve] at hother
  exact hother hname

theorem Course.isFiled [Scalar α] (hfiles : options.emission = .files)
    (hcontext : HasNoSlash options.context) (h : Course options first record last)
    (hformats : ∀ f ∈ record, ∀ format ∈ f.drawing.raster.format?, HasNoSlash format) :
    ∀ f ∈ record, ∀ box, f.answer = .ok (some box) →
      ∃ dir image, IsFiled options f box dir image last.files := by
  induction h with
  | start => exact fun _ h => absurd h List.not_mem_nil
  | @place record p d h ih =>
    intro f hf box hbox
    rcases List.mem_append.mp hf with hf | hf
    · obtain ⟨dir, image, hfiled⟩ :=
        ih (fun g hg => hformats g (List.mem_append_left _ hg)) f hf box hbox
      have hstep := hfiled.isStep hcontext (hformats f (List.mem_append_left _ hf))
      have hformat := hformats (.of options d p) (List.mem_append_right _ (List.mem_singleton_self _))
      exact ⟨dir, image, hfiled.after_call hstep hfiles hcontext rfl hformat fun _ =>
        hfiled.ne_name? hf (h.ordered hfiles) d⟩
    · rw [List.mem_singleton.mp hf] at hbox ⊢
      exact isFiled_call hfiles hbox
  | @fails record p d found left e hfails hspares h ih =>
    intro f hf box hbox
    rcases List.mem_append.mp hf with hf | hf
    · obtain ⟨dir, image, hfiled⟩ :=
        ih (fun g hg => hformats g (List.mem_append_left _ hg)) f hf box hbox
      have hstep := hfiled.isStep hcontext (hformats f (List.mem_append_left _ hf))
      have hformat := hformats (.of options d { p with files := found })
        (List.mem_append_right _ (List.mem_singleton_self _))
      have hordered : Ordered record p.index := h.ordered hfiles
      exact ⟨dir, image, hfiled.of_sparesOthers hstep hcontext hformat
        (hfiled.ne_name? hf (p := { p with files := found }) hordered d) hspares⟩
    · rw [List.mem_singleton.mp hf] at hbox
      exact absurd (hfails.symm.trans hbox) (by simp)
  | elsewhere files hspares h ih =>
    intro f hf box hbox
    obtain ⟨dir, image, hfiled⟩ := ih hformats f hf box hbox
    exact ⟨dir, image, hfiled.of_spares hbox hf hspares⟩

/-- Every name of a course is given once, also those of calls that fail. A box that was returned
points to its name behind the prefix, of which the slashes at the end are left out, and the file of
that name in the image directory holds the bytes of its picture to the end. -/
theorem Course.intact [Scalar α] (hfiles : options.emission = .files)
    (hcontext : HasNoSlash options.context) (h : Course options first record last)
    (hformats : ∀ f ∈ record, ∀ format ∈ f.drawing.raster.format?, HasNoSlash format) :
    (record.filterMap (·.name? options)).Nodup
      ∧ ∀ f ∈ record, ∀ box, f.answer = .ok (some box) →
        ∃ dir name image front count, options.imageDir = some dir ∧ f.name? options = some name
          ∧ options.imagePrefix = front ++ List.replicate count (CodePoint.ofChar '/')
          ∧ front.getLast? ≠ some (CodePoint.ofChar '/')
          ∧ box.source = front ++ CodePoint.ofChar '/' :: name
          ∧ (ImageEncoding.encode f.drawing.raster).1 = .ok image
          ∧ last.files.readFile (dir.join name) = .ok image.data := by
  refine ⟨(h.ordered hfiles).names_nodup, fun f hf box hbox => ?_⟩
  obtain ⟨dir, image, hfiled⟩ := h.isFiled hfiles hcontext hformats f hf box hbox
  obtain ⟨front, count, hprefix, hfront, haddress⟩ :=
    address_eq options (fileName options f.number image)
  exact ⟨dir, _, image, front, count, hfiled.directory, hfiled.named, hprefix, hfront,
    hfiled.source.trans haddress, hfiled.encoded, hfiled.held⟩

/-! A course with a call that fails between two others -/

/-- Pictures go into a directory of their own. -/
def shelf : Options ℚ :=
  { (Options.standard : Options ℚ) with
    emission := .files, imageDir := some ⟨[], [Text.lit "shelf"]⟩, contextId := some (Text.lit "doc") }

/-- A picture that is written as these bytes. -/
def stamp (data : Bytes) : Drawing ℚ where
  raster := {
    mode := Text.lit "RGB", width := 1, height := 1, format := some (Text.lit "PNG")
    bitsPerPixel := 24, name := none, encoder := ⟨fun _ _ => .ok (), fun _ _ _ => .ok data⟩ }
  page := .identity
  user := .identity

/-- A directory stands where the second picture belongs. -/
def blocked : FileTree :=
  { dirs := [⟨[], [Text.lit "shelf"]⟩, ⟨[], [Text.lit "shelf", Text.lit "doc-1.png"]⟩] }

/-- The second name is given in vain, and neither the first picture nor the third goes by it. -/
theorem intact_blocked : ∃ record last, Course shelf { files := blocked } record last
    ∧ record.map (·.name? shelf)
      = [some (Text.lit "doc-0.png"), some (Text.lit "doc-1.png"), some (Text.lit "doc-2.png")]
    ∧ record.map (fun f => decide f.IsBox) = [true, false, true]
    ∧ (record.filterMap (·.name? shelf)).Nodup
    ∧ last.files.readFile ⟨[], [Text.lit "shelf", Text.lit "doc-0.png"]⟩ = .ok [1] := by
  let p : Placer := (call shelf (stamp [1]) { files := blocked }).2
  let q : Placer := (call shelf (stamp [2]) p).2
  let f : Filed ℚ := .of shelf (stamp [1]) { files := blocked }
  let g : Filed ℚ := .of shelf (stamp [2]) p
  have hcourse : Course shelf { files := blocked } [f, g, .of shelf (stamp [3]) q]
      (call shelf (stamp [3]) q).2 :=
    .place (stamp [3]) (.place (stamp [2]) (.place (stamp [1]) .start))
  have hformats : ∀ f' ∈ [f, g, .of shelf (stamp [3]) q], ∀ format ∈ f'.drawing.raster.format?,
      HasNoSlash format := by decide +kernel
  have hcontext : HasNoSlash shelf.context := by decide +kernel
  obtain ⟨hnodup, hheld⟩ := hcourse.intact rfl hcontext hformats
  refine ⟨_, _, hcourse, by decide +kernel, by decide +kernel, hnodup, ?_⟩
  have hbox : f.IsBox := by decide +kernel
  obtain ⟨box, hbox⟩ := hbox
  obtain ⟨dir, name, image, -, -, hdir, hname, -, -, -, himage, hread⟩ :=
    hheld f List.mem_cons_self box hbox
  have hname' : f.name? shelf = some (Text.lit "doc-0.png") := by decide +kernel
  have himage' : (ImageEncoding.encode f.drawing.raster).1.toOption.map (·.data) = some [1] := by
    decide +kernel
  rw [himage] at himage'
  have hdata : image.data = [1] := Option.some.inj himage'
  cases hdir
  rw [hname] at hname'
  cases hname'
  rw [hdata] at hread
  have hplace : FilePath.join ⟨[], [Text.lit "shelf"]⟩ (Text.lit "doc-0.png")
      = ⟨[], [Text.lit "shelf", Text.lit "doc-0.png"]⟩ := by decide +kernel
  exact hplace ▸ hread

end Folio.Placer
