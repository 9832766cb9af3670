import Folio.Proofs.Files.Backing
import Folio.Proofs.Image.Filing
import Folio.Proofs.Layout.Lasting
import Folio.Proofs.Pdf.Pictures

/-!
# What a layout leaves in files

A layout writes to two kinds of files: that of its output, and those of pictures. The file of the
output holds the text laid out so far, and files elsewhere are left alone, as long as no picture may
be written there (`Layout.Backed`, `Press.file_of_run`). The file of a picture holds it from the
call that drew it on (`Layout.Holds`, `Press.holds_of_heard`), since later pictures have other
numbers and the output is in another place.
-/

namespace Folio

open Text (lit HasNoSlash)

variable {α : Type}

/-! ## Where pictures may be written -/

namespace Placer

/-- A picture may be written to the path, under some number and with some ending without slashes. -/
def MayWrite (options : Options α) (path : FilePath) : Prop :=
  options.emission = .files ∧ ∃ dir index image, options.imageDir = some dir
    ∧ HasNoSlash image.fileEnding ∧ path = (dir.join (fileName options index image)).resolve

variable [Scalar α] {options : Options α}

/-- Only pictures that go to files change the tree. -/
theorem keeps_files_place (h : options.emission ≠ .files) (tree : FileTree) (raster : Raster)
    (page user : Affine α) : (place options raster page user).Keeps fun p => p.files = tree := by
  refine place_of_parts options (Act.Keeps.composes _) (fun _ => .modify fun _ h => h)
    (fun image p hp => ?_) raster page user
  rw [emit]
  cases hemission : options.emission with
  | inline => exact hp
  | files => exact absurd hemission h
  | unknown word => exact hp

theorem keepsDirectories_call (d : Drawing α) (p : Placer) :
    p.files.KeepsDirectories (call options d p).2.files := by
  by_cases hfiles : options.emission = .files
  · exact (placed_call hfiles d p).keepsDirectories
  · have hsame : (call options d p).2.files = p.files :=
      keeps_files_place hfiles p.files d.raster d.page d.user p rfl
    rw [hsame]
    exact fun _ h => h

/-- A file stays where no picture may be written. -/
theorem entry?_call {path : FilePath} (hapart : ¬ MayWrite options path) {d : Drawing α}
    (hformat : ∀ format ∈ d.raster.format?, HasNoSlash format) {p : Placer} {content : Bytes}
    (hentry : p.files.entry? path = some (.file content)) :
    FileTree.entry? (call options d p).2.files path = some (.file content) := by
  by_cases hfiles : options.emission = .files
  · refine (placed_call hfiles d p).keepsEntry ?_ hentry
    intro _ _ dir image hdir himage hpath
    exact hapart
      ⟨hfiles, dir, p.index, image, hdir, ImageEncoding.hasNoSlash_fileEnding hformat himage, hpath⟩
  · have hsame : (call options d p).2.files = p.files :=
      keeps_files_place hfiles p.files d.raster d.page d.user p rfl
    rw [hsame]
    exact hentry

end Placer

/-! ## The file of the output -/

namespace Layout

/-- The output of a layout is in its file, and the files of the tree stay elsewhere, where no
picture may be written. -/
structure Backed (options : Options α) (place : FilePath) (tree : FileTree) (l : Layout α) :
    Prop where
  options_eq : l.options = options
  output : l.emitter.output.Backed place l.placer.files
  directories : tree.KeepsDirectories l.placer.files
  elsewhere : ∀ path content, path ≠ place → ¬ Placer.MayWrite options path →
    tree.entry? path = some (.file content) → l.placer.files.entry? path = some (.file content)

variable {options : Options α} {place : FilePath} {tree : FileTree}

/-- The emptied output. -/
theorem backed_start [Scalar α] (h : tree.entry? place ≠ some .directory) :
    (start options (.toFile place) (tree.put place [])).Backed options place tree where
  options_eq := rfl
  output := .toFile h
  directories := FileTree.keepsDirectories_put h []
  elsewhere _ _ hpath _ hentry := (FileTree.entry?_put_of_ne hpath []).trans hentry

/-- Whatever else is brought to the file of the output, the rest of the tree stays. -/
theorem Backed.bring {l : Layout α} (h : l.Backed options place tree)
    {act : Output → FileTree → Output × FileTree} {e : Emitter}
    (hbacked : (act e.output l.placer.files).1.Backed place (act e.output l.placer.files).2)
    (hother : ∀ path, path ≠ place →
      FileTree.entry? (act e.output l.placer.files).2 path = l.placer.files.entry? path) :
    (Layout.bring act e l).Backed options place tree := by
  have hkept := FileTree.keepsDirectories_of_elsewhere h.output.entry?_ne hother
  refine ⟨h.options_eq, hbacked, h.directories.trans hkept, fun path content hpath hapart hentry => ?_⟩
  exact (hother path hpath).trans (h.elsewhere path content hpath hapart hentry)

theorem Backed.attempted {l : Layout α} (h : l.Backed options place tree) (t : Text)
    (isOpen : Bool) : (l.attempted t isOpen).Backed options place tree := by
  obtain ⟨hsettled, hother⟩ := (h.output.tried t).settle
  exact h.bring (e := l.emitter.marked t isOpen) hsettled hother

theorem lasts_backed : Lasts (Backed (α := α) options place tree) where
  of_eq l l' h hoptions hemitter hplacer := by
    refine ⟨hoptions.trans h.options_eq, ?_, ?_, ?_⟩
    · rw [hemitter, hplacer]
      exact h.output
    · rw [hplacer]
      exact h.directories
    · rw [hplacer]
      exact h.elsewhere
  attempted _ t isOpen _ h := h.attempted t isOpen

variable [Scalar α]

/-- Placing a picture, as a call of the placer. -/
theorem run_place (raster : Raster) (page user : Affine α) (l : Layout α) :
    ((Layout.place raster page user).run l).2.placer
      = { (Placer.call l.options ⟨raster, page, user⟩ { l.placer with log := [] }).2 with
          log := [] } := rfl

theorem Backed.placed {l : Layout α} (h : l.Backed options place tree)
    (hapart : ¬ Placer.MayWrite options place) {raster : Raster}
    (hformat : ∀ format ∈ raster.format?, HasNoSlash format) (page user : Affine α) :
    ((Layout.place raster page user).run l).2.Backed options place tree := by
  have hoptions := h.options_eq
  subst hoptions
  let p : Placer := { l.placer with log := [] }
  have hfile : ∀ path content, ¬ Placer.MayWrite l.options path →
      p.files.entry? path = some (.file content) →
      FileTree.entry? (Placer.call l.options ⟨raster, page, user⟩ p).2.files path
        = some (.file content) :=
    fun path content hpath => Placer.entry?_call hpath (d := ⟨raster, page, user⟩) hformat
  refine ⟨rfl, h.output.of_entry? fun content => hfile place content hapart, ?_, ?_⟩
  · exact h.directories.trans (Placer.keepsDirectories_call ⟨raster, page, user⟩ p)
  · exact fun path content hpath hother hentry =>
      hfile path content hother (h.elsewhere path content hpath hother hentry)

theorem backed_addPicture (hapart : ¬ Placer.MayWrite options place) {raster : Raster}
    (hformat : ∀ format ∈ raster.format?, HasNoSlash format) (user : Affine α) :
    (addPicture raster user).Keeps (Backed options place tree) :=
  fun _ hl => lasts_backed.addPicture (fun _ => hl)
    (fun page _ => hl.placed hapart hformat page.transform user) (fun _ _ h => h.attempted _ _)

/-- A picture that an operator names is listed in its resources. -/
theorem mem_objects_of_picture? {op : Operator α} {found : Text × PictureResource}
    (h : picture? op = .ok (some found)) :
    ∃ r ∈ op.resources, ∃ key, (key, ExternalObject.picture found.2) ∈ r.objects := by
  unfold picture? at h
  split at h
  next operand _ resources _ hresources =>
    simp only [bind, Except.bind] at h
    split at h
    · cases h
    · split at h
      next hnamed =>
        cases h
        refine ⟨resources, hresources, ?_⟩
        unfold named? at hnamed
        split at hnamed
        next hfound =>
          cases hnamed
          exact ⟨_, Catalog.mem_of_lookup hfound⟩
        · exact ⟨_, Catalog.mem_of_lookup hnamed⟩
      · cases h
  · cases h

/-- What an event draws is a JPEG or a PNG. -/
theorem isStreamed_of_raster? {e : Event α} (he : e.IsStreamed) {raster : Raster}
    {user : Affine α} (hraster : (Request.ofEvent e).raster? = some (raster, user)) :
    raster.IsStreamed := by
  cases e with
  | operator op =>
    show raster.IsStreamed
    rw [Request.ofEvent, Request.raster?] at hraster
    split at hraster
    · split at hraster
      next found hfound =>
        obtain ⟨r, hr, key, hmem⟩ := mem_objects_of_picture? hfound
        split at hraster
        next hdecoded =>
          cases hraster
          exact he r hr _ hmem _ hdecoded
        · cases hraster
      · cases hraster
    · cases hraster
  | _ => cases hraster

/-- So its format has no slashes. -/
theorem hasNoSlash_of_raster? {e : Event α} (he : e.IsStreamed) {raster : Raster} {user : Affine α}
    (hraster : (Request.ofEvent e).raster? = some (raster, user)) :
    ∀ format ∈ raster.format?, HasNoSlash format := by
  have hjpeg : ∀ format ∈ (some (lit "jpeg") : Option Text), HasNoSlash format := by decide
  have hpng : ∀ format ∈ (some (lit "png") : Option Text), HasNoSlash format := by decide
  rcases isStreamed_of_raster? he hraster with hformat | hformat <;> rw [Raster.format?, hformat]
  · exact hjpeg
  · exact hpng

end Layout

namespace Press

variable [Scalar α] {options : Options α} {place : FilePath} {tree : FileTree}

/-- Page numbers are looked at before anything is laid out. -/
theorem run_of_pageNumbers {document : Pdf.Document α} {selection : Option (List Int)}
    {fault : Fault} (h : document.pageNumbers selection = .error fault) (output : Output) :
    run document selection options output tree
      = (.error fault, { layout := .start options output tree }) := by
  rw [run, Pdf.Document.run, Act.run_onPart, Pdf.Document.Session.run, h]
  rfl

/-- However far a document has been heard, the output is in its file. -/
theorem backed_of_heard {first p : Press α} {record : Record α (Press α)}
    (hapart : ¬ Placer.MayWrite options place) (hheard : listener.Heard first record p)
    (hcoherent : first.layout.Coherent) (hfirst : first.layout.Backed options place tree)
    (hstreamed : ∀ entry ∈ record, entry.2.IsStreamed) : p.layout.Backed options place tree :=
  lasts_of_heard Layout.lasts_backed hheard hcoherent
    (fun entry hentry _ user hraster => Layout.backed_addPicture hapart
      (Layout.hasNoSlash_of_raster? (hstreamed entry hentry) hraster) user) hfirst

/-- However a run ends, the file of its output holds the text laid out by then, and files elsewhere
stay, where no picture may be written. -/
theorem file_of_run (hapart : ¬ Placer.MayWrite options place) {path : FilePath}
    (hwritable : tree.writable path = .ok place) (document : Pdf.Document α)
    (selection : Option (List Int)) :
    let p := (run document selection options (.toFile place) (tree.put place [])).2
    p.layout.closed.Backed options place tree
      ∧ ∃ bytes, p.text.utf8? = some bytes
        ∧ p.layout.closed.placer.files.readFile path = .ok bytes := by
  intro p
  obtain ⟨-, hlocate, hplace⟩ := FileTree.writable_eq_ok hwritable
  obtain ⟨answer, last, record, hrun, hrecording, hheard⟩ :=
    document.run_recording listener selection
      { layout := Layout.start options (.toFile place) (tree.put place []) }
  have hstreamed := document.streamed_record listener selection
    { layout := Layout.start options (.toFile place) (tree.put place []) }
  rw [hrecording] at hstreamed
  have hlast : p = last := by
    show (run document selection options (.toFile place) (tree.put place [])).2 = last
    rw [run, hrun]
  have hbacked : p.layout.Backed options place tree :=
    hlast ▸ backed_of_heard hapart hheard (Layout.coherent_start _ _ _) (Layout.backed_start hplace)
      hstreamed
  obtain ⟨hclose, hother, bytes, hbytes, hentry⟩ := hbacked.output.close
  have hclosed : p.layout.closed.Backed options place tree :=
    hbacked.bring (e := p.layout.emitter) hclose hother
  have hfound := FileTree.locate_of_keepsDirectories hclosed.directories hlocate
  exact ⟨hclosed, bytes, hbytes, FileTree.readFile_eq_ok_iff.mpr ⟨place, hfound, hentry⟩⟩

end Press

/-! ## The files of pictures -/

namespace Layout

/-- A picture has used up its number, and its file holds it. -/
structure Holds (options : Options α) (place : FilePath) (tree : FileTree) (f : Placer.Filed α)
    (picture : Picture α) (dir : FilePath) (image : EncodedImage) (l : Layout α) : Prop extends
    Backed options place tree l where
  format : ∀ format ∈ f.drawing.raster.format?, HasNoSlash format
  used : f.number < l.placer.index
  filed : Placer.IsFiled options f picture dir image l.placer.files

variable {options : Options α} {place : FilePath} {tree : FileTree} {f : Placer.Filed α}
  {picture : Picture α} {dir : FilePath} {image : EncodedImage}

/-- What happens to the file of the output alone does not matter to the file of a picture. -/
theorem Holds.held_elsewhere {l : Layout α} (h : l.Holds options place tree f picture dir image)
    (hfiles : options.emission = .files) (hapart : ¬ Placer.MayWrite options place) {files : FileTree}
    (hother : ∀ path, path ≠ place → files.entry? path = l.placer.files.entry? path) :
    files.readFile (dir.join (Placer.fileName options f.number image)) = .ok image.data := by
  refine FileTree.readFile_of_keepsDirectories
    (FileTree.keepsDirectories_of_elsewhere h.output.entry?_ne hother) (fun hentry => ?_) h.filed.held
  refine (hother _ fun hplace => hapart ?_).trans hentry
  exact ⟨hfiles, dir, f.number, image, h.filed.directory,
    ImageEncoding.hasNoSlash_fileEnding h.format h.filed.encoded, hplace.symm⟩

theorem Holds.held_closed {l : Layout α} (h : l.Holds options place tree f picture dir image)
    (hfiles : options.emission = .files) (hapart : ¬ Placer.MayWrite options place) :
    l.closed.placer.files.readFile (dir.join (Placer.fileName options f.number image))
      = .ok image.data :=
  h.held_elsewhere hfiles hapart h.output.close.2.1

theorem Holds.attempted {l : Layout α} (h : l.Holds options place tree f picture dir image)
    (hfiles : options.emission = .files) (hapart : ¬ Placer.MayWrite options place) (t : Text)
    (isOpen : Bool) : (l.attempted t isOpen).Holds options place tree f picture dir image :=
  ⟨h.toBacked.attempted t isOpen, h.format, h.used, h.filed.toIsNamed,
    h.held_elsewhere hfiles hapart (h.output.tried t).settle.2⟩

theorem lasts_holds (hfiles : options.emission = .files) (hapart : ¬ Placer.MayWrite options place) :
    Lasts (Holds options place tree f picture dir image) where
  of_eq l l' h hoptions hemitter hplacer := by
    refine ⟨lasts_backed.of_eq l l' h.toBacked hoptions hemitter hplacer, h.format, ?_, ?_⟩
    · rw [hplacer]
      exact h.used
    · rw [hplacer]
      exact h.filed
  attempted _ t isOpen _ h := h.attempted hfiles hapart t isOpen

variable [Scalar α]

/-- A later picture has another number. -/
theorem Holds.placed {l : Layout α} (h : l.Holds options place tree f picture dir image)
    (hfiles : options.emission = .files) (hcontext : HasNoSlash options.context)
    (hapart : ¬ Placer.MayWrite options place) {raster : Raster}
    (hformat : ∀ format ∈ raster.format?, HasNoSlash format) (page user : Affine α) :
    ((Layout.place raster page user).run l).2.Holds options place tree f picture dir image := by
  have hplacer := run_place raster page user l
  rw [h.options_eq] at hplacer
  refine ⟨h.toBacked.placed hapart hformat page user, h.format, ?_, ?_⟩
  · have hle := (Placer.placed_call hfiles ⟨raster, page, user⟩ { l.placer with log := [] }).index_le
    rw [hplacer]
    exact Nat.lt_of_lt_of_le h.used hle
  · rw [hplacer]
    refine Placer.IsFiled.after_call (d := ⟨raster, page, user⟩) (p := { l.placer with log := [] })
      h.filed (h.filed.isStep hcontext h.format) hfiles hcontext rfl hformat fun _ hname => ?_
    obtain ⟨-, image', -, hname'⟩ := Placer.Filed.exists_of_name? hname
    have hsame : f.number = l.placer.index := ((Placer.fileName_eq_iff rfl).mp hname').1
    have hused := h.used
    omega

end Layout

namespace Press

variable [Scalar α]

/-- The call that the placer takes for an event, and the picture that comes of it. -/
structure Drawn (options : Options α) (q : Press α) (e : Event α) (f : Placer.Filed α)
    (picture : Picture α) : Prop where
  answer : f.answer = .ok (some picture)
  call : ∃ page raster user, q.layout.page = some page
    ∧ (Layout.Request.ofEvent e).raster? = some (raster, user)
    ∧ f = .of options ⟨raster, page.transform, user⟩ { q.layout.placer with log := [] }

theorem drawn_of_pictured {q : Press α} {e : Event α} {picture : Picture α}
    (h : q.layout.pictured (.ofEvent e) = some picture) :
    ∃ f, Drawn q.layout.options q e f picture := by
  rw [Layout.pictured] at h
  split at h
  next page raster user hpage hraster =>
    refine ⟨_, ?_, page, raster, user, hpage, hraster, rfl⟩
    show ((Layout.place raster page.transform user).run q.layout).1 = .ok (some picture)
    split at h
    next hplaced =>
      rw [hplaced, h]
    next => cases h
  next => cases h

variable {options : Options α} {place : FilePath} {tree : FileTree} {first p q : Press α}
  {record : Record α (Press α)} {e : Event α} {f : Placer.Filed α} {picture : Picture α}

theorem Drawn.format (h : Drawn options q e f picture) (he : e.IsStreamed) :
    ∀ format ∈ f.drawing.raster.format?, HasNoSlash format := by
  obtain ⟨page, raster, user, -, hraster, rfl⟩ := h.call
  exact Layout.hasNoSlash_of_raster? he hraster

/-- The picture of an event has been written to the file that it refers to by name. -/
theorem Drawn.stored (h : Drawn options q e f picture) (hfiles : options.emission = .files) :
    ∃ dir image there written, options.imageDir = some dir
      ∧ (ImageEncoding.encode f.drawing.raster).1 = .ok image
      ∧ q.layout.placer.files.makeDirectories dir = .ok there
      ∧ there.writeFile (dir.join (Placer.fileName options f.number image)) image.data = .ok written
      ∧ picture.source = Placer.address options (Placer.fileName options f.number image) := by
  obtain ⟨page, raster, user, -, -, rfl⟩ := h.call
  have hplaced := Placer.placed_call hfiles ⟨raster, page.transform, user⟩
    { q.layout.placer with log := [] }
  have hanswer : (Placer.call options ⟨raster, page.transform, user⟩
    { q.layout.placer with log := [] }).1 = .ok (some picture) := h.answer
  rw [hanswer] at hplaced
  cases hplaced with
  | unnamed hnone => exact absurd rfl (hnone picture)
  | stored hdir himage hmade hwritten => exact ⟨_, _, _, _, hdir, himage, hmade, hwritten, rfl⟩

/-- After the event the file of its picture holds it. -/
theorem Drawn.holds (h : Drawn options q e f picture) (he : e.IsStreamed)
    (hfiles : options.emission = .files) (hapart : ¬ Placer.MayWrite options place)
    (hbacked : q.layout.Backed options place tree) :
    ∃ dir image, ((Layout.Request.ofEvent e).perform.run q.layout).2.Holds options place tree f
      picture dir image := by
  have hformat := h.format he
  obtain ⟨page, raster, user, hpage, hraster, rfl⟩ := h.call
  obtain ⟨dir, image, hfiled⟩ := Placer.isFiled_call hfiles h.answer
  refine ⟨dir, image, ?_⟩
  rw [Layout.perform_of_raster? hraster]
  refine (Layout.lasts_holds hfiles hapart).addPicture (fun hnone => ?_) (fun page' hpage' => ?_)
    (fun _ _ h => h.attempted hfiles hapart _ _)
  · rw [hpage] at hnone
    cases hnone
  · rw [hpage] at hpage'
    cases hpage'
    have hplacer := Layout.run_place raster page.transform user q.layout
    rw [hbacked.options_eq] at hplacer
    have hused := (Placer.Filed.exists_of_name? hfiled.named).1
    have hle := Placer.Filed.number_le_next hfiles ⟨raster, page.transform, user⟩
      { q.layout.placer with log := [] }
    refine ⟨hbacked.placed hapart hformat page.transform user, hformat, ?_, ?_⟩
    · rw [hplacer]
      exact Nat.lt_of_le_of_ne hle (Ne.symm hused)
    · rw [hplacer]
      exact hfiled

/-- An event is a request to the layout. -/
theorem layout_receive (e : Event α) (q : Press α) :
    ((listener.receive e).run q).2.layout
      = ((Layout.Request.ofEvent e).perform.run q.layout).2 := by
  rw [Layout.perform_ofEvent]
  rfl

/-- However far a document has been heard, the files of the pictures that were drawn hold them. -/
theorem holds_of_heard (hfiles : options.emission = .files) (hcontext : HasNoSlash options.context)
    (hapart : ¬ Placer.MayWrite options place) (hheard : listener.Heard first record p)
    (hcoherent : first.layout.Coherent) (hfirst : first.layout.Backed options place tree)
    (hstreamed : ∀ entry ∈ record, entry.2.IsStreamed) :
    ∀ entry ∈ record, ∀ f picture, Drawn options entry.1 entry.2 f picture →
      ∃ dir image, p.layout.Holds options place tree f picture dir image := by
  induction hheard with
  | start => exact fun _ h => absurd h List.not_mem_nil
  | @receive record s h e _ ih =>
    intro entry hentry f picture hdrawn
    have hbefore : ∀ g ∈ record, g.2.IsStreamed :=
      fun g hg => hstreamed g (List.mem_append_left _ hg)
    have he := hstreamed (s, e) (List.mem_append_right _ (List.mem_singleton_self _))
    rw [layout_receive]
    rcases List.mem_append.mp hentry with hold | hnew
    · obtain ⟨dir, image, hholds⟩ := ih hbefore entry hold f picture hdrawn
      have hlasts : Layout.Lasts (Layout.Holds options place tree f picture dir image) :=
        Layout.lasts_holds hfiles hapart
      refine ⟨dir, image, hlasts.perform (coherent_of_heard h hcoherent) hholds ?_⟩
      intro raster user hraster
      exact hlasts.addPicture (fun _ => hholds)
        (fun page _ => hholds.placed hfiles hcontext hapart (Layout.hasNoSlash_of_raster? he hraster)
          page.transform user)
        (fun _ _ h => h.attempted hfiles hapart _ _)
    · cases List.mem_singleton.mp hnew
      exact hdrawn.holds he hfiles hapart (backed_of_heard hapart h hcoherent hfirst hbefore)
  | report h r ih =>
    intro entry hentry f picture hdrawn
    obtain ⟨dir, image, hholds⟩ := ih hstreamed entry hentry f picture hdrawn
    exact ⟨dir, image, (Layout.lasts_holds hfiles hapart).of_eq _ _ hholds rfl rfl rfl⟩
  | progress _ _ _ ih => exact ih hstreamed

end Press

end Folio
