import Folio.CommandLine
import Folio.Proofs.Conversion.Stages
import Folio.Proofs.Layout.Written

/-!
# References to picture files

The program can put picture files into any directory, but the page that it writes always refers to
the directory `image` beside the page. So a reference leads to the file of its picture exactly if the
files go to that directory, as they do when no other one is given (`convert_references`). The
files are written all the same, and hold their pictures in the end.
-/

namespace Folio

open Text (lit HasNoSlash)

variable {α : Type}

/-! ## References as they are written -/

namespace CommandLine

/-- The usual address of a picture file. -/
theorem address_of_usual {options : Options α} (h : options.imagePrefix = lit "./image")
    (name : Text) : Placer.address options name = lit "./image/" ++ name := by
  have htrim : Text.trimEndWhile (· = CodePoint.ofChar '/') (lit "./image") = lit "./image" := by
    decide
  have hslash : lit "./image" ++ lit "/" = lit "./image/" := by decide
  rw [Placer.address, h, htrim, hslash]

/-- It leads into the directory `image`. -/
theorem join_reference (path : FilePath) {name : Text} (hname : FilePath.IsStep name) :
    path.join (lit "./image/" ++ name) = (path.join (lit "image")).join name := by
  have himage : FilePath.IsStep (lit "image") := ⟨by decide, by decide, by decide, by decide⟩
  have hsteps : FilePath.stepsOf (lit "./image/" ++ name) = [lit "image", name] := by
    have hslash : lit "./image/" ++ name = lit "./image" ++ CodePoint.ofChar '/' :: name := by
      rw [← List.singleton_append, ← List.append_assoc]
      rfl
    rw [hslash, FilePath.stepsOf_append, FilePath.stepsOf_of_isStep hname]
    rfl
  have hrelative : (lit "/").isPrefixOf (lit "./image/" ++ name) = false := rfl
  rw [FilePath.join_of_isStep _ hname, FilePath.join_of_isStep _ himage, FilePath.join, hrelative,
    if_neg Bool.false_ne_true, FilePath.below, hsteps, List.append_assoc]
  rfl

end CommandLine

/-! ## Prepared conversions -/

variable [Scalar α]

namespace Conversion

/-- Picture files go to the chosen directory, or beside the output. -/
theorem settle_of_files {options settled : Options α} {output : FilePath}
    (hfiles : options.emission = .files) (h : settle options (some output) = .ok settled) :
    settled = { options with
      imageDir := some (options.imageDir.getD (output.parent.join (lit "image"))) } := by
  have hchosen : (if true && options.imageDir.isNone then
      { options with imageDir := some (output.parent.join (lit "image")) } else options)
      = { options with
          imageDir := some (options.imageDir.getD (output.parent.join (lit "image"))) } := by
    cases hdir : options.imageDir with
    | none => rfl
    | some dir =>
      show options = { options with imageDir := some dir }
      rw [← hdir]
  have hwants : options.emission.wantsFiles = .ok true := by rw [hfiles]; rfl
  rw [settle, hwants] at h
  simp only [Option.map_some, bind, Except.bind] at h
  rw [hchosen] at h
  split at h
  · cases h
  · exact (Except.ok.inj h).symm

end Conversion

namespace CommandLine

open Conversion (Prepared)

/-- The conversion that was asked for. -/
def requestOf (scene : Scene α) (given : Given) (emission : Emission) (input : FilePath) :
    Conversion.Request α :=
  { input := input, options := optionsOf scene given emission, password := given.value? .password }

/-- What the program does before the output is emptied. -/
def prepare (scene : Scene α) (given : Given) (emission : Emission) (input : Text) :
    Act Workspace (Prepared α) := do
  let _ ← Act.ofExcept (Pdf.Document.open? scene.reader scene.files (scene.locate input) input
    (given.value? .password))
  let path ← Act.ofExcept (scene.expand input)
  let output ← Act.ofExcept ((given.value? .output).mapM scene.expand)
  Conversion.prepare scene.reader (requestOf scene given emission path) output

/-- Where picture files go. -/
def imageDirectory (scene : Scene α) (given : Given) (output : FilePath) : FilePath :=
  (((given.value? .imageDir).filter fun t => !t.isEmpty).map scene.locate).getD
    (output.parent.join (lit "image"))

/-- What has been found out once the program is prepared. -/
theorem of_prepare {scene : Scene α} {given : Given} {emission : Emission} {input : Text}
    {b : Prepared α} {w made : Workspace}
    (h : (prepare scene given emission input).run w = (.ok b, made)) :
    ∃ document path output,
      Pdf.Document.open? scene.reader scene.files (scene.locate input) input
        (given.value? .password) = .ok document
      ∧ scene.expand input = .ok path
      ∧ (given.value? .output).mapM scene.expand = .ok output
      ∧ (Conversion.prepare scene.reader (requestOf scene given emission path) output).run w
        = (.ok b, made) := by
  obtain ⟨document, hopen, h⟩ := Act.run_ofExcept_bind_eq_ok h
  obtain ⟨path, hpath, h⟩ := Act.run_ofExcept_bind_eq_ok h
  obtain ⟨output, houtput, h⟩ := Act.run_ofExcept_bind_eq_ok h
  exact ⟨document, path, output, hopen, hpath, houtput, h⟩

/-- The program leaves what the press leaves. -/
theorem files_convert {scene : Scene α} {given : Given} {emission : Emission} {input : Text}
    {b : Prepared α} {made : Workspace}
    (h : (prepare scene given emission input).run { files := scene.files } = (.ok b, made)) :
    (convert scene given emission input).workspace.files
      = (b.pressed none made).2.layout.closed.placer.files := by
  obtain ⟨document, path, output, hopen, hpath, houtput, hprepare⟩ := of_prepare h
  have hrun := Conversion.run_convert scene.reader (requestOf scene given emission path) output
    { files := scene.files }
  rw [hprepare] at hrun
  have hconversion : (do
      let input ← Act.ofExcept (scene.expand input)
      let output ← Act.ofExcept ((given.value? .output).mapM scene.expand)
      Conversion.convert scene.reader (requestOf scene given emission input) output :
        Act Workspace Conversion.Result).run { files := scene.files }
      = Conversion.proceed (requestOf scene given emission path) b made := by
    rw [hpath, houtput, Act.run_bind_ok (Act.run_ofExcept _ _),
      Act.run_bind_ok (Act.run_ofExcept _ _)]
    exact hrun
  rw [convert, hopen]
  unfold requestOf at hconversion
  simp only
  rw [hconversion]
  split
  · rfl
  · rfl

/-- The options of a prepared conversion, and the place of its output. -/
theorem options_of_prepare {scene : Scene α} {given : Given} {input : Text} {b : Prepared α}
    {w made : Workspace} (h : (prepare scene given .files input).run w = (.ok b, made)) :
    b.options = { optionsOf scene given .files with
        imageDir := some (imageDirectory scene given b.output) }
      ∧ made.files.writable b.output = .ok b.place := by
  obtain ⟨_, path, output, -, -, -, hprepare⟩ := of_prepare h
  obtain ⟨hsettle, hwritable⟩ := Conversion.of_prepare hprepare
  exact ⟨Conversion.settle_of_files rfl hsettle, hwritable⟩

/-! ## Where references lead -/

/-- Every picture of the page has been written to a file of its own and is there in the end. The
page refers to it in the directory `image` beside the page, so the reference leads to the file
exactly if that is where picture files go. -/
theorem convert_references {scene : Scene α} {given : Given} {input : Text} {b : Prepared α}
    {made : Workspace}
    (h : (prepare scene given .files input).run { files := scene.files } = (.ok b, made)) :
    let page := (b.pressed none made).2
    let left := (convert scene given .files input).workspace.files
    let dir := imageDirectory scene given b.output
    (¬ Placer.MayWrite b.options b.place →
        ∃ bytes, page.text.utf8? = some bytes ∧ left.readFile b.output = .ok bytes)
      ∧ ∀ t ∈ page.layout.emitter.output.pieces, Element.picture.marks t = true →
        ∃ entry ∈ b.record none made, ∃ f picture name image,
          Press.Drawn b.options entry.1 entry.2 f picture
          ∧ t = entry.1.layout.pictureHtml picture
          ∧ picture.source = lit "./image/" ++ name
          ∧ (ImageEncoding.encode f.drawing.raster).1 = .ok image
          ∧ (∃ there written, entry.1.layout.placer.files.makeDirectories dir = .ok there
            ∧ there.writeFile (dir.join name) image.data = .ok written)
          ∧ (¬ Placer.MayWrite b.options b.place →
            left.readFile (dir.join name) = .ok image.data)
          ∧ ((b.output.parent.join picture.source).resolve = (dir.join name).resolve
            ↔ dir.resolve = (b.output.parent.join (lit "image")).resolve) := by
  intro page left dir
  obtain ⟨hoptions, hwritable⟩ := options_of_prepare h
  obtain ⟨-, -, hplace⟩ := FileTree.writable_eq_ok hwritable
  have hleft : left = page.layout.closed.placer.files := files_convert h
  have hfiles : b.options.emission = .files := by rw [hoptions]; rfl
  have hcontext : HasNoSlash b.options.context := by
    have hword : b.options.context = scene.machine.word := by rw [hoptions]; rfl
    rw [hword]
    exact scene.machine.noSlash
  have hdir : b.options.imageDir = some dir := by rw [hoptions]
  have hprefix : b.options.imagePrefix = lit "./image" := by rw [hoptions]; rfl
  obtain ⟨answer, last, record, hrun, hrecording, hheard⟩ :=
    b.document.run_recording Press.listener none (b.first made)
  have hpage : page = last := congrArg Prod.snd hrun
  have hrecord : b.record none made = record := congrArg (·.2.2) hrecording
  have hcoherent := Layout.coherent_start b.options (.toFile b.place) (made.files.put b.place [])
  have hstreamed : ∀ entry ∈ record, entry.2.IsStreamed :=
    hrecord ▸ b.document.streamed_record Press.listener none (b.first made)
  rw [← hpage] at hheard
  rw [hrecord]
  refine ⟨fun hapart => ?_, fun t ht hmarks => ?_⟩
  · rw [hleft]
    exact (Press.file_of_run hapart hwritable b.document none).2
  · obtain ⟨before, q, e, after, picture, hsplit, hpicture, hhtml⟩ :=
      Press.picture_of_heard hheard hcoherent rfl ht hmarks
    have hentry : (q, e) ∈ record := by
      rw [hsplit]
      exact List.mem_append_right _ List.mem_cons_self
    have hq : q.layout.options = b.options :=
      Press.options_of_heard (hheard.of_append hsplit).1 hcoherent
    obtain ⟨f, hdrawn⟩ := Press.drawn_of_pictured hpicture
    rw [hq] at hdrawn
    obtain ⟨dir', image, there, written, hdir', himage, hthere, hwritten, hsource⟩ :=
      hdrawn.stored hfiles
    cases hdir.symm.trans hdir'
    have hstep := Placer.isStep_fileName hcontext f.number
      (ImageEncoding.hasNoSlash_fileEnding (hdrawn.format (hstreamed (q, e) hentry)) himage)
    have haddress := hsource.trans (address_of_usual hprefix _)
    refine ⟨(q, e), hentry, f, picture, _, image, hdrawn, hhtml, haddress, himage,
      ⟨there, written, hthere, hwritten⟩, fun hapart => ?_, ?_⟩
    · obtain ⟨dir', image', hholds⟩ := Press.holds_of_heard hfiles hcontext hapart hheard hcoherent
        (Layout.backed_start hplace) hstreamed (q, e) hentry f picture hdrawn
      cases hdir.symm.trans hholds.filed.directory
      cases himage.symm.trans hholds.filed.encoded
      rw [hleft]
      exact hholds.held_closed hfiles hapart
    · rw [haddress, join_reference _ hstep, FilePath.resolve_join_left_inj hstep]
      exact eq_comm

/-! A directory of another name -/

/-- A page that shows one picture. -/
def wall : Pdf.Page ℚ where
  crop := ⟨.whole 0, .whole 0, .whole 100, .whole 100⟩
  rotation := .whole 0
  resources := .node 0
  content := some (.ok [⟨lit "Do", [.ofText (lit "/Im0")]⟩])

/-- A document of one page. -/
def gallery : Pdf.Source ℚ where
  graph := {
    nodes := #[
      { entries := [(lit "/XObject", .node 1)] },
      { entries := [(lit "/Im0", .node 2)] },
      { entries := [(lit "/Subtype", .ofText (lit "/Image"))], isStream := true
        pixels := .raster {
          mode := lit "RGB", width := 1, height := 1, format := none, bitsPerPixel := 24, name := none
          encoder := ⟨fun _ _ => .ok (), fun _ _ _ => .ok [7]⟩ } }]
    objects := [] }
  pages := .ok [wall]

/-- A directory with the document. -/
def entrance : Scene ℚ where
  reader _ := .ok gallery
  locate t := FilePath.below ⟨[], []⟩ t
  files := { files := [(⟨[], [lit "a.pdf"]⟩, [])] }
  home? _ := none

/-- Picture files are to go to a directory with another name. -/
def toAssets : Given where
  settings := [(.imageDir, lit "assets")]
  places := [lit "a.pdf"]

/-- What has been found out before the output is emptied. -/
def hung : Prepared ℚ where
  input := ⟨[], [lit "a.pdf"]⟩
  output := ⟨[], [lit "a.html"]⟩
  options := { optionsOf entrance toAssets .files with imageDir := some ⟨[], [lit "assets"]⟩ }
  document := ⟨gallery.graph, [wall], lit "a.pdf"⟩
  place := ⟨[], [lit "a.html"]⟩

theorem prepare_entrance :
    (prepare entrance toAssets .files (lit "a.pdf")).run { files := entrance.files }
      = (.ok hung, { files := entrance.files }) := by with_unfolding_all rfl

/-- The page is no file in the directory of pictures. -/
theorem not_mayWrite_hung : ¬ Placer.MayWrite hung.options hung.place := by
  rintro ⟨-, dir, index, image, hdir, hending, hpath⟩
  cases hdir
  have hcontext : HasNoSlash hung.options.context := by decide +kernel
  rw [FilePath.resolve_join_of_isStep _ (Placer.isStep_fileName hcontext index hending)] at hpath
  have hassets : FilePath.resolveSteps [lit "assets"] = [lit "assets"] := by decide
  rw [hassets] at hpath
  have hlength : 1 = 2 := congrArg (fun path => path.steps.length) hpath
  omega

/-- The page shows the picture. -/
theorem picture_hung : (hung.pressed none { files := entrance.files }).2.layout.emitter.output.pieces.any
    Element.picture.marks = true := by
  have hnumbers : hung.document.pageNumbers none = .ok [1] := rfl
  have hpage : hung.document.page? 1 = some wall := rfl
  have hok : ∀ f : List Nat → Act (Pdf.Document.Session ℚ (Press ℚ)) Unit,
      (Act.ofExcept (.ok [1]) >>= f) = f [1] := fun f => pure_bind _ _
  rw [Prepared.pressed, Press.run, Pdf.Document.run, Pdf.Document.Session.run, hnumbers, hok]
  simp only [Pdf.Document.Session.pages, Pdf.Document.Session.page, hpage]
  simp only [wall, Pdf.Document.Session.pageBody]
  simp only [Pdf.Document.Session.walkContent, Pdf.Walker.walk_eq_foldr]
  -- The style sheet is turned into its characters here: to evaluate it as a string takes long.
  simp only [Pdf.Document.Session.send, Press.listener, Layout.receive, Layout.beginDocument,
    Emitter.documentStart, Html.documentStart, Html.styleSheet, Text.lit_append]
  simp only [Text.lit, String.reduceToList]
  decide +kernel

/-- The page refers to a file that is not there: the picture is in the other directory. -/
theorem convert_references_toAssets :
    ∃ t ∈ (hung.pressed none { files := entrance.files }).2.layout.emitter.output.pieces,
      Element.picture.marks t = true ∧ ∃ q : Press ℚ, ∃ picture name image,
        t = q.layout.pictureHtml picture
          ∧ picture.source = lit "./image/" ++ name
          ∧ (convert entrance toAssets .files (lit "a.pdf")).workspace.files.readFile
            (FilePath.join ⟨[], [lit "assets"]⟩ name) = .ok (EncodedImage.data image)
          ∧ (FilePath.join ⟨[], []⟩ picture.source).resolve
            ≠ (FilePath.join ⟨[], [lit "assets"]⟩ name).resolve := by
  obtain ⟨t, ht, hmarks⟩ := List.any_eq_true.mp picture_hung
  obtain ⟨-, hpictures⟩ := convert_references prepare_entrance
  obtain ⟨entry, -, f, picture, name, image, -, hhtml, hsource, -, -, hheld, hresolve⟩ :=
    hpictures t ht hmarks
  refine ⟨t, ht, hmarks, entry.1, picture, name, image, hhtml, hsource, hheld not_mayWrite_hung, ?_⟩
  have hdir : FilePath.resolve ⟨[], [lit "assets"]⟩
      ≠ (FilePath.join ⟨[], []⟩ (lit "image")).resolve := by decide +kernel
  exact fun h => hdir (hresolve.mp h)

end CommandLine

end Folio
