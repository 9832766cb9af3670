import Folio.Image.Placer
import Folio.Proofs.Files.Hollow

/-!
# Placing pictures among other files

What other files hold is nothing to a picture: it goes to the same place in a tree with other
contents, and is refused there for the same reasons (`tracks_place`). No file that is there goes
away (`keeps_place`).
-/

namespace Folio.Placer

open Act (Keeps Tracks)

/-- The placers have come as far, with the same files but for what the files hold. -/
structure Alike (p q : Placer) : Prop where
  index : p.index = q.index
  log : p.log = q.log
  files : p.files.hollow = q.files.hollow

/-- Two answers that are alike but for what files hold. -/
theorem eq_of_map_hollow_eq {x y : Except Fault FileTree}
    (h : x.map FileTree.hollow = y.map FileTree.hollow) :
    (∃ e, x = .error e ∧ y = .error e)
      ∨ ∃ t u, x = .ok t ∧ y = .ok u ∧ t.hollow = u.hollow := by
  cases x with
  | error e =>
    cases y with
    | error e' => exact .inl ⟨e, rfl, congrArg Except.error (Except.error.inj h).symm⟩
    | ok u => cases h
  | ok t =>
    cases y with
    | error e' => cases h
    | ok u => exact .inr ⟨t, u, rfl, rfl, Except.ok.inj h⟩

theorem makeDirectories_congr {t u : FileTree} (h : t.hollow = u.hollow) (path : FilePath) :
    (t.makeDirectories path).map FileTree.hollow = (u.makeDirectories path).map FileTree.hollow := by
  rw [← FileTree.makeDirectories_hollow, h, FileTree.makeDirectories_hollow]

theorem writeFile_congr {t u : FileTree} (h : t.hollow = u.hollow) (path : FilePath)
    (content : Bytes) :
    (t.writeFile path content).map FileTree.hollow
      = (u.writeFile path content).map FileTree.hollow := by
  rw [FileTree.writeFile_hollow, h, FileTree.writeFile_hollow]

variable {α : Type} (options : Options α)

/-! ## Files of their own -/

/-- A picture that is stored gets its directory first, and then its number, which a refused write
uses up. -/
theorem run_store {directory : FilePath} (hdirectory : Placer.directory options = .ok directory)
    (image : EncodedImage) (p : Placer) :
    (store options image).run p = match p.files.makeDirectories directory with
      | .error e => (.error e, p)
      | .ok files =>
        match files.writeFile (directory.join (fileName options p.index image)) image.data with
        | .error e => (.error e, { p with files := files, index := p.index + 1 })
        | .ok written => (.ok (address options (fileName options p.index image)),
            { p with files := written, index := p.index + 1 }) := by
  rw [store, hdirectory, Act.run_bind_ok (Act.run_ofExcept _ p), Act.run_bind_ok (Act.run_get p),
    Act.run_bind, Act.run_ofExcept]
  cases p.files.makeDirectories directory with
  | error e => rfl
  | ok files =>
    simp only [Act.run_bind_ok (Act.run_modify _ _), Act.run_bind_ok (Act.run_get _)]
    rw [Act.run_bind, Act.run_ofExcept]
    cases files.writeFile (directory.join (fileName options p.index image)) image.data with
    | error e => rfl
    | ok written => rfl

theorem tracks_store (image : EncodedImage) : (store options image).Tracks Alike := by
  intro p q h
  cases hdirectory : Placer.directory options with
  | error e =>
    rw [store, hdirectory]
    exact ⟨rfl, h⟩
  | ok directory =>
    rw [run_store options hdirectory, run_store options hdirectory]
    rcases eq_of_map_hollow_eq (makeDirectories_congr h.files directory) with
      ⟨e, hp, hq⟩ | ⟨t, u, hp, hq, hmade⟩
    · rw [hp, hq]
      exact ⟨rfl, h⟩
    · rw [hp, hq, ← h.index]
      simp only
      rcases eq_of_map_hollow_eq
          (writeFile_congr hmade (directory.join (fileName options p.index image)) image.data) with
        ⟨e, hwritten, hwritten'⟩ | ⟨t', u', hwritten, hwritten', hsame⟩
      · rw [hwritten, hwritten']
        exact ⟨rfl, rfl, h.log, hmade⟩
      · rw [hwritten, hwritten']
        exact ⟨rfl, rfl, h.log, hsame⟩

theorem keeps_store (image : EncodedImage) (place : FilePath) :
    (store options image).Keeps fun p => p.files.hasFile place = true := by
  intro p h
  cases hdirectory : Placer.directory options with
  | error e =>
    rw [store, hdirectory]
    exact h
  | ok directory =>
    rw [run_store options hdirectory]
    cases hmade : p.files.makeDirectories directory with
    | error e => exact h
    | ok files =>
      have hfiles : files.hasFile place = true :=
        (FileTree.hasFile_makeDirectories hmade place).trans h
      simp only
      cases hwritten : files.writeFile (directory.join (fileName options p.index image))
          image.data with
      | error e => exact hfiles
      | ok written => exact FileTree.hasFile_writeFile hwritten hfiles

/-! ## Pictures -/

theorem tracks_emit (image : EncodedImage) : (emit options image).Tracks Alike := by
  refine .bind (.ofExcept _) fun files => ?_
  split
  · exact tracks_store options image
  · exact .pure _

theorem keeps_emit (image : EncodedImage) (place : FilePath) :
    (emit options image).Keeps fun p => p.files.hasFile place = true := by
  refine .bind (.ofExcept _) fun files => ?_
  split
  · exact keeps_store options image place
  · exact .pure _

theorem tracks_report (log : Log) : (report log).Tracks Alike :=
  .modify fun _ _ h => ⟨h.index, congrArg (· ++ log) h.log, h.files⟩

variable [Scalar α]

/-- What holds of reports and of an image's address holds of placing a picture, if it passes from
steps to what is put together from them. -/
theorem place_of_parts {Q : {β : Type} → Act Placer β → Prop} (h : Act.Composes Q)
    (hreport : ∀ log, Q (report log)) (hemit : ∀ image, Q (emit options image)) (raster : Raster)
    (page user : Affine α) : Q (place options raster page user) := by
  unfold place
  split
  · exact h.bind (hreport _) fun _ => h.pure _
  · split
    · exact h.bind (hreport _) fun _ => h.pure _
    · refine h.bind (h.ofExcept _) fun width => h.bind (h.ofExcept _) fun height => ?_
      refine h.bind (h.ofExcept _) fun extent => h.bind (hreport _) fun _ => ?_
      exact h.bind (h.ofExcept _) fun image => h.bind (hemit image) fun _ => h.pure _

/-- A picture goes to the same place, whatever the files hold. -/
theorem tracks_place (raster : Raster) (page user : Affine α) :
    (place options raster page user).Tracks Alike :=
  place_of_parts options (Act.Tracks.composes _) tracks_report (tracks_emit options) raster page user

/-- A file that is there stays. -/
theorem keeps_place (raster : Raster) (page user : Affine α) (file : FilePath) :
    (place options raster page user).Keeps fun p => p.files.hasFile file = true :=
  place_of_parts options (Act.Keeps.composes _) (fun _ => .modify fun _ h => h)
    (fun image => keeps_emit options image file) raster page user

end Folio.Placer
