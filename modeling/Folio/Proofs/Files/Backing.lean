import Folio.Output
import Folio.Proofs.Files.Growth
import Folio.Proofs.Layout.Attempt

/-!
# Outputs and their files

Whatever has gone to the file of an output so far and what is held back are together the UTF-8 form
of the text that the output has taken (`Output.Backed`). A text that is taken adds to what is held
back (`Output.Backed.tried`), and letting it go moves it to the end of the file
(`Output.Backed.settle`), so that after the output has been closed the file holds the text and
nothing else (`Output.Backed.close`). Nothing stands in the way of this as long as nobody else writes
to the file.
-/

namespace Folio

/-! ## UTF-8 -/

theorem CodePoint.exists_utf8? {c : CodePoint} (h : c.isSurrogate = false) :
    ∃ bytes, c.utf8? = some bytes := by
  unfold CodePoint.utf8?
  simp only [h, Bool.false_eq_true, if_false]
  split
  · exact ⟨_, rfl⟩
  · split
    · exact ⟨_, rfl⟩
    · split
      · exact ⟨_, rfl⟩
      · exact ⟨_, rfl⟩

namespace Text

theorem exists_utf8? {t : Text} (h : t.any CodePoint.isSurrogate = false) :
    ∃ bytes, t.utf8? = some bytes := by
  have hpieces : ∃ pieces, t.mapM CodePoint.utf8? = some pieces := by
    induction t with
    | nil => exact ⟨[], rfl⟩
    | cons c t ih =>
      rw [List.any_cons, Bool.or_eq_false_iff] at h
      obtain ⟨bytes, hbytes⟩ := CodePoint.exists_utf8? h.1
      obtain ⟨pieces, hpieces⟩ := ih h.2
      exact ⟨bytes :: pieces, by rw [List.mapM_cons, hbytes, hpieces]; rfl⟩
  obtain ⟨pieces, hpieces⟩ := hpieces
  exact ⟨pieces.flatten, by rw [utf8?, hpieces]; rfl⟩

theorem utf8?_append {s t : Text} {bytes bytes' : Bytes} (hs : s.utf8? = some bytes)
    (ht : t.utf8? = some bytes') : (s ++ t).utf8? = some (bytes ++ bytes') := by
  obtain ⟨pieces, hpieces, rfl⟩ := Option.map_eq_some_iff.mp hs
  obtain ⟨pieces', hpieces', rfl⟩ := Option.map_eq_some_iff.mp ht
  rw [utf8?, List.mapM_append, hpieces, hpieces']
  simp

end Text

namespace FileTree

theorem lookup_of_entry? {tree : FileTree} {place : FilePath} {content : Bytes}
    (h : tree.entry? place = some (.file content)) : tree.files.lookup place = some content := by
  unfold entry? at h
  split at h
  · cases h
  · split at h
    · rename_i hlookup
      cases h
      exact hlookup
    · split at h <;> cases h

/-- Bytes that are written behind the content of a file go to its end. -/
theorem writeAt_eq_put {tree : FileTree} {place : FilePath} {content : Bytes}
    (h : tree.entry? place = some (.file content)) (bytes : Bytes) :
    tree.writeAt place content.length bytes = tree.put place (content ++ bytes) := by
  rw [writeAt, lookup_of_entry? h, Option.getD_some, overlay, List.take_length, Nat.sub_self,
    List.replicate_zero, List.append_nil, List.drop_eq_nil_of_le (Nat.le_add_right _ _),
    List.append_nil]

end FileTree

/-! ## Outputs -/

namespace Output

/-- The output goes to the file at the place, which holds what has been let go. -/
structure Backed (place : FilePath) (o : Output) (tree : FileTree) : Prop where
  /-- A surrogate is never taken. -/
  refuses : ∀ n t, o.refuses n t = none → t.any CodePoint.isSurrogate = false
  file : ∃ file content, o.file = some file ∧ file.place = place
    ∧ tree.entry? place = some (.file content) ∧ file.offset = content.length
    ∧ o.text.utf8? = some (content ++ file.held)

namespace Backed

variable {place : FilePath} {o : Output} {tree : FileTree}

/-- A file that has been emptied for an output. -/
theorem toFile (h : tree.entry? place ≠ some .directory) :
    (Output.toFile place).Backed place (tree.put place []) where
  refuses n t hrefuses := by
    have hif : (if t.any CodePoint.isSurrogate then some (Fault.unencodable t) else none) = none :=
      hrefuses
    by_cases hany : t.any CodePoint.isSurrogate = true
    · rw [if_pos hany] at hif
      cases hif
    · exact Bool.eq_false_iff.mpr hany
  file := ⟨{ place := place }, [], rfl, rfl, FileTree.entry?_put_self h [], rfl, rfl⟩

/-- The place is a file, whatever it holds. -/
theorem entry?_ne (h : o.Backed place tree) : tree.entry? place ≠ some .directory := by
  obtain ⟨file, content, -, -, hentry, -⟩ := h.file
  rw [hentry]
  intro heq
  cases heq

theorem of_entry? (h : o.Backed place tree) {tree' : FileTree}
    (hentry : ∀ content, tree.entry? place = some (.file content) →
      tree'.entry? place = some (.file content)) : o.Backed place tree' := by
  obtain ⟨file, content, hfile, hplace, hcontent, hrest⟩ := h.file
  exact ⟨h.refuses, file, content, hfile, hplace, hentry content hcontent, hrest⟩

theorem tried (h : o.Backed place tree) (t : Text) : (o.tried t).Backed place tree := by
  obtain ⟨file, content, hfile, hplace, hcontent, hoffset, htext⟩ := h.file
  refine ⟨?_, ?_⟩
  · rw [refuses_tried]
    exact h.refuses
  · unfold Output.tried
    split
    · rename_i haccepts
      have hplain := h.refuses o.attempts t (Option.isNone_iff_eq_none.mp haccepts)
      obtain ⟨bytes, hbytes⟩ := Text.exists_utf8? hplain
      refine ⟨file.write bytes, content, ?_, hplace, hcontent, hoffset, ?_⟩
      · rw [taken, add, hbytes, hfile]
        rfl
      · have hmore := Text.utf8?_append htext hbytes
        rw [List.append_assoc] at hmore
        rw [text_taken, hmore]
        rfl
    · exact ⟨file, content, hfile, hplace, hcontent, hoffset, htext⟩

/-- Letting go all that is held back. -/
theorem close (h : o.Backed place tree) : (o.close tree).1.Backed place (o.close tree).2
    ∧ (∀ path, path ≠ place → FileTree.entry? (o.close tree).2 path = tree.entry? path)
    ∧ ∃ bytes, o.text.utf8? = some bytes
      ∧ FileTree.entry? (o.close tree).2 place = some (.file bytes) := by
  obtain ⟨file, content, hfile, rfl, hcontent, hoffset, htext⟩ := h.file
  unfold Output.close onFile OpenFile.flush
  rw [hfile]
  simp only
  split
  · rename_i hheld
    have hnil : file.held = [] := List.isEmpty_iff.mp hheld
    refine ⟨⟨h.refuses, file, content, rfl, rfl, hcontent, hoffset, htext⟩, fun _ _ => rfl,
      content, ?_, hcontent⟩
    rw [htext, hnil, List.append_nil]
  · have hdir := h.entry?_ne
    have hput : tree.writeAt file.place file.offset file.held
        = tree.put file.place (content ++ file.held) := by
      rw [hoffset, FileTree.writeAt_eq_put hcontent]
    have hentry := FileTree.entry?_put_self hdir (content ++ file.held)
    simp only [hput]
    refine ⟨⟨h.refuses, _, content ++ file.held, rfl, rfl, hentry, ?_, ?_⟩, fun path hpath => ?_,
      content ++ file.held, htext, hentry⟩
    · rw [hoffset, List.length_append]
    · rw [List.append_nil]
      exact htext
    · exact FileTree.entry?_put_of_ne hpath _

theorem settle (h : o.Backed place tree) : (o.settle tree).1.Backed place (o.settle tree).2
    ∧ ∀ path, path ≠ place → FileTree.entry? (o.settle tree).2 path = tree.entry? path := by
  obtain ⟨file, content, hfile, hplace, -⟩ := h.file
  have hclosed := h.close
  unfold Output.close onFile at hclosed
  unfold Output.settle onFile OpenFile.settle
  rw [hfile] at hclosed ⊢
  simp only at hclosed ⊢
  split
  · exact ⟨hclosed.1, hclosed.2.1⟩
  · have hsame : { o with file := some file } = o := by rw [← hfile]
    rw [hsame]
    exact ⟨h, fun _ _ => rfl⟩

end Backed

end Output

end Folio
