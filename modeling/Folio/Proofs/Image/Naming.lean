import Folio.Image.Placer
import Folio.Proofs.Font.Label
import Mathlib.Data.List.TakeWhile

/-!
# Names of picture files

A word without slashes is one step of a path, whatever directory it is joined to
(`join_of_isStep`), so two such words lead to one place only if they are the same
(`resolve_join_inj`). The name of a picture file is such a word if the word it starts with and its
ending are (`isStep_fileName`); the ending is as long as the format of the raster is one, for no
letter has a slash as its small letter (`hasNoSlash_lower`). From a name its number and its ending
can be read back (`fileName_eq_iff`), since no digit is a dot.
-/

namespace Folio

/-! ## Words without slashes -/

namespace Text

def HasNoSlash (t : Text) : Prop := CodePoint.ofChar '/' ∉ t

instance (t : Text) : Decidable (HasNoSlash t) :=
  inferInstanceAs (Decidable (CodePoint.ofChar '/' ∉ t))

theorem hasNoSlash_cons {c : CodePoint} {t : Text} :
    HasNoSlash (c :: t) ↔ CodePoint.ofChar '/' ≠ c ∧ HasNoSlash t := by
  simp [HasNoSlash]

theorem hasNoSlash_append {t u : Text} : HasNoSlash (t ++ u) ↔ HasNoSlash t ∧ HasNoSlash u := by
  simp [HasNoSlash]

theorem hasNoSlash_ofNat (n : Nat) : HasNoSlash (ofNat n) := by
  have hdigit : ∀ d < 10, CodePoint.ofChar '/' ≠ ofDigit d := by decide
  intro h
  obtain ⟨d, hd, hslash⟩ := List.mem_map.mp h
  exact hdigit d (digits_lt n d hd) hslash.symm

theorem dot_not_mem_ofNat (n : Nat) : CodePoint.ofChar '.' ∉ ofNat n := by
  have hdigit : ∀ d < 10, CodePoint.ofChar '.' ≠ ofDigit d := by decide
  intro h
  obtain ⟨d, hd, hdot⟩ := List.mem_map.mp h
  exact hdigit d (digits_lt n d hd) hdot.symm

/-- What stands before the first `c` and what stands behind it can be read back. -/
theorem append_cons_inj {c : CodePoint} : ∀ {s s' t t' : Text}, c ∉ s → c ∉ s' →
    s ++ c :: t = s' ++ c :: t' → s = s' ∧ t = t'
  | [], [], _, _, _, _, h => ⟨rfl, List.tail_eq_of_cons_eq h⟩
  | [], _ :: _, _, _, _, hs', h => absurd (List.head_eq_of_cons_eq h ▸ List.mem_cons_self) hs'
  | _ :: _, [], _, _, hs, _, h => absurd (List.head_eq_of_cons_eq h ▸ List.mem_cons_self) hs
  | a :: s, b :: s', _, _, hs, hs', h => by
    obtain ⟨hs, ht⟩ := append_cons_inj (mt (List.mem_cons_of_mem a) hs)
      (mt (List.mem_cons_of_mem b) hs') (List.tail_eq_of_cons_eq h)
    exact ⟨by rw [List.head_eq_of_cons_eq h, hs], ht⟩

/-! ### Small letters -/

/-- Every small letter comes behind the slash. -/
theorem slash_lt_lowerRuns : ∀ run ∈ CodePoint.lowerRuns.toList,
    (0x2F : Int) < run.first + run.distance := by decide +kernel

theorem slash_ne_counterpart {runs : Array CodePoint.CaseRun}
    (hruns : ∀ run ∈ runs.toList, (0x2F : Int) < run.first + run.distance) {c : CodePoint}
    (hc : CodePoint.ofChar '/' ≠ c) : CodePoint.ofChar '/' ≠ CodePoint.counterpart runs c := by
  unfold CodePoint.counterpart
  cases hfind : runs.find? (·.holds c) with
  | none => exact hc
  | some run =>
    have hholds := Array.find?_some hfind
    have hrun := hruns run (Array.mem_toList_iff.mpr (Array.mem_of_find?_eq_some hfind))
    simp only [CodePoint.CaseRun.holds, Bool.and_eq_true, decide_eq_true_eq] at hholds
    intro hslash
    have hval : (CodePoint.ofNat ((c.val : Int) + run.distance).toNat).val = 0x2F :=
      congrArg CodePoint.val hslash.symm
    unfold CodePoint.ofNat at hval
    split at hval
    · simp only at hval
      omega
    · cases hval

theorem hasNoSlash_lowerBetween {before after : Text} {c : CodePoint}
    (hc : CodePoint.ofChar '/' ≠ c) : HasNoSlash (lowerBetween before c after) := by
  unfold lowerBetween CodePoint.lower HasNoSlash
  split
  · split <;> decide
  · split
    · decide
    · rw [List.mem_singleton]
      exact slash_ne_counterpart slash_lt_lowerRuns hc

theorem hasNoSlash_lowerAfter {t : Text} (h : HasNoSlash t) (before : Text) :
    HasNoSlash (lowerAfter before t) := by
  induction t generalizing before with
  | nil => exact List.not_mem_nil
  | cons c rest ih =>
    obtain ⟨hc, hrest⟩ := hasNoSlash_cons.mp h
    exact hasNoSlash_append.mpr ⟨hasNoSlash_lowerBetween hc, ih hrest (c :: before)⟩

theorem hasNoSlash_lower {t : Text} (h : HasNoSlash t) : HasNoSlash t.lower :=
  hasNoSlash_lowerAfter h []

end Text

/-! ## Single steps -/

namespace FilePath

open Text (HasNoSlash hasNoSlash_cons)

/-- A word that is one step of a path, and no dots that stand for another one. -/
structure IsStep (t : Text) : Prop where
  noSlash : HasNoSlash t
  nonempty : t ≠ []
  ne_dot : t ≠ Text.lit "."
  ne_dots : t ≠ Text.lit ".."

theorem pieces_of_hasNoSlash {t : Text} (h : HasNoSlash t) : pieces t = [t] := by
  induction t with
  | nil => rfl
  | cons c rest ih =>
    obtain ⟨hc, hrest⟩ := hasNoSlash_cons.mp h
    rw [pieces, if_neg (Ne.symm hc), ih hrest]

theorem stepsOf_of_isStep {t : Text} (h : IsStep t) : stepsOf t = [t] := by
  have hkept : (!t.isEmpty && t != Text.lit ".") = true := by
    simpa [List.isEmpty_iff] using ⟨h.nonempty, h.ne_dot⟩
  rw [stepsOf, pieces_of_hasNoSlash h.noSlash, List.filter_singleton, hkept]
  rfl

theorem join_of_isStep (path : FilePath) {t : Text} (h : IsStep t) :
    path.join t = { path with steps := path.steps ++ [t] } := by
  have hrelative : (Text.lit "/").isPrefixOf t = false := by
    cases t with
    | nil => rfl
    | cons c rest =>
      have hc : (CodePoint.ofChar '/' == c) = false :=
        beq_eq_false_iff_ne.mpr (hasNoSlash_cons.mp h.noSlash).1
      show (CodePoint.ofChar '/' == c && List.isPrefixOf [] rest) = false
      rw [hc, Bool.false_and]
  rw [join, hrelative, below, stepsOf_of_isStep h]
  rfl

theorem resolve_join_of_isStep (path : FilePath) {t : Text} (h : IsStep t) :
    (path.join t).resolve = { path with steps := resolveSteps path.steps ++ [t] } := by
  rw [join_of_isStep path h, resolve, resolveSteps, List.foldl_append, List.foldl_cons,
    List.foldl_nil, if_neg h.ne_dots]
  rfl

/-- Two steps from one directory lead to one place only if they are the same. -/
theorem resolve_join_inj (path : FilePath) {t u : Text} (ht : IsStep t) (hu : IsStep u) :
    (path.join t).resolve = (path.join u).resolve ↔ t = u := by
  rw [resolve_join_of_isStep path ht, resolve_join_of_isStep path hu]
  simp

/-! ### Slashes between steps -/

theorem pieces_append (s t : Text) :
    pieces (s ++ CodePoint.ofChar '/' :: t) = pieces s ++ pieces t := by
  induction s with
  | nil => simp [pieces]
  | cons c rest ih =>
    have hpieces : pieces rest ≠ [] := by
      cases rest with
      | nil => exact List.cons_ne_nil _ _
      | cons d rest =>
        rw [pieces]
        split
        · exact List.cons_ne_nil _ _
        · split <;> exact List.cons_ne_nil _ _
    obtain ⟨piece, more, hmore⟩ := List.exists_cons_of_ne_nil hpieces
    rw [List.cons_append, pieces, pieces, ih, hmore]
    split
    · rfl
    · rfl

theorem stepsOf_append (s t : Text) :
    stepsOf (s ++ CodePoint.ofChar '/' :: t) = stepsOf s ++ stepsOf t := by
  rw [stepsOf, pieces_append, List.filter_append]
  rfl

/-- One step leads to one place only from one directory. -/
theorem resolve_join_left_inj {path path' : FilePath} {t : Text} (ht : IsStep t) :
    (path.join t).resolve = (path'.join t).resolve ↔ path.resolve = path'.resolve := by
  rw [resolve_join_of_isStep path ht, resolve_join_of_isStep path' ht]
  simp [resolve]

end FilePath

/-! ## Formats -/

namespace ImageEncoding

open Text (HasNoSlash hasNoSlash_lower)

theorem hasNoSlash_normalFormat {format : Text} (h : HasNoSlash format) :
    HasNoSlash (normalFormat format) := by
  have hlit : HasNoSlash (Text.lit "jpeg") := by decide
  unfold normalFormat
  extract_lets lower
  split
  · exact hlit
  · exact hasNoSlash_lower h

theorem format_of_run {attempt : Attempt} {raster : Raster} {image : EncodedImage}
    (h : attempt.run raster = .ok image) : image.format = attempt.format := by
  unfold Attempt.run at h
  simp only [bind, Except.bind] at h
  split at h
  · cases h
  · cases h
    rfl

/-- A picture has the format of some attempt. -/
theorem format_of_firstSuccess {raster : Raster} {attempts : List Attempt} {image : EncodedImage}
    (h : (firstSuccess raster attempts).1 = .ok image) :
    ∃ attempt ∈ attempts, image.format = attempt.format := by
  induction attempts with
  | nil => cases h
  | cons attempt rest ih =>
    rw [firstSuccess] at h
    cases hrun : attempt.run raster with
    | ok found =>
      rw [hrun] at h
      cases h
      exact ⟨attempt, List.mem_cons_self, format_of_run hrun⟩
    | error fault =>
      rw [hrun] at h
      simp only at h
      split at h
      · cases h
      · obtain ⟨other, hother, hformat⟩ := ih h
        exact ⟨other, List.mem_cons_of_mem _ hother, hformat⟩

theorem format_of_mem_attempts {raster : Raster} {format : Text} {attempt : Attempt}
    (h : attempt ∈ attempts raster format) :
    attempt.format = format ∨ attempt.format = Text.lit "png" := by
  unfold attempts at h
  grind

/-- A picture is in the raster's own format or in PNG. -/
theorem format_of_encode {raster : Raster} {image : EncodedImage}
    (h : (encode raster).1 = .ok image) :
    ∃ format, raster.format? = some format
      ∧ (image.format = normalFormat format ∨ image.format = Text.lit "png") := by
  unfold encode at h
  cases hformat : raster.format? with
  | none =>
    rw [hformat] at h
    cases h
  | some format =>
    rw [hformat] at h
    obtain ⟨attempt, hmem, himage⟩ := format_of_firstSuccess h
    exact ⟨format, rfl, himage ▸ format_of_mem_attempts hmem⟩

/-- An ending has no slash if the raster's format has none. -/
theorem hasNoSlash_fileEnding {raster : Raster} (hraster : ∀ f ∈ raster.format?, HasNoSlash f)
    {image : EncodedImage} (h : (encode raster).1 = .ok image) : HasNoSlash image.fileEnding := by
  have hjpg : HasNoSlash (Text.lit "jpg") := by decide
  have htif : HasNoSlash (Text.lit "tif") := by decide
  have hpng : HasNoSlash (Text.lit "png") := by decide
  obtain ⟨format, hformat, hfound⟩ := format_of_encode h
  have hown : HasNoSlash image.format := by
    rcases hfound with hfound | hfound
    · rw [hfound]
      exact hasNoSlash_normalFormat (hraster format hformat)
    · rw [hfound]
      exact hpng
  unfold EncodedImage.fileEnding
  split
  · exact hjpg
  · split
    · exact htif
    · exact hown

end ImageEncoding

/-! ## Names and addresses -/

namespace Placer

open Text (HasNoSlash hasNoSlash_append hasNoSlash_ofNat)

variable {α : Type} (options : Options α)

theorem fileName_eq (index : Nat) (image : EncodedImage) :
    fileName options index image
      = options.context ++ CodePoint.ofChar '-' ::
        (Text.ofNat index ++ CodePoint.ofChar '.' :: image.fileEnding) := by
  simp [fileName, Text.join, Text.lit]

theorem isStep_fileName {options : Options α} (hcontext : HasNoSlash options.context) (index : Nat)
    {image : EncodedImage} (hending : HasNoSlash image.fileEnding) :
    FilePath.IsStep (fileName options index image) := by
  have hhyphen : CodePoint.ofChar '-' ∈ fileName options index image := by
    rw [fileName_eq]
    simp
  have hne : ∀ t : Text, CodePoint.ofChar '-' ∉ t → fileName options index image ≠ t :=
    fun t ht heq => ht (heq ▸ hhyphen)
  refine ⟨?_, hne [] (by decide), hne _ (by decide), hne _ (by decide)⟩
  have hnumber := hasNoSlash_ofNat index
  have h₁ : CodePoint.ofChar '/' ≠ CodePoint.ofChar '-' := by decide
  have h₂ : CodePoint.ofChar '/' ≠ CodePoint.ofChar '.' := by decide
  rw [fileName_eq, HasNoSlash]
  simp only [List.mem_append, List.mem_cons, not_or]
  exact ⟨hcontext, h₁, hnumber, h₂, hending⟩

/-- The number and the ending can be read back from a name, whoever gave it for the same word. -/
theorem fileName_eq_iff {options options' : Options α} (hcontext : options.context = options'.context)
    {index index' : Nat} {image image' : EncodedImage} :
    fileName options index image = fileName options' index' image'
      ↔ index = index' ∧ image.fileEnding = image'.fileEnding := by
  rw [fileName_eq, fileName_eq, hcontext]
  constructor
  · intro h
    have hbehind := List.tail_eq_of_cons_eq (List.append_cancel_left h)
    obtain ⟨hnumber, hending⟩ :=
      Text.append_cons_inj (Text.dot_not_mem_ofNat _) (Text.dot_not_mem_ofNat _) hbehind
    exact ⟨Text.ofNat_injective hnumber, hending⟩
  · rintro ⟨rfl, hending⟩
    rw [hending]

/-- What an address has in front is the prefix without the slashes at its end. -/
theorem address_eq (name : Text) : ∃ front count,
    options.imagePrefix = front ++ List.replicate count (CodePoint.ofChar '/')
      ∧ front.getLast? ≠ some (CodePoint.ofChar '/')
      ∧ address options name = front ++ CodePoint.ofChar '/' :: name := by
  let isSlash : CodePoint → Bool := (· = CodePoint.ofChar '/')
  let back := options.imagePrefix.reverse
  have hslashes : (back.takeWhile isSlash)
      = List.replicate (back.takeWhile isSlash).length (CodePoint.ofChar '/') :=
    List.eq_replicate_iff.mpr ⟨rfl, fun c hc => by simpa [isSlash] using List.mem_takeWhile_imp hc⟩
  refine ⟨(back.dropWhile isSlash).reverse, (back.takeWhile isSlash).length, ?_, ?_, ?_⟩
  · rw [← List.reverse_replicate, ← hslashes, ← List.reverse_append, List.takeWhile_append_dropWhile]
    exact (List.reverse_reverse _).symm
  · rw [List.getLast?_reverse]
    intro h
    have hfirst := List.head?_dropWhile_not isSlash back
    rw [h] at hfirst
    simp [isSlash] at hfirst
  · simp [address, Text.trimEndWhile, Text.lit, back, isSlash]

end Placer

end Folio
