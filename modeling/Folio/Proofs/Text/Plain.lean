import Folio.Font.Table
import Folio.Scalar
import Folio.Text.Escape

/-!
# Texts without markup

A text is plain when it holds neither of the angle brackets, which delimit tags, nor the quote that
delimits attributes. Numbers, the words of styles and family labels are plain whatever they are
made from, and an escaped text has no angle brackets; only a unit, a fallback family and a
placeholder come as a caller gives them.
-/

namespace Folio

/-- Whether a code point opens or closes a tag. -/
def CodePoint.isAngle (c : CodePoint) : Bool := c = CodePoint.ofChar '<' || c = CodePoint.ofChar '>'

namespace Text

/-- No tag begins or ends in the text. -/
def HasNoAngle (t : Text) : Prop := ∀ c ∈ t, c.isAngle = false

/-- No tag and no quoted attribute begins or ends in the text. -/
def IsPlain (t : Text) : Prop := ∀ c ∈ t, c.isAngle = false ∧ c ≠ CodePoint.ofChar '"'

instance (t : Text) : Decidable t.HasNoAngle := inferInstanceAs (Decidable (∀ c ∈ t, _))

instance (t : Text) : Decidable t.IsPlain := inferInstanceAs (Decidable (∀ c ∈ t, _))

theorem IsPlain.hasNoAngle {t : Text} (h : t.IsPlain) : t.HasNoAngle := fun c hc => (h c hc).1

theorem IsPlain.no_quote {t : Text} (h : t.IsPlain) : CodePoint.ofChar '"' ∉ t :=
  fun hc => (h _ hc).2 rfl

@[simp] theorem isPlain_nil : IsPlain [] := fun _ h => absurd h List.not_mem_nil

@[simp] theorem isPlain_append {t u : Text} : IsPlain (t ++ u) ↔ IsPlain t ∧ IsPlain u := by
  constructor
  · intro h
    exact ⟨fun c hc => h c (List.mem_append_left _ hc), fun c hc => h c (List.mem_append_right _ hc)⟩
  · rintro ⟨ht, hu⟩ c hc
    rcases List.mem_append.mp hc with hc | hc
    · exact ht c hc
    · exact hu c hc

@[simp] theorem isPlain_join_nil : IsPlain (join []) ↔ True := iff_true_intro isPlain_nil

@[simp] theorem isPlain_join_cons {t : Text} {pieces : List Text} :
    IsPlain (join (t :: pieces)) ↔ IsPlain t ∧ IsPlain (join pieces) := isPlain_append

theorem IsPlain.of_subset {t u : Text} (h : u.IsPlain) (hsub : ∀ c ∈ t, c ∈ u) : t.IsPlain :=
  fun c hc => h c (hsub c hc)

@[simp] theorem hasNoAngle_nil : HasNoAngle [] := fun _ h => absurd h List.not_mem_nil

@[simp] theorem hasNoAngle_append {t u : Text} :
    HasNoAngle (t ++ u) ↔ HasNoAngle t ∧ HasNoAngle u := by
  simp only [HasNoAngle, List.mem_append, or_imp, forall_and]

theorem hasNoAngle_replicate {t : Text} (h : t.HasNoAngle) (count : Nat) :
    (replicate count t).HasNoAngle := by
  intro c hc
  obtain ⟨u, hu, hcu⟩ := List.mem_flatten.mp hc
  rw [List.eq_of_mem_replicate hu] at hcu
  exact h c hcu

/-! ## Constants -/

theorem lit_ofList (l : List Char) : lit (String.ofList l) = l.map CodePoint.ofChar := by
  simp [lit]

theorem lit_append (s t : String) : lit (s ++ t) = lit s ++ lit t := by
  simp [lit]

/-- A constant is looked at character by character; its string is never taken apart. -/
theorem hasNoAngle_lit {l : List Char}
    (h : (l.all fun c => !(CodePoint.ofChar c).isAngle) = true) :
    HasNoAngle (lit (String.ofList l)) := by
  rw [lit_ofList]
  intro c hc
  obtain ⟨d, hd, rfl⟩ := List.mem_map.mp hc
  exact (Bool.not_eq_true' _).mp (List.all_eq_true.mp h d hd)

/-! ## Escaped texts -/

theorem hasNoAngle_escapeOne (c : CodePoint) : HasNoAngle (escapeOne c) := by
  unfold escapeOne
  split
  · decide
  · split
    · decide
    · split
      · decide
      next hamp hlt hgt =>
        intro d hd
        rw [List.mem_singleton.mp hd]
        simp [CodePoint.isAngle, hlt, hgt]

/-- An escaped text has no angle brackets, whatever it was. -/
theorem hasNoAngle_escape (t : Text) : HasNoAngle t.escape := by
  intro c hc
  obtain ⟨d, -, hcd⟩ := List.mem_flatMap.mp hc
  exact hasNoAngle_escapeOne d c hcd

theorem isPlain_escapeQuotedOne (c : CodePoint) : IsPlain (escapeQuotedOne c) := by
  unfold escapeQuotedOne
  split
  · decide
  · split
    · decide
    next hquote _ =>
      intro d hd
      refine ⟨hasNoAngle_escapeOne c d hd, ?_⟩
      -- A quote is in none of the three entities, and the code point itself is none here.
      rintro rfl
      unfold escapeOne at hd
      split at hd
      · exact absurd hd (by decide)
      · split at hd
        · exact absurd hd (by decide)
        · split at hd
          · exact absurd hd (by decide)
          · exact hquote (List.mem_singleton.mp hd).symm

/-- A text escaped for an attribute is plain, whatever it was. -/
theorem isPlain_escapeQuoted (t : Text) : IsPlain t.escapeQuoted := by
  intro c hc
  obtain ⟨d, -, hcd⟩ := List.mem_flatMap.mp hc
  exact isPlain_escapeQuotedOne d c hcd

/-! ## Numbers -/

/-- What numbers are written with. -/
def numerals : Text := lit "0123456789-.infa"

theorem isPlain_numerals : numerals.IsPlain := by decide

theorem ofDigit_mem_numerals : ∀ d < 10, ofDigit d ∈ numerals := by decide

theorem digits_lt (n : Nat) : ∀ d ∈ digits n, d < 10 := by
  induction n using digits.induct with
  | case1 n h =>
    rw [digits, if_pos h]
    simpa using h
  | case2 n h ih =>
    rw [digits, if_neg h]
    intro d hd
    rcases List.mem_append.mp hd with hd | hd
    · exact ih d hd
    · rw [List.mem_singleton.mp hd]
      omega

theorem map_ofDigit_subset {ds : List Nat} (h : ∀ d ∈ ds, d < 10) :
    ds.map ofDigit ⊆ numerals := by
  intro c hc
  obtain ⟨d, hd, rfl⟩ := List.mem_map.mp hc
  exact ofDigit_mem_numerals d (h d hd)

theorem ofNat_subset (n : Nat) : ofNat n ⊆ numerals := map_ofDigit_subset (digits_lt n)

theorem ofInt_subset (n : Int) : ofInt n ⊆ numerals := by
  cases n with
  | ofNat n => exact ofNat_subset n
  | negSucc n => exact List.append_subset.mpr ⟨by decide, ofNat_subset _⟩

theorem isPlain_ofNat (n : Nat) : IsPlain (ofNat n) := isPlain_numerals.of_subset (ofNat_subset n)

theorem isPlain_ofInt (n : Int) : IsPlain (ofInt n) := isPlain_numerals.of_subset (ofInt_subset n)

end Text

namespace Decimal

open Text (IsPlain)

theorem lastDigits_lt : ∀ (places n : Nat), ∀ d ∈ lastDigits n places, d < 10 := by
  intro places
  induction places with
  | zero => intro n d hd; exact absurd hd List.not_mem_nil
  | succ places ih =>
    intro n d hd
    rcases List.mem_append.mp hd with hd | hd
    · exact ih _ d hd
    · rw [List.mem_singleton.mp hd]
      omega

theorem mem_of_mem_trimZeros {digits : List Nat} {d : Nat} (h : d ∈ trimZeros digits) :
    d ∈ digits := by
  rw [trimZeros, List.mem_reverse] at h
  exact List.mem_reverse.mp ((List.dropWhile_suffix _).subset h)

theorem fraction_subset {digits : List Nat} (h : ∀ d ∈ digits, d < 10) :
    fraction digits ⊆ Text.numerals := by
  unfold fraction
  split
  · exact List.nil_subset _
  · exact List.append_subset.mpr ⟨by decide, Text.map_ofDigit_subset h⟩

/-- A length is written in digits, a point and a minus sign, or in a word. -/
theorem thousandths_subset (x : Exact) : thousandths x ⊆ Text.numerals := by
  cases x with
  | finite negative num den den_pos =>
    have hsign : ∀ b, sign b ⊆ Text.numerals := by decide
    have hdigits : ∀ n, fraction (trimZeros (lastDigits n 3)) ⊆ Text.numerals := fun n =>
      fraction_subset fun d hd => lastDigits_lt 3 n d (mem_of_mem_trimZeros hd)
    exact List.append_subset.mpr ⟨List.append_subset.mpr ⟨hsign _, Text.ofNat_subset _⟩, hdigits _⟩
  | infinite negative => revert negative; decide
  | undefined => decide

theorem isPlain_thousandths (x : Exact) : IsPlain (thousandths x) :=
  Text.isPlain_numerals.of_subset (thousandths_subset x)

end Decimal

/-! ## Family labels -/

namespace Font

open Text (IsPlain isPlain_append)

variable {α : Type}

theorem isPlain_of_isLabelPart {c : CodePoint} (h : isLabelPart c = true) : IsPlain [c] := by
  intro d hd
  rw [List.mem_singleton.mp hd]
  constructor
  · cases hangle : c.isAngle with
    | false => rfl
    | true =>
      rw [CodePoint.isAngle, Bool.or_eq_true, decide_eq_true_iff, decide_eq_true_iff] at hangle
      rcases hangle with rfl | rfl <;> exact absurd h (by decide)
  · rintro rfl
    exact absurd h (by decide)

theorem isPlain_replaceRuns : ∀ (t : Text) (inRun : Bool), IsPlain (replaceRuns inRun t) := by
  intro t
  induction t with
  | nil => intro _; exact Text.isPlain_nil
  | cons c rest ih =>
    intro inRun
    rw [replaceRuns]
    split
    next hpart => exact isPlain_append.mpr ⟨isPlain_of_isLabelPart hpart, ih false⟩
    · split
      · exact ih true
      · exact (isPlain_append (t := [CodePoint.ofChar '_'])).mpr ⟨by decide, ih true⟩

theorem mem_of_mem_trimWhile {p : CodePoint → Bool} {t : Text} {c : CodePoint}
    (h : c ∈ Text.trimWhile p t) : c ∈ t := by
  rw [Text.trimWhile, Text.trimEndWhile, List.mem_reverse] at h
  exact (List.dropWhile_suffix _).subset
    (List.mem_reverse.mp ((List.dropWhile_suffix _).subset h))

theorem isPlain_firstNonempty : ∀ (texts : List Text), (∀ t ∈ texts, IsPlain t) →
    IsPlain (firstNonempty texts) := by
  intro texts
  induction texts with
  | nil => intro _; exact Text.isPlain_nil
  | cons t rest ih =>
    intro h
    cases rest with
    | nil => exact h t (List.mem_singleton_self t)
    | cons u rest =>
      rw [firstNonempty]
      split
      · exact ih fun v hv => h v (List.mem_cons_of_mem _ hv)
      · exact h t List.mem_cons_self
      · exact List.cons_ne_nil _ _

/-- The label that a font's name suggests is plain, whatever the name is. -/
theorem isPlain_label (font : Font α) : IsPlain font.label := by
  unfold label
  refine isPlain_firstNonempty _ fun t ht => ?_
  rw [List.mem_cons, List.mem_singleton] at ht
  rcases ht with rfl | rfl
  · exact (isPlain_replaceRuns _ _).of_subset fun c hc => mem_of_mem_trimWhile hc
  · decide

end Font

namespace FontTable

open Text (IsPlain isPlain_append)

variable {α : Type}

/-- Every label that the table has given out is plain. -/
def HasPlainLabels (table : FontTable α) : Prop := ∀ label ∈ table.labels, IsPlain label

theorem isPlain_freeLabel {taken : List Text} {label : Text} (h : IsPlain label) :
    IsPlain (freeLabel taken label) := by
  have hnumbered : ∀ n, IsPlain (numbered label n) := by
    intro n
    unfold numbered
    split
    · exact h
    · exact isPlain_append.mpr ⟨isPlain_append.mpr ⟨h, by decide⟩, Text.isPlain_ofNat n⟩
  unfold freeLabel
  cases hfind : List.find? (fun candidate => !taken.contains candidate)
      ((List.range (taken.length + 1)).map fun i => numbered label (i + 1)) with
  | none => exact h
  | some candidate =>
    obtain ⟨i, -, rfl⟩ := List.mem_map.mp (List.mem_of_find?_eq_some hfind)
    exact hnumbered _

theorem hasPlainLabels_add {table : FontTable α} (h : table.HasPlainLabels) (font : Font α) :
    (table.add font).1.HasPlainLabels := by
  unfold add
  split
  · exact h
  · split
    · exact h
    · intro label hlabel
      rw [labels, List.map_append, List.mem_append] at hlabel
      rcases hlabel with hlabel | hlabel
      · exact h label hlabel
      · rw [List.map_singleton, List.mem_singleton] at hlabel
        rw [hlabel]
        exact isPlain_freeLabel (Font.isPlain_label font)

theorem hasPlainLabels_addAll (fonts : List (Font α)) : ∀ {table : FontTable α},
    table.HasPlainLabels → (table.addAll fonts).1.HasPlainLabels := by
  induction fonts with
  | nil => intro table h; exact h
  | cons font rest ih => intro table h; exact ih (hasPlainLabels_add h font)

theorem fallback_add (table : FontTable α) (font : Font α) :
    (table.add font).1.fallback = table.fallback := by
  unfold add
  split
  · rfl
  · split <;> rfl

theorem fallback_addAll (fonts : List (Font α)) : ∀ (table : FontTable α),
    (table.addAll fonts).1.fallback = table.fallback := by
  induction fonts with
  | nil => intro table; rfl
  | cons font rest ih => intro table; exact (ih _).trans (fallback_add table font)

/-- Text is given a plain family if the fallback is plain. -/
theorem isPlain_face {table : FontTable α} (h : table.HasPlainLabels)
    (hfallback : IsPlain table.fallback) (font : Option (Font α)) :
    IsPlain (table.face font).family := by
  show IsPlain (((font.bind table.get?).map (·.family)).getD table.fallback)
  cases hentry : font.bind table.get? with
  | none => exact hfallback
  | some entry =>
    obtain ⟨f, -, hget⟩ := Option.bind_eq_some_iff.mp hentry
    obtain ⟨e, he, rfl⟩ := Option.map_eq_some_iff.mp hget
    exact h _ (List.mem_map.mpr ⟨e, List.mem_of_find?_eq_some he, rfl⟩)

end FontTable

end Folio
