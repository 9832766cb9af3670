import Folio.Proofs.Text.Plain
import Mathlib.Data.List.Nodup
import Mathlib.Data.List.Perm.Subperm
import Mathlib.Data.Nat.Digits.Defs
import Mathlib.Data.Nat.Find

/-!
# Family labels

What a font is called does not matter to the label that it is given. The label its name suggests has
at least one code point and only ASCII letters, digits, hyphens and underscores (`isLabel_label`),
and so has each of its numbered forms.

No two numbers give a label the same form (`numbered_injective`), so that taken labels can stand in
the way of as many forms only as there are taken labels. `freeLabel` therefore always comes to a
form that is free, and it is the first one (`exists_freeLabel`). Trying one form after the other for as
long as they are taken comes to an end for the same reason, and to the same form (`probe_eq`).
-/

namespace Folio

namespace Text

/-- The text can name a family: something is left of it, and only what labels keep. -/
def IsLabel (t : Text) : Prop := t ≠ [] ∧ ∀ c ∈ t, Font.isLabelPart c = true

instance (t : Text) : Decidable t.IsLabel := inferInstanceAs (Decidable (_ ∧ ∀ c ∈ t, _))

theorem IsLabel.append {t u : Text} (h : t.IsLabel) (hu : ∀ c ∈ u, Font.isLabelPart c = true) :
    (t ++ u).IsLabel := by
  refine ⟨fun hnil => h.1 (List.append_eq_nil_iff.mp hnil).1, fun c hc => ?_⟩
  rcases List.mem_append.mp hc with hc | hc
  · exact h.2 c hc
  · exact hu c hc

/-! ## Numbers -/

theorem isLabelPart_ofDigit : ∀ d < 10, Font.isLabelPart (ofDigit d) = true := by decide

theorem isLabelPart_ofNat (n : Nat) : ∀ c ∈ ofNat n, Font.isLabelPart c = true := by
  intro c hc
  obtain ⟨d, hd, rfl⟩ := List.mem_map.mp hc
  exact isLabelPart_ofDigit d (digits_lt n d hd)

theorem ofDigits_digits (n : Nat) : Nat.ofDigits 10 (digits n).reverse = n := by
  induction n using digits.induct with
  | case1 n h =>
    rw [digits, if_pos h]
    simp
  | case2 n h ih =>
    rw [digits, if_neg h, List.reverse_append, List.reverse_singleton, List.singleton_append,
      Nat.ofDigits_cons, ih]
    exact Nat.mod_add_div n 10

theorem val_ofDigit : ∀ d < 10, (ofDigit d).val - 0x30 = d := by decide

theorem map_val_ofNat (n : Nat) : (ofNat n).map (fun c => c.val - 0x30) = digits n := by
  rw [ofNat, List.map_map]
  exact (List.map_congr_left fun d hd => val_ofDigit d (digits_lt n d hd)).trans (List.map_id _)

/-- A number can be read back from its decimal digits. -/
theorem ofNat_injective {m n : Nat} (h : ofNat m = ofNat n) : m = n := by
  have hdigits : digits m = digits n := by rw [← map_val_ofNat m, h, map_val_ofNat n]
  rw [← ofDigits_digits m, hdigits, ofDigits_digits]

end Text

/-! ## The label of a font -/

namespace Font

open Text (IsLabel)

variable {α : Type}

theorem isLabelPart_of_mem_replaceRuns : ∀ (t : Text) (inRun : Bool), ∀ c ∈ replaceRuns inRun t,
    isLabelPart c = true := by
  intro t
  induction t with
  | nil => intro _ c hc; exact absurd hc List.not_mem_nil
  | cons d rest ih =>
    intro inRun c hc
    rw [replaceRuns] at hc
    split at hc
    next hpart =>
      rcases List.mem_cons.mp hc with rfl | hc
      · exact hpart
      · exact ih false c hc
    · split at hc
      · exact ih true c hc
      · rcases List.mem_cons.mp hc with rfl | hc
        · decide
        · exact ih true c hc

/-- The label that a font's name suggests is one, whatever the name is. -/
theorem isLabel_label (font : Font α) : IsLabel font.label := by
  unfold label
  extract_lets raw kept
  by_cases hkept : kept = []
  · rw [hkept]
    decide
  · have hfirst : firstNonempty [kept, Text.lit "font"] = kept := by
      rw [firstNonempty, if_neg (by simpa using hkept)]
      exact List.cons_ne_nil _ _
    rw [hfirst]
    exact ⟨hkept, fun c hc => isLabelPart_of_mem_replaceRuns _ _ c (mem_of_mem_trimWhile hc)⟩

end Font

/-! ## Numbered forms -/

namespace FontTable

open Text (IsLabel)

theorem numbered_of_ne_one {n : Nat} (h : n ≠ 1) (label : Text) :
    numbered label n = label ++ Text.lit "_" ++ Text.ofNat n := if_neg h

theorem isLabel_numbered {label : Text} (h : label.IsLabel) (n : Nat) :
    (numbered label n).IsLabel := by
  by_cases hn : n = 1
  · rw [hn]
    exact h
  · rw [numbered_of_ne_one hn]
    exact (h.append (by decide)).append (Text.isLabelPart_ofNat n)

/-- The form with a number is longer than the one without, and the numbers stand at the end. -/
theorem numbered_injective {label : Text} {m n : Nat} (h : numbered label m = numbered label n) :
    m = n := by
  have hlonger : ∀ k : Nat, label ≠ label ++ Text.lit "_" ++ Text.ofNat k := by
    intro k hk
    have hlength := congrArg List.length hk
    rw [List.length_append, List.length_append] at hlength
    have : (Text.lit "_").length = 1 := by decide
    omega
  by_cases hm : m = 1
  · by_cases hn : n = 1
    · rw [hm, hn]
    · rw [hm, numbered_of_ne_one hn] at h
      exact absurd h (hlonger n)
  · rw [numbered_of_ne_one hm] at h
    by_cases hn : n = 1
    · rw [hn] at h
      exact absurd h.symm (hlonger m)
    · rw [numbered_of_ne_one hn] at h
      exact Text.ofNat_injective (List.append_cancel_left h)

/-- Of as many forms as there are taken labels and one more, from any number on, one is free. -/
theorem exists_free (taken : List Text) (label : Text) (n : Nat) :
    ∃ m, n ≤ m ∧ m ≤ n + taken.length ∧ numbered label m ∉ taken := by
  by_contra hall
  have hforms : (List.range' n (taken.length + 1)).map (numbered label) ⊆ taken := by
    intro t ht
    obtain ⟨m, hm, rfl⟩ := List.mem_map.mp ht
    have hrange := List.mem_range'_1.mp hm
    by_contra hfree
    exact hall ⟨m, hrange.1, by omega, hfree⟩
  have hnodup : ((List.range' n (taken.length + 1)).map (numbered label)).Nodup :=
    List.Nodup.map (fun _ _ h => numbered_injective h) List.nodup_range'
  have hlength := (List.subperm_of_subset hnodup hforms).length_le
  rw [List.length_map, List.length_range'] at hlength
  omega

/-- `freeLabel` is the first form that is free. -/
theorem exists_freeLabel (taken : List Text) (label : Text) :
    ∃ n, 0 < n ∧ n ≤ taken.length + 1 ∧ freeLabel taken label = numbered label n
      ∧ numbered label n ∉ taken ∧ ∀ m, 0 < m → m < n → numbered label m ∈ taken := by
  unfold freeLabel
  rw [List.find?_map]
  cases hfind : (List.range (taken.length + 1)).find?
      ((fun candidate => !taken.contains candidate) ∘ fun i => numbered label (i + 1)) with
  | none =>
    obtain ⟨m, hpos, hm, hfree⟩ := exists_free taken label 1
    have htaken := List.find?_eq_none.mp hfind (m - 1) (List.mem_range.mpr (by omega))
    have hm' : m - 1 + 1 = m := by omega
    simp only [Function.comp_apply, hm', Bool.not_eq_true', Bool.not_eq_false,
      List.contains_iff_mem] at htaken
    exact absurd htaken hfree
  | some i =>
    obtain ⟨hfree, hrange, hbefore⟩ := List.find?_range_eq_some.mp hfind
    have hfree' : numbered label (i + 1) ∉ taken := by simpa using hfree
    refine ⟨i + 1, i.succ_pos, List.mem_range.mp hrange, rfl, hfree', fun m hpos hm => ?_⟩
    have htaken := hbefore (m - 1) (by omega)
    have hm' : m - 1 + 1 = m := by omega
    simpa [hm'] using htaken

theorem isLabel_freeLabel {label : Text} (h : label.IsLabel) (taken : List Text) :
    (freeLabel taken label).IsLabel := by
  obtain ⟨n, -, -, hform, -⟩ := exists_freeLabel taken label
  rw [hform]
  exact isLabel_numbered h n

theorem freeLabel_not_mem (taken : List Text) (label : Text) : freeLabel taken label ∉ taken := by
  obtain ⟨n, -, -, hform, hfree, -⟩ := exists_freeLabel taken label
  rw [hform]
  exact hfree

/-! ## Trying one form after the other -/

/-- The first number from `n` on whose form is free. -/
def nextFree (taken : List Text) (label : Text) (n : Nat) : Nat :=
  Nat.find (p := fun m => n ≤ m ∧ numbered label m ∉ taken)
    ((exists_free taken label n).imp fun _ h => ⟨h.1, h.2.2⟩)

theorem nextFree_spec (taken : List Text) (label : Text) (n : Nat) :
    n ≤ nextFree taken label n ∧ numbered label (nextFree taken label n) ∉ taken :=
  Nat.find_spec (p := fun m => n ≤ m ∧ numbered label m ∉ taken) _

theorem nextFree_le {taken : List Text} {label : Text} {m n : Nat} (h : n ≤ m)
    (hfree : numbered label m ∉ taken) : nextFree taken label n ≤ m :=
  Nat.find_min' _ ⟨h, hfree⟩

theorem nextFree_of_free {taken : List Text} {label : Text} {n : Nat}
    (h : numbered label n ∉ taken) : nextFree taken label n = n :=
  le_antisymm (nextFree_le le_rfl h) (nextFree_spec taken label n).1

theorem nextFree_of_taken {taken : List Text} {label : Text} {n : Nat}
    (h : numbered label n ∈ taken) :
    nextFree taken label (n + 1) = nextFree taken label n ∧ n < nextFree taken label n := by
  obtain ⟨hle, hfree⟩ := nextFree_spec taken label n
  have hne : n ≠ nextFree taken label n := by
    intro heq
    rw [← heq] at hfree
    exact hfree h
  have hlt : n < nextFree taken label n := lt_of_le_of_ne hle hne
  obtain ⟨hle', hfree'⟩ := nextFree_spec taken label (n + 1)
  exact ⟨le_antisymm (nextFree_le hlt hfree) (nextFree_le (by omega) hfree'), hlt⟩

/-- Goes on to the next form while forms are taken; each step is one towards a form that is free. -/
def probe (taken : List Text) (label : Text) (n : Nat) : Text :=
  if numbered label n ∈ taken then probe taken label (n + 1) else numbered label n
termination_by nextFree taken label n - n
decreasing_by
  have hstep := nextFree_of_taken (by assumption : numbered label n ∈ taken)
  omega

theorem probe_eq_nextFree (taken : List Text) (label : Text) (n : Nat) :
    probe taken label n = numbered label (nextFree taken label n) := by
  induction n using probe.induct taken label with
  | case1 n htaken ih => rw [probe, if_pos htaken, ih, (nextFree_of_taken htaken).1]
  | case2 n hfree => rw [probe, if_neg hfree, nextFree_of_free hfree]

/-- The loop ends at the form that `freeLabel` names. -/
theorem probe_eq (taken : List Text) (label : Text) :
    probe taken label 1 = freeLabel taken label := by
  obtain ⟨n, hpos, -, hform, hfree, hbefore⟩ := exists_freeLabel taken label
  have hnext : nextFree taken label 1 = n := by
    refine le_antisymm (nextFree_le hpos hfree) (not_lt.mp fun hlt => ?_)
    obtain ⟨hpos', hfree'⟩ := nextFree_spec taken label 1
    exact hfree' (hbefore _ hpos' hlt)
  rw [probe_eq_nextFree, hnext, hform]

end FontTable

end Folio
