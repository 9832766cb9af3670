import Folio.Proofs.Decimal.Rounding
import Folio.Proofs.Font.Label
import Folio.Scalar
import Mathlib.Data.List.TakeWhile

/-!
# How lengths are written

A length is written as the thousandth that it rounds to, in the one way that leaves nothing out and
puts nothing in: no zero in front of another digit or at the end of the decimals, no point without
decimals, no sign on zero (`Written.IsCanonical`). Reading such a text as a numeral gives its value
back (`Written.readBack?_text`), so the text and the thousandth determine each other. Writing all three
decimals and trimming them comes to the same text (`thousandths_eq_trimmed`).

`thousandths_canonical` puts this together for two lengths of any coordinates, whatever their size.
-/

namespace Folio.Decimal

open Text (lit ofDigit)

/-! ## Digits -/

theorem length_lastDigits (places : Nat) : ∀ n, (lastDigits n places).length = places := by
  induction places with
  | zero => exact fun _ => rfl
  | succ places ih =>
    intro n
    rw [lastDigits, List.length_append, ih, List.length_singleton]

theorem ofDigits_lastDigits (places : Nat) : ∀ n,
    Nat.ofDigits 10 (lastDigits n places).reverse = n % 10 ^ places := by
  induction places with
  | zero => exact fun n => (Nat.mod_one n).symm
  | succ places ih =>
    intro n
    rw [lastDigits, List.reverse_append, List.reverse_singleton, List.singleton_append,
      Nat.ofDigits_cons, ih, pow_succ', Nat.mod_mul]

/-- Only zeros are trimmed. -/
theorem exists_trimZeros (digits : List Nat) :
    ∃ zeros, digits = trimZeros digits ++ List.replicate zeros 0 := by
  have hzeros : digits.reverse.takeWhile (· == 0)
      = List.replicate (digits.reverse.takeWhile (· == 0)).length 0 :=
    List.eq_replicate_of_mem fun d hd => by simpa using List.mem_takeWhile_imp hd
  refine ⟨(digits.reverse.takeWhile (· == 0)).length, ?_⟩
  rw [trimZeros, ← List.reverse_replicate, ← hzeros, ← List.reverse_append,
    List.takeWhile_append_dropWhile, List.reverse_reverse]

theorem getLast?_trimZeros (digits : List Nat) : (trimZeros digits).getLast? ≠ some 0 := by
  rw [trimZeros, List.getLast?_reverse]
  intro h
  have hnot := List.head?_dropWhile_not (· == 0) digits.reverse
  rw [h] at hnot
  exact absurd hnot (by decide)

theorem digits_ne_nil (n : Nat) : Text.digits n ≠ [] := by
  rw [Text.digits]
  split
  · exact List.cons_ne_nil _ _
  · exact List.append_ne_nil_of_right_ne_nil _ (List.cons_ne_nil _ _)

/-- A number that is written with a zero in front is zero. -/
theorem eq_zero_of_head?_digits {n : Nat} (h : (Text.digits n).head? = some 0) : n = 0 := by
  induction n using Text.digits.induct with
  | case1 n hn =>
    rw [Text.digits, if_pos hn] at h
    exact Option.some.inj h
  | case2 n hn ih =>
    rw [Text.digits, if_neg hn, List.head?_append_of_ne_nil _ (digits_ne_nil _)] at h
    have hzero := ih h
    omega

/-! ## Numbers as they are written -/

/-- A sign, the digits in front of the point and those behind it. -/
structure Written where
  negative : Bool
  whole : List Nat
  decimals : List Nat
  deriving DecidableEq, Repr

namespace Written

/-- The text has a point only if there are decimals. -/
def text (w : Written) : Text :=
  (if w.negative then lit "-" else []) ++ w.whole.map ofDigit
    ++ (if w.decimals = [] then [] else lit "." ++ w.decimals.map ofDigit)

def value (w : Written) : ℚ :=
  (if w.negative then -1 else 1) * (Nat.ofDigits 10 (w.whole ++ w.decimals).reverse : Nat)
    / 10 ^ w.decimals.length

/-- Nothing in the text can be left out, and there are three decimals at most. -/
structure IsCanonical (w : Written) : Prop where
  digits : ∀ d ∈ w.whole ++ w.decimals, d < 10
  whole : w.whole ≠ []
  leading : w.whole.head? = some 0 → w.whole = [0]
  places : w.decimals.length ≤ 3
  trailing : w.decimals.getLast? ≠ some 0
  signed : w.negative = true → ∃ d ∈ w.whole ++ w.decimals, d ≠ 0

/-- So many thousandths. -/
def ofThousandths (k : ℤ) : Written where
  negative := decide (k < 0)
  whole := Text.digits (k.natAbs / 1000)
  decimals := trimZeros (lastDigits k.natAbs 3)

/-- The zeros trimmed are those that the three decimals end with, so the digits that are left and as
many powers of ten make the number of thousandths. -/
theorem exists_zeros (n : Nat) : ∃ zeros, (trimZeros (lastDigits n 3)).length + zeros = 3
    ∧ Nat.ofDigits 10 (Text.digits (n / 1000) ++ trimZeros (lastDigits n 3)).reverse * 10 ^ zeros
      = n := by
  obtain ⟨zeros, hzeros⟩ := exists_trimZeros (lastDigits n 3)
  have hlength := congrArg List.length hzeros
  rw [length_lastDigits, List.length_append, List.length_replicate] at hlength
  refine ⟨zeros, hlength.symm, ?_⟩
  have hall : Nat.ofDigits 10 (Text.digits (n / 1000) ++ lastDigits n 3).reverse = n := by
    rw [List.reverse_append, Nat.ofDigits_append, ofDigits_lastDigits, List.length_reverse,
      length_lastDigits, Text.ofDigits_digits]
    exact Nat.mod_add_div n 1000
  have hsplit : Nat.ofDigits 10 (Text.digits (n / 1000) ++ lastDigits n 3).reverse
      = Nat.ofDigits 10 (Text.digits (n / 1000) ++ trimZeros (lastDigits n 3)).reverse
        * 10 ^ zeros := by
    conv_lhs => rw [hzeros, ← List.append_assoc, List.reverse_append, List.reverse_replicate]
    rw [Nat.ofDigits_append, Nat.ofDigits_replicate_zero, List.length_replicate, zero_add,
      mul_comm]
  rw [← hsplit, hall]

theorem value_ofThousandths (k : ℤ) : (ofThousandths k).value = k / 1000 := by
  obtain ⟨zeros, hlength, hnumber⟩ := exists_zeros k.natAbs
  have hsigned : (if decide (k < 0) = true then -1 else 1 : ℚ) * (k.natAbs : ℚ) = k := by
    rcases lt_or_ge k 0 with hneg | hpos
    · rw [if_pos (by simpa using hneg), Nat.cast_natAbs, abs_of_neg hneg]
      push_cast
      ring
    · rw [if_neg (by simpa using hpos), Nat.cast_natAbs, abs_of_nonneg hpos, one_mul]
  have hthousand : (1000 : ℚ) = 10 ^ (trimZeros (lastDigits k.natAbs 3)).length * 10 ^ zeros := by
    rw [← pow_add, hlength]
    norm_num
  have hnumber' : ((Nat.ofDigits 10 (Text.digits (k.natAbs / 1000)
      ++ trimZeros (lastDigits k.natAbs 3)).reverse : Nat) : ℚ) * 10 ^ zeros = k.natAbs := by
    exact_mod_cast hnumber
  rw [← hsigned, hthousand, ← hnumber', ← mul_assoc, mul_div_mul_right _ _ (by positivity)]
  rfl

theorem isCanonical_ofThousandths (k : ℤ) : (ofThousandths k).IsCanonical where
  digits := by
    intro d hd
    rcases List.mem_append.mp hd with hd | hd
    · exact Text.digits_lt _ d hd
    · exact lastDigits_lt 3 _ d (mem_of_mem_trimZeros hd)
  whole := digits_ne_nil _
  leading := by
    intro hhead
    show Text.digits _ = [0]
    rw [eq_zero_of_head?_digits hhead, Text.digits, if_pos (by decide)]
  places := by
    obtain ⟨zeros, hlength, -⟩ := exists_zeros k.natAbs
    show (trimZeros (lastDigits k.natAbs 3)).length ≤ 3
    omega
  trailing := getLast?_trimZeros _
  signed := by
    intro hneg
    by_contra hall
    have hzero : (ofThousandths k).value = 0 := by
      have hdigits : (ofThousandths k).whole ++ (ofThousandths k).decimals
          = List.replicate _ 0 := List.eq_replicate_of_mem fun d hd => by
        by_contra hne
        exact hall ⟨d, hd, hne⟩
      rw [value, hdigits, List.reverse_replicate, Nat.ofDigits_replicate_zero, Nat.cast_zero,
        mul_zero, zero_div]
    rw [value_ofThousandths, div_eq_zero_iff, Int.cast_eq_zero] at hzero
    have hk : k = 0 := hzero.resolve_right (by norm_num)
    exact absurd (of_decide_eq_true hneg) (by omega)

end Written

/-! ## Reading back -/

/-- The rational number that a numeral writes. -/
def Numeral.rational? : Numeral → Option ℚ
  | decimal negative mantissa exponent =>
    some ((if negative then -1 else 1) * mantissa * 10 ^ exponent)
  | _ => none

/-- The rational number that a text is the numeral of. -/
def readBack? (t : Text) : Option ℚ := (Numeral.read? t).bind Numeral.rational?

namespace Numeral

theorem valueOf_concat (t : Text) (c : CodePoint) :
    valueOf (t ++ [c]) = 10 * valueOf t + (c.val - 0x30) := List.foldl_append

theorem valueOf_digits {ds : List Nat} (h : ∀ d ∈ ds, d < 10) :
    valueOf (ds.map ofDigit) = Nat.ofDigits 10 ds.reverse := by
  induction ds using List.reverseRecOn with
  | nil => rfl
  | append_singleton ds d ih =>
    rw [List.forall_mem_append, List.forall_mem_singleton] at h
    rw [List.map_append, List.map_singleton, valueOf_concat, ih h.1, Text.val_ofDigit d h.2,
      List.reverse_append, List.reverse_singleton, List.singleton_append, Nat.ofDigits_cons,
      add_comm]

theorem dropUnderscores_of_not_mem {t : Text} (h : CodePoint.ofChar '_' ∉ t) :
    ∀ afterDigit, dropUnderscores afterDigit t = some t := by
  induction t with
  | nil => exact fun _ => rfl
  | cons c t ih =>
    intro afterDigit
    rw [List.mem_cons, not_or] at h
    simp only [dropUnderscores, if_neg (Ne.symm h.1), ih h.2, Option.map_some]

/-- What finite numbers are written with: no letter, and so no exponent. -/
def figures : Text := lit "0123456789-."

theorem ofDigit_mem_figures : ∀ d < 10, ofDigit d ∈ figures := by decide

theorem map_ofDigit_subset_figures {ds : List Nat} (h : ∀ d ∈ ds, d < 10) :
    ds.map ofDigit ⊆ figures := by
  intro c hc
  obtain ⟨d, hd, rfl⟩ := List.mem_map.mp hc
  exact ofDigit_mem_figures d (h d hd)

theorem of_mem_figures : ∀ c ∈ figures,
    normalise c = c ∧ isAsciiBlank c = false ∧ c ≠ CodePoint.ofChar '_' := by decide

theorem read?_of_subset {t : Text} (h : t ⊆ figures) : read? t = plain? t := by
  have hnormal : t.map normalise = t :=
    (List.map_congr_left fun c hc => (of_mem_figures c (h hc)).1).trans (List.map_id t)
  have htrim : Text.trimWhile isAsciiBlank t = t := by
    have hblank : ∀ c ∈ t, ¬isAsciiBlank c = true := fun c hc =>
      ne_true_of_eq_false (of_mem_figures c (h hc)).2.1
    have hfront : t.dropWhile isAsciiBlank = t :=
      List.dropWhile_eq_self_iff.mpr fun _ => hblank _ (List.getElem_mem _)
    have hback : t.reverse.dropWhile isAsciiBlank = t.reverse :=
      List.dropWhile_eq_self_iff.mpr fun _ => hblank _ (List.mem_reverse.mp (List.getElem_mem _))
    rw [Text.trimWhile, Text.trimEndWhile, hfront, hback, List.reverse_reverse]
  have hunderscore : CodePoint.ofChar '_' ∉ t := fun hmem => (of_mem_figures _ (h hmem)).2.2 rfl
  rw [read?, hnormal, htrim, dropUnderscores_of_not_mem hunderscore, Option.bind_some]

theorem isAsciiDigit_ofDigit : ∀ d < 10, (ofDigit d).isAsciiDigit = true := by decide

theorem all_isAsciiDigit {ds : List Nat} (h : ∀ d ∈ ds, d < 10) :
    ∀ c ∈ ds.map ofDigit, c.isAsciiDigit = true := by
  intro c hc
  obtain ⟨d, hd, rfl⟩ := List.mem_map.mp hc
  exact isAsciiDigit_ofDigit d (h d hd)

theorem takeWhile_digits {ds : List Nat} (h : ∀ d ∈ ds, d < 10) :
    (ds.map ofDigit).takeWhile CodePoint.isAsciiDigit = ds.map ofDigit :=
  List.takeWhile_eq_self_iff.mpr (all_isAsciiDigit h)

theorem dropWhile_digits {ds : List Nat} (h : ∀ d ∈ ds, d < 10) :
    (ds.map ofDigit).dropWhile CodePoint.isAsciiDigit = [] :=
  List.dropWhile_eq_nil_iff.mpr (all_isAsciiDigit h)

/-- A digit is neither a sign nor one of the letters that words begin with. -/
theorem of_ofDigit : ∀ d < 10, ofDigit d ≠ CodePoint.ofChar '-' ∧ ofDigit d ≠ CodePoint.ofChar '+'
    ∧ (ofDigit d).asciiLower ≠ CodePoint.ofChar 'i' ∧ (ofDigit d).asciiLower ≠ CodePoint.ofChar 'n'
    := by decide

end Numeral

namespace Written

open Numeral

/-- The point with the decimals, if there are any. -/
def point (decimals : List Nat) : Text :=
  if decimals = [] then [] else lit "." ++ decimals.map ofDigit

theorem text_subset {w : Written} (h : ∀ d ∈ w.whole ++ w.decimals, d < 10) :
    w.text ⊆ figures := by
  obtain ⟨hwhole, hdecimals⟩ := List.forall_mem_append.mp h
  refine List.append_subset.mpr ⟨List.append_subset.mpr ⟨?_, map_ofDigit_subset_figures hwhole⟩, ?_⟩
  · split
    · decide
    · exact List.nil_subset _
  · split
    · exact List.nil_subset _
    · exact List.append_subset.mpr ⟨by decide, map_ofDigit_subset_figures hdecimals⟩

/-- Digits with a point and decimals behind them are read as such. -/
theorem unsigned?_digits {whole decimals : List Nat} (hwhole : ∀ d ∈ whole, d < 10)
    (hdecimals : ∀ d ∈ decimals, d < 10) (hne : whole ≠ []) (negative : Bool) :
    unsigned? negative (whole.map ofDigit ++ point decimals)
      = some (.decimal negative (Nat.ofDigits 10 (whole ++ decimals).reverse)
          (-decimals.length)) := by
  have hpoint : (point decimals).takeWhile CodePoint.isAsciiDigit = []
      ∧ (point decimals).dropWhile CodePoint.isAsciiDigit = point decimals := by
    unfold point
    split <;> exact ⟨rfl, rfl⟩
  have hvalue : valueOf (whole.map ofDigit ++ decimals.map ofDigit)
      = Nat.ofDigits 10 (whole ++ decimals).reverse := by
    rw [← List.map_append]
    exact valueOf_digits (List.forall_mem_append.mpr ⟨hwhole, hdecimals⟩)
  have hempty : (whole.map ofDigit).isEmpty = false := by simpa using hne
  simp only [unsigned?, List.takeWhile_append_of_pos (all_isAsciiDigit hwhole),
    List.dropWhile_append_of_pos (all_isAsciiDigit hwhole), hpoint.1, hpoint.2, List.append_nil,
    hempty, Bool.false_and, Bool.false_eq_true, if_false]
  cases decimals with
  | nil =>
    simp only [List.map_nil, List.append_nil] at hvalue ⊢
    simp [point, exponent?, hvalue]
  | cons d decimals =>
    have hbehind : point (d :: decimals)
        = CodePoint.ofChar '.' :: (d :: decimals).map ofDigit := rfl
    simp only [hbehind, if_true, takeWhile_digits hdecimals, dropWhile_digits hdecimals, hvalue,
      exponent?, Option.map_some, List.length_map, zero_sub]

/-- The first digit tells a number from a word and from a sign. -/
theorem plain?_digits {whole decimals : List Nat} (hwhole : ∀ d ∈ whole, d < 10)
    (hdecimals : ∀ d ∈ decimals, d < 10) (hne : whole ≠ []) (negative : Bool) :
    plain? ((if negative then lit "-" else []) ++ (whole.map ofDigit ++ point decimals))
      = some (.decimal negative (Nat.ofDigits 10 (whole ++ decimals).reverse)
          (-decimals.length)) := by
  rw [← unsigned?_digits hwhole hdecimals hne]
  obtain ⟨d, rest, rfl⟩ := List.exists_cons_of_ne_nil hne
  obtain ⟨hminus, hplus, hi, hn⟩ := of_ofDigit d (hwhole d List.mem_cons_self)
  have hsign : splitSign ((if negative then lit "-" else [])
      ++ ((d :: rest).map ofDigit ++ point decimals))
        = (negative, (d :: rest).map ofDigit ++ point decimals) := by
    cases negative with
    | true => rfl
    | false =>
      rw [List.map_cons, List.cons_append, if_neg Bool.false_ne_true, List.nil_append, splitSign,
        if_neg hminus, if_neg hplus]
  have hword : ∀ word : Text, Text.asciiLower ((d :: rest).map ofDigit ++ point decimals) = word →
      word.head? = some (ofDigit d).asciiLower := by
    rintro word rfl
    rfl
  have hinf : Text.asciiLower ((d :: rest).map ofDigit ++ point decimals) ≠ lit "inf" :=
    fun h => hi (Option.some.inj (hword _ h)).symm
  have hinfinity : Text.asciiLower ((d :: rest).map ofDigit ++ point decimals) ≠ lit "infinity" :=
    fun h => hi (Option.some.inj (hword _ h)).symm
  have hnan : Text.asciiLower ((d :: rest).map ofDigit ++ point decimals) ≠ lit "nan" :=
    fun h => hn (Option.some.inj (hword _ h)).symm
  simp only [plain?, hsign, hinf, hinfinity, hnan, decide_false, Bool.or_self, Bool.false_eq_true,
    if_false]

theorem readBack?_text {w : Written} (h : w.IsCanonical) : readBack? w.text = some w.value := by
  obtain ⟨hwhole, hdecimals⟩ := List.forall_mem_append.mp h.digits
  have hplain := plain?_digits hwhole hdecimals h.whole w.negative
  rw [← List.append_assoc] at hplain
  rw [readBack?, read?_of_subset (text_subset h.digits)]
  refine (congrArg (Option.bind · Numeral.rational?) hplain).trans ?_
  rw [Option.bind_some, rational?, value, zpow_neg, zpow_natCast, div_eq_mul_inv]

end Written

/-! ## Lengths -/

theorem fraction_eq_point (decimals : List Nat) : fraction decimals = Written.point decimals := by
  cases decimals <;> rfl

/-- A finite value goes to a thousandth, and is written as that. -/
theorem exists_thousandth {x : Exact} {v : ℚ} (hx : x.rational? = some v) :
    ∃ k : ℤ, IsRounded (1000 * v) k ∧ thousandths x = (Written.ofThousandths k).text := by
  cases x with
  | infinite negative => cases hx
  | undefined => cases hx
  | finite negative num den hden =>
    have hrounded := Exact.isRounded_roundHalfEven (num * 1000) hden
    have hscaled : ((num * 1000 : Nat) : ℚ) / den = 1000 * (num / den) := by
      push_cast
      ring
    rw [hscaled] at hrounded
    obtain rfl := Option.some.inj hx
    generalize hn : Exact.roundHalfEven (num * 1000) den = n at hrounded
    cases negative with
    | false =>
      refine ⟨n, by simpa using hrounded, ?_⟩
      simp only [thousandths, hn, fraction_eq_point]
      rfl
    | true =>
      refine ⟨-n, by simpa using hrounded.neg, ?_⟩
      have hnegative : decide (-(n : ℤ) < 0) = (true && n != 0) := by
        rw [Bool.true_and, Bool.eq_iff_iff, decide_eq_true_iff, bne_iff_ne]
        omega
      simp only [thousandths, hn, fraction_eq_point, Written.text, Written.ofThousandths,
        hnegative, Int.natAbs_neg, Int.natAbs_natCast]
      rfl

theorem thousandths_of_isRounded {x : Exact} {v : ℚ} {k : ℤ} (hx : x.rational? = some v)
    (hk : IsRounded (1000 * v) k) : thousandths x = (Written.ofThousandths k).text := by
  obtain ⟨l, hl, htext⟩ := exists_thousandth hx
  rw [htext, hl.unique hk]

theorem readBack?_ofThousandths (k : ℤ) :
    readBack? (Written.ofThousandths k).text = some (k / 1000 : ℚ) := by
  rw [Written.readBack?_text (Written.isCanonical_ofThousandths k), Written.value_ofThousandths]

theorem text_ofThousandths_inj {k l : ℤ} :
    (Written.ofThousandths k).text = (Written.ofThousandths l).text ↔ k = l := by
  refine ⟨fun h => ?_, fun h => h ▸ rfl⟩
  have hread := readBack?_ofThousandths k
  rw [h, readBack?_ofThousandths, Option.some.injEq, div_left_inj' (by norm_num)] at hread
  exact_mod_cast hread.symm

theorem text_ofThousandths_ne_nil (k : ℤ) : (Written.ofThousandths k).text ≠ [] := by
  intro hnil
  have hread := readBack?_ofThousandths k
  rw [hnil] at hread
  cases hread

/-- No thousandth is written as a zero with a sign. -/
theorem text_ofThousandths_ne (k : ℤ) : (Written.ofThousandths k).text ≠ lit "-0" := by
  intro h
  have hread := readBack?_ofThousandths k
  have hzero : readBack? (lit "-0") = some 0 := by
    rw [readBack?, show Numeral.read? (lit "-0") = some (.decimal true 0 0) by decide]
    simp [Numeral.rational?]
  rw [h, hzero, Option.some.injEq, eq_comm, div_eq_zero_iff, Int.cast_eq_zero] at hread
  rw [hread.resolve_right (by norm_num)] at h
  exact absurd h (by decide +kernel)

/-! ## Three decimals, trimmed -/

theorem trimEndWhile_append {p : CodePoint → Bool} {t u : Text} {c : CodePoint}
    (hlast : t.getLast? = some c) (hc : p c = false) (hu : ∀ c ∈ u, p c = true) :
    Text.trimEndWhile p (t ++ u) = t := by
  have hend : ∀ c ∈ u.reverse, p c = true := fun c hc => hu c (List.mem_reverse.mp hc)
  rw [← List.head?_reverse, List.head?_eq_some_iff] at hlast
  obtain ⟨more, hmore⟩ := hlast
  rw [Text.trimEndWhile, List.reverse_append, List.dropWhile_append_of_pos hend, hmore,
    List.dropWhile_cons_of_neg (ne_true_of_eq_false hc), ← hmore, List.reverse_reverse]

theorem trimEndWhile_of_getLast? {p : CodePoint → Bool} {t : Text} {c : CodePoint}
    (hlast : t.getLast? = some c) (hc : p c = false) : Text.trimEndWhile p t = t := by
  have hkept := trimEndWhile_append hlast hc (List.forall_mem_nil _)
  rwa [List.append_nil] at hkept

theorem ofDigit_ne_zero : ∀ d < 10, d ≠ 0 → ofDigit d ≠ CodePoint.ofChar '0' := by decide

theorem ofDigit_ne_point : ∀ d < 10, ofDigit d ≠ CodePoint.ofChar '.' := by decide

/-- Digits end in the last of them, whatever is written in front. -/
theorem getLast?_map_ofDigit (t : Text) {ds before : List Nat} {d : Nat} (h : ds = before ++ [d]) :
    (t ++ ds.map ofDigit).getLast? = some (ofDigit d) := by
  rw [h, List.map_append, List.map_singleton, ← List.append_assoc, List.getLast?_concat]

/-- A text without the zeros at its end, and then without the points there; what has become empty or
a zero with a sign is put right. -/
def trimmed (t : Text) : Text :=
  let cut := Text.trimEndWhile (· = CodePoint.ofChar '.')
    (Text.trimEndWhile (· = CodePoint.ofChar '0') t)
  if cut = lit "-0" ∨ cut = [] then lit "0" else cut

/-- The zeros that the decimals end with are cut off, and the point if there is nothing else. -/
theorem trimEndWhile_fraction {whole : Text} {c : CodePoint} (hlast : whole.getLast? = some c)
    (hc : c ≠ CodePoint.ofChar '.') {decimals : List Nat} (hdigits : ∀ d ∈ decimals, d < 10)
    (hsome : decimals ≠ []) :
    Text.trimEndWhile (· = CodePoint.ofChar '.')
        (Text.trimEndWhile (· = CodePoint.ofChar '0') (whole ++ fraction decimals))
      = whole ++ fraction (trimZeros decimals) := by
  obtain ⟨zeros, hzeros⟩ := exists_trimZeros decimals
  have hsplit : whole ++ fraction decimals
      = (whole ++ lit "." ++ (trimZeros decimals).map ofDigit)
        ++ List.replicate zeros (CodePoint.ofChar '0') := by
    rw [fraction, if_neg (by simpa using hsome)]
    conv_lhs => rw [hzeros]
    simp only [List.map_append, List.map_replicate, List.append_assoc]
    rfl
  have hall : ∀ c ∈ List.replicate zeros (CodePoint.ofChar '0'),
      decide (c = CodePoint.ofChar '0') = true :=
    fun c hc => decide_eq_true (List.eq_of_mem_replicate hc)
  rw [hsplit]
  -- The last digit that is left stops both; without one the point is what stops the zeros.
  rcases List.eq_nil_or_concat' (trimZeros decimals) with hnil | ⟨before, d, hconcat⟩
  · have hpoint : (whole ++ lit ".").getLast? = some (CodePoint.ofChar '.') := List.getLast?_concat
    rw [hnil, List.map_nil, List.append_nil, trimEndWhile_append hpoint (by decide) hall,
      trimEndWhile_append hlast (decide_eq_false hc) (by decide)]
    exact (List.append_nil whole).symm
  · have hmem : d ∈ trimZeros decimals := hconcat ▸ List.mem_concat_self
    have hd : d < 10 := hdigits d (mem_of_mem_trimZeros hmem)
    have hnonzero : d ≠ 0 := by
      rintro rfl
      exact getLast?_trimZeros decimals (by rw [hconcat, List.getLast?_concat])
    have hend := getLast?_map_ofDigit (whole ++ lit ".") hconcat
    rw [trimEndWhile_append hend (decide_eq_false (ofDigit_ne_zero d hd hnonzero)) hall,
      trimEndWhile_of_getLast? hend (decide_eq_false (ofDigit_ne_point d hd)), fraction,
      if_neg (by simpa using List.ne_nil_of_mem hmem), List.append_assoc]

/-- What is written is the value with three decimals, trimmed. -/
theorem thousandths_eq_trimmed (x : Exact) : thousandths x = trimmed (fixed 3 x) := by
  rcases x with ⟨negative, num, den, hden⟩ | negative | _
  · generalize hn : Exact.roundHalfEven (num * 1000) den = n
    have hfixed : fixed 3 (.finite negative num den hden)
        = sign negative ++ (Text.digits (n / 1000)).map ofDigit ++ fraction (lastDigits n 3) := by
      rw [← hn]
      rfl
    have hwritten : thousandths (.finite negative num den hden)
        = sign (negative && n != 0) ++ (Text.digits (n / 1000)).map ofDigit
          ++ fraction (trimZeros (lastDigits n 3)) := by
      rw [← hn]
      rfl
    -- A negative value that rounds to zero is all that has to be put right.
    by_cases hzero : negative = true ∧ n = 0
    · obtain ⟨rfl, rfl⟩ := hzero
      rw [hwritten, hfixed]
      decide +kernel
    · obtain ⟨before, d, hdigits⟩ :=
        (List.eq_nil_or_concat' (Text.digits (n / 1000))).resolve_left (digits_ne_nil _)
      have hd : d < 10 := Text.digits_lt _ d (hdigits ▸ List.mem_concat_self)
      have hcut := trimEndWhile_fraction (getLast?_map_ofDigit (sign negative) hdigits)
        (ofDigit_ne_point d hd) (lastDigits_lt 3 n)
        (List.ne_nil_of_length_pos (by rw [length_lastDigits]; decide))
      have hsign : (negative && n != 0) = negative := by
        cases negative with
        | false => rfl
        | true => simpa using hzero
      rw [hsign] at hwritten
      obtain ⟨k, -, htext⟩ := exists_thousandth
        (show (Exact.finite negative num den hden).rational? = some _ from rfl)
      rw [← hwritten, htext] at hcut
      rw [htext, hfixed, trimmed, hcut,
        if_neg (not_or.mpr ⟨text_ofThousandths_ne k, text_ofThousandths_ne_nil k⟩)]
  · revert negative; decide
  · decide

/-! ## Two lengths -/

/-- A finite length is written canonically, as the one thousandth that it rounds to. Two of them
have one text exactly if they round to the same thousandth, and thousandths are in the order of the
lengths. What is read back is written as it was read. -/
theorem thousandths_canonical {α : Type} [Scalar α] {a b : α} {v w : ℚ}
    (ha : (Scalar.exact a).rational? = some v) (hb : (Scalar.exact b).rational? = some w) :
    ∃ k l : ℤ, (∀ m, IsRounded (1000 * v) m ↔ m = k) ∧ (∀ m, IsRounded (1000 * w) m ↔ m = l)
      ∧ (∃ written : Written, written.IsCanonical ∧ Scalar.thousandths a = written.text)
      ∧ Scalar.thousandths a ≠ [] ∧ Scalar.thousandths a ≠ lit "-0"
      ∧ Scalar.thousandths a ⊆ lit "0123456789-."
      ∧ readBack? (Scalar.thousandths a) = some (k / 1000 : ℚ)
      ∧ readBack? (Scalar.thousandths b) = some (l / 1000 : ℚ)
      ∧ (Scalar.thousandths a = Scalar.thousandths b ↔ k = l)
      ∧ (v ≤ w → (k / 1000 : ℚ) ≤ l / 1000)
      ∧ ∀ x : Exact, x.rational? = some (k / 1000 : ℚ) → thousandths x = Scalar.thousandths a := by
  obtain ⟨k, hk, htext⟩ := exists_thousandth ha
  obtain ⟨l, hl, htext'⟩ := exists_thousandth hb
  have hcanonical := Written.isCanonical_ofThousandths k
  have hread := readBack?_ofThousandths k
  refine ⟨k, l, fun _ => hk.iff_eq, fun _ => hl.iff_eq, ?_⟩
  unfold Scalar.thousandths
  rw [htext, htext']
  refine ⟨⟨_, hcanonical, rfl⟩, text_ofThousandths_ne_nil k, text_ofThousandths_ne k,
    Written.text_subset hcanonical.digits, hread, readBack?_ofThousandths l,
    text_ofThousandths_inj, fun hle => ?_, fun x hx => ?_⟩
  · have hscaled : (1000 : ℚ) * v ≤ 1000 * w := by linarith
    have hkl : (k : ℚ) ≤ l := by exact_mod_cast hk.mono hl hscaled
    linarith
  · refine thousandths_of_isRounded hx ?_
    rw [mul_div_cancel₀ _ (by norm_num)]
    exact .intCast k

/-- A sixteenth lies just between two thousandths and goes down to the even one. -/
theorem thousandths_canonical_sixteenth :
    (Scalar.exact (0.0625 : Float)).rational? = some (1 / 16)
      ∧ Scalar.thousandths (0.0625 : Float) = lit "0.062"
      ∧ ∃ k : ℤ, (∀ m, IsRounded (1000 * (1 / 16)) m ↔ m = k)
        ∧ readBack? (lit "0.062") = some (k / 1000 : ℚ) := by
  have hexact : Scalar.exact (0.0625 : Float)
      = .finite false (2 ^ 52) (2 ^ 56) (by decide) := by decide +kernel
  have hvalue : (Scalar.exact (0.0625 : Float)).rational? = some (1 / 16) := by
    rw [hexact, Exact.rational?]
    norm_num
  have htext : Scalar.thousandths (0.0625 : Float) = lit "0.062" := by decide +kernel
  obtain ⟨k, -, hk, -, -, -, -, -, hread, -⟩ := thousandths_canonical hvalue hvalue
  rw [htext] at hread
  exact ⟨hvalue, htext, k, hk, hread⟩

end Folio.Decimal
