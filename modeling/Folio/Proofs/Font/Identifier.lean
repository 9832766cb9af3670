import Folio.Proofs.Font.Table
import Mathlib.Data.List.TakeWhile

/-!
# Labels as names in style sheets

A family is written into style sheets without quotes, so its label should be a name there: one that
starts with a letter or an underscore, in front of which a hyphen may stand, or with two hyphens
(`Text.IsIdentifier`). A label has the right code points, but nothing looks at what it starts with.

What it starts with is decided by what the font's name holds behind everything that is an underscore
or becomes one (`Font.stem`), for that is all the label begins with, and a number behind it does not
change it. `family_isIdentifier_iff` says exactly which stems come out as names: those that start
neither with a digit nor with a hyphen and a digit, and a lone hyphen unless it is still free.
-/

namespace Folio

namespace Text

/-- A code point that a name may start with. -/
def startsName (c : CodePoint) : Bool :=
  c.isAsciiUpper || c.isAsciiLower || c = CodePoint.ofChar '_'

/-- How a name in a style sheet may start. -/
def StartsIdentifier : Text → Prop
  | [] => False
  | [c] => startsName c = true
  | c :: d :: _ => startsName c = true
    ∨ c = CodePoint.ofChar '-' ∧ (startsName d = true ∨ d = CodePoint.ofChar '-')

/-- A name in a style sheet that is written in ASCII and without escapes. -/
def IsIdentifier (t : Text) : Prop :=
  (∀ c ∈ t, startsName c || c.isAsciiDigit || c = CodePoint.ofChar '-') ∧ StartsIdentifier t

/-- The text starts with a digit, or with a hyphen and a digit. -/
def StartsWithDigit : Text → Prop
  | [] => False
  | c :: rest => c.isAsciiDigit = true
    ∨ c = CodePoint.ofChar '-' ∧ rest.head?.any CodePoint.isAsciiDigit = true

instance : DecidablePred StartsIdentifier
  | [] => inferInstanceAs (Decidable False)
  | [_] => inferInstanceAs (Decidable (_ = true))
  | _ :: _ :: _ => inferInstanceAs (Decidable (_ ∨ _ ∧ (_ ∨ _)))

instance (t : Text) : Decidable t.IsIdentifier :=
  inferInstanceAs (Decidable ((∀ c ∈ t, _) ∧ t.StartsIdentifier))

instance : DecidablePred StartsWithDigit
  | [] => inferInstanceAs (Decidable False)
  | _ :: _ => inferInstanceAs (Decidable (_ ∨ _ ∧ _))

/-- What labels keep are the code points of names. -/
theorem isLabelPart_iff (c : CodePoint) : Font.isLabelPart c = true
    ↔ startsName c = true ∨ c.isAsciiDigit = true ∨ c = CodePoint.ofChar '-' := by
  simp only [Font.isLabelPart, startsName, Bool.or_eq_true, decide_eq_true_eq]
  tauto

theorem not_isAsciiDigit_of_startsName {c : CodePoint} (h : startsName c = true) :
    c.isAsciiDigit = false := by
  cases hdigit : c.isAsciiDigit with
  | false => rfl
  | true =>
    simp only [CodePoint.isAsciiDigit, Bool.and_eq_true, decide_eq_true_eq] at hdigit
    simp only [startsName, CodePoint.isAsciiUpper, CodePoint.isAsciiLower, Bool.or_eq_true,
      Bool.and_eq_true, decide_eq_true_eq] at h
    rcases h with (h | h) | rfl
    · omega
    · omega
    · exact absurd hdigit (by decide)

theorem startsName_iff {c : CodePoint} (h : Font.isLabelPart c = true) :
    startsName c = true ↔ c.isAsciiDigit = false ∧ c ≠ CodePoint.ofChar '-' := by
  constructor
  · intro hname
    refine ⟨not_isAsciiDigit_of_startsName hname, ?_⟩
    rintro rfl
    exact absurd hname (by decide)
  · rintro ⟨hdigit, hhyphen⟩
    rcases (isLabelPart_iff c).mp h with hname | hdigit' | rfl
    · exact hname
    · rw [hdigit] at hdigit'
      exact absurd hdigit' Bool.false_ne_true
    · exact absurd rfl hhyphen

/-- A label is a name unless it starts with a digit or with a hyphen that no name goes on from. -/
theorem IsLabel.isIdentifier_iff {t : Text} (h : t.IsLabel) :
    t.IsIdentifier ↔ ¬ t.StartsWithDigit ∧ t ≠ lit "-" := by
  have hparts : ∀ c ∈ t, (startsName c || c.isAsciiDigit || c = CodePoint.ofChar '-') = true := by
    intro c hc
    simpa [or_assoc] using (isLabelPart_iff c).mp (h.2 c hc)
  have hlone : lit "-" = [CodePoint.ofChar '-'] := rfl
  rw [IsIdentifier, and_iff_right hparts, hlone]
  match t, h with
  | [], h => exact absurd rfl h.1
  | [c], h =>
    have hc := startsName_iff (h.2 c List.mem_cons_self)
    simp [StartsIdentifier, StartsWithDigit, hc]
  | c :: d :: rest, h =>
    have hc := startsName_iff (h.2 c List.mem_cons_self)
    have hd := startsName_iff (h.2 d (List.mem_cons_of_mem _ List.mem_cons_self))
    have hhyphen : (CodePoint.ofChar '-').isAsciiDigit = false
        ∧ startsName (CodePoint.ofChar '-') = false := by decide
    by_cases hfirst : c = CodePoint.ofChar '-'
    · by_cases hsecond : d = CodePoint.ofChar '-'
      · simp [StartsIdentifier, StartsWithDigit, hfirst, hsecond, hhyphen]
      · simp [StartsIdentifier, StartsWithDigit, hd, hfirst, hsecond, hhyphen]
    · simp [StartsIdentifier, StartsWithDigit, hc, hfirst]

end Text

/-! ## What a label starts with -/

namespace Font

open Text (lit StartsWithDigit trimWhile trimEndWhile)

variable {α : Type}

/-- Whether a code point is an underscore in labels, or part of one. -/
def isFiller (c : CodePoint) : Bool := !isLabelPart c || c = CodePoint.ofChar '_'

/-- The name that a font's label is made from, without the tag of a subset. -/
def plainName (font : Font α) : Text :=
  withoutSubsetTag
    (firstNonempty [(font.baseFont.map bare).getD [], bare font.name, lit "font"])

/-- The font's name from the first code point on that its label does not leave out. -/
def stem (font : Font α) : Text := font.plainName.dropWhile isFiller

/-- Whether labels have an underscore there, and it is left out at either end. -/
def isUnderscore (c : CodePoint) : Bool := decide (c = CodePoint.ofChar '_')

theorem isFiller_eq_false {c : CodePoint} :
    isFiller c = false ↔ isLabelPart c = true ∧ isUnderscore c = false := by
  simp [isFiller, isUnderscore]

theorem replaceRuns_of_isLabelPart {c : CodePoint} (h : isLabelPart c = true) (t : Text)
    (inRun : Bool) : replaceRuns inRun (c :: t) = c :: replaceRuns false t := by
  rw [replaceRuns, if_pos h]

/-- Fillers at the start are left out, whether they stay underscores or become one. -/
theorem dropWhile_replaceRuns (t : Text) : ∀ inRun,
    (replaceRuns inRun t).dropWhile isUnderscore = replaceRuns false (t.dropWhile isFiller) := by
  induction t with
  | nil => exact fun _ => rfl
  | cons c t ih =>
    intro inRun
    by_cases hpart : isLabelPart c = true
    · rw [replaceRuns_of_isLabelPart hpart]
      by_cases hunderscore : isUnderscore c = true
      · have hfiller : isFiller c = true := by
          rw [isFiller, Bool.or_eq_true]
          exact .inr hunderscore
        rw [List.dropWhile_cons_of_pos hunderscore, List.dropWhile_cons_of_pos hfiller, ih]
      · have hfiller := isFiller_eq_false.mpr ⟨hpart, by simpa using hunderscore⟩
        rw [List.dropWhile_cons_of_neg hunderscore, List.dropWhile_cons_of_neg (by simp [hfiller]),
          replaceRuns_of_isLabelPart hpart]
    · have hfiller : isFiller c = true := by
        rw [isFiller, Bool.or_eq_true]
        exact .inl (by simpa using hpart)
      rw [List.dropWhile_cons_of_pos hfiller, replaceRuns, if_neg hpart]
      split
      · exact ih true
      · exact (List.dropWhile_cons_of_pos (by decide)).trans (ih true)

theorem trimEndWhile_cons {p : CodePoint → Bool} {c : CodePoint} (h : p c = false) (t : Text) :
    trimEndWhile p (c :: t) = c :: trimEndWhile p t := by
  have hlast : [c].dropWhile p = [c] := List.dropWhile_cons_of_neg (by simp [h])
  rw [trimEndWhile, trimEndWhile, List.reverse_cons, List.dropWhile_append, hlast]
  by_cases hempty : (t.reverse.dropWhile p).isEmpty = true
  · rw [if_pos hempty, List.isEmpty_iff.mp hempty]
    rfl
  · rw [if_neg hempty, List.reverse_append]
    rfl

theorem trimEndWhile_eq_nil {p : CodePoint → Bool} {t : Text} :
    trimEndWhile p t = [] ↔ ∀ c ∈ t, p c = true := by
  rw [trimEndWhile, List.reverse_eq_nil_iff, List.dropWhile_eq_nil_iff]
  simp only [List.mem_reverse]

/-- What is left of a text at its end starts as the text does, if anything is left. -/
theorem head?_trimEndWhile {p : CodePoint → Bool} {t : Text} (h : trimEndWhile p t ≠ []) :
    (trimEndWhile p t).head? = t.head? := by
  have hprefix : trimEndWhile p t <+: t := by
    rw [trimEndWhile, ← List.reverse_suffix, List.reverse_reverse]
    exact List.dropWhile_suffix p
  obtain ⟨more, hmore⟩ := hprefix
  conv_rhs => rw [← hmore]
  exact (List.head?_append_of_ne_nil _ h).symm

theorem forall_replaceRuns (t : Text) : ∀ inRun,
    (∀ c ∈ replaceRuns inRun t, isUnderscore c = true) ↔ ∀ c ∈ t, isFiller c = true := by
  induction t with
  | nil => simp [replaceRuns]
  | cons c t ih =>
    intro inRun
    by_cases hpart : isLabelPart c = true
    · have hfiller : isFiller c = isUnderscore c := by simp [isFiller, isUnderscore, hpart]
      rw [replaceRuns_of_isLabelPart hpart, List.forall_mem_cons, List.forall_mem_cons, ih, hfiller]
    · have hfiller : isFiller c = true := by simp [isFiller, hpart]
      rw [replaceRuns, if_neg hpart, List.forall_mem_cons, and_iff_right hfiller]
      split
      · exact ih true
      · rw [List.forall_mem_cons, ih, and_iff_right (by decide)]

theorem head?_replaceRuns_of_isFiller {c : CodePoint} (h : isFiller c = true) (t : Text) :
    (replaceRuns false (c :: t)).head? = some (CodePoint.ofChar '_') := by
  by_cases hpart : isLabelPart c = true
  · have hunderscore : c = CodePoint.ofChar '_' := by simpa [isFiller, hpart] using h
    rw [replaceRuns_of_isLabelPart hpart, hunderscore]
    rfl
  · rw [replaceRuns, if_neg hpart, if_neg Bool.false_ne_true]
    rfl

theorem isFiller_head_stem {font : Font α} {c : CodePoint} {rest : Text}
    (h : font.stem = c :: rest) : isFiller c = false := by
  have hnot := List.head?_dropWhile_not isFiller font.plainName
  rw [← stem, h] at hnot
  exact hnot

theorem label_eq (font : Font α) : font.label
    = firstNonempty [trimEndWhile isUnderscore (replaceRuns false font.stem), lit "font"] := by
  rw [stem, ← dropWhile_replaceRuns]
  rfl

/-- The label is the stem with its runs replaced, up to the last code point that is kept. -/
theorem label_of_stem {font : Font α} {c : CodePoint} {rest : Text} (h : font.stem = c :: rest) :
    font.label = c :: trimEndWhile isUnderscore (replaceRuns false rest) := by
  obtain ⟨hpart, hunderscore⟩ := isFiller_eq_false.mp (isFiller_head_stem h)
  rw [label_eq, h, replaceRuns_of_isLabelPart hpart, trimEndWhile_cons hunderscore, firstNonempty]
  · rfl
  · exact List.cons_ne_nil _ _

theorem label_of_stem_nil {font : Font α} (h : font.stem = []) : font.label = lit "font" := by
  rw [label_eq, h]
  rfl

theorem isFiller_of_isAsciiDigit {c : CodePoint} (h : c.isAsciiDigit = true) :
    isFiller c = false := by
  refine isFiller_eq_false.mpr ⟨(Text.isLabelPart_iff c).mpr (.inr (.inl h)), ?_⟩
  refine decide_eq_false ?_
  rintro rfl
  exact absurd h (by decide)

/-- A digit behind the first code point of a label comes from the name itself. -/
theorem any_isAsciiDigit_behind (rest : Text) :
    (trimEndWhile isUnderscore (replaceRuns false rest)).head?.any CodePoint.isAsciiDigit
      = rest.head?.any CodePoint.isAsciiDigit := by
  cases rest with
  | nil => rfl
  | cons c rest =>
    by_cases hfiller : isFiller c = true
    · have hdigit : c.isAsciiDigit = false := by
        by_contra h
        rw [isFiller_of_isAsciiDigit (by simpa using h)] at hfiller
        exact absurd hfiller Bool.false_ne_true
      rw [List.head?_cons, Option.any_some, hdigit]
      by_cases hnil : trimEndWhile isUnderscore (replaceRuns false (c :: rest)) = []
      · rw [hnil]
        rfl
      · rw [head?_trimEndWhile hnil, head?_replaceRuns_of_isFiller hfiller]
        rfl
    · obtain ⟨hpart, hunderscore⟩ := isFiller_eq_false.mp (by simpa using hfiller)
      rw [replaceRuns_of_isLabelPart hpart, trimEndWhile_cons hunderscore]
      rfl

theorem label_startsWithDigit (font : Font α) :
    font.label.StartsWithDigit ↔ font.stem.StartsWithDigit := by
  cases hstem : font.stem with
  | nil =>
    rw [label_of_stem_nil hstem]
    decide
  | cons c rest =>
    rw [label_of_stem hstem, StartsWithDigit, StartsWithDigit, any_isAsciiDigit_behind]

/-- The text is a hyphen with nothing behind it that labels keep. -/
def IsLoneHyphen (t : Text) : Prop :=
  t.head? = some (CodePoint.ofChar '-') ∧ ∀ c ∈ t.tail, isFiller c = true

instance : DecidablePred IsLoneHyphen := fun _ => inferInstanceAs (Decidable (_ ∧ ∀ c ∈ _, _))

theorem label_eq_hyphen_iff (font : Font α) : font.label = lit "-" ↔ IsLoneHyphen font.stem := by
  have hlone : lit "-" = [CodePoint.ofChar '-'] := rfl
  cases hstem : font.stem with
  | nil =>
    rw [label_of_stem_nil hstem]
    exact iff_of_false (by decide) fun h => by cases h.1
  | cons c rest =>
    rw [label_of_stem hstem, hlone, List.cons_eq_cons, trimEndWhile_eq_nil, forall_replaceRuns]
    exact and_congr_left' Option.some_inj.symm

end Font

/-! ## What the table hands out -/

namespace FontTable

open Text (lit StartsWithDigit IsLabel)

variable {α : Type}

theorem startsWithDigit_underscore {t : Text} (h : t ≠ []) (u : Text) :
    (t ++ CodePoint.ofChar '_' :: u).StartsWithDigit ↔ t.StartsWithDigit := by
  match t, h with
  | [], h => exact absurd rfl h
  | [c], _ =>
    have hunderscore : (CodePoint.ofChar '_').isAsciiDigit = false := by decide
    simp [StartsWithDigit, hunderscore]
  | c :: d :: rest, _ => exact Iff.rfl

/-- A number makes a name of a lone hyphen, and of nothing else that is none. -/
theorem isIdentifier_numbered {label : Text} (h : label.IsLabel) (n : Nat) :
    (numbered label n).IsIdentifier ↔ ¬ label.StartsWithDigit ∧ ¬ (label = lit "-" ∧ n = 1) := by
  rw [(isLabel_numbered h n).isIdentifier_iff]
  by_cases hn : n = 1
  · have hnumbered : numbered label n = label := if_pos hn
    rw [hnumbered]
    simp [hn]
  · have hnumbered : numbered label n = label ++ CodePoint.ofChar '_' :: Text.ofNat n := by
      rw [numbered_of_ne_one hn, List.append_assoc]
      rfl
    have hne : label ++ CodePoint.ofChar '_' :: Text.ofNat n ≠ lit "-" := by
      intro heq
      have hlength := congrArg List.length heq
      have hpos := List.length_pos_of_ne_nil h.1
      rw [List.length_append, List.length_cons] at hlength
      have : (lit "-").length = 1 := by decide
      omega
    rw [hnumbered, startsWithDigit_underscore h.1]
    simp [hn, hne]

theorem isIdentifier_freeLabel {label : Text} (h : label.IsLabel) (taken : List Text) :
    (freeLabel taken label).IsIdentifier
      ↔ ¬ label.StartsWithDigit ∧ ¬ (label = lit "-" ∧ label ∉ taken) := by
  obtain ⟨n, hpos, -, hform, hfree, hbefore⟩ := exists_freeLabel taken label
  have hfirst : n = 1 ↔ label ∉ taken := by
    constructor
    · rintro rfl
      exact hfree
    · intro hlabel
      by_contra hn
      exact hlabel (hbefore 1 Nat.one_pos (by omega))
  rw [hform, isIdentifier_numbered h, hfirst]

theorem get?_entered {table : FontTable α} {font : Font α} (h : ¬ table.Knows font)
    (entry : FontEntry) :
    ({ table with entries := table.entries ++ [(font, entry)] } : FontTable α).get? font
      = some entry := by
  have hnone : table.entries.find? (fun e => e.1.key == font.key) = none := by
    refine List.find?_eq_none.mpr fun e he => ?_
    simpa using (new_of_not_knows h).1 e he
  rw [get?, List.find?_append, hnone]
  simp

/-- Whatever the table holds, a font that it takes is given a label that is a name in style sheets
exactly if the stem of the font's name starts neither with a digit nor with a hyphen and a digit,
and is no lone hyphen while that label is free. The font keeps its label whatever is asked later. -/
theorem family_isIdentifier_iff (table : FontTable α) (font : Font α)
    (hunknown : ¬ table.Knows font) (hkind : font.kind ≠ .unsupported) :
    ∃ entry, (table.add font).1.get? font = some entry
      ∧ entry.family.IsLabel
      ∧ (entry.family.IsIdentifier ↔ ¬ font.stem.StartsWithDigit
        ∧ ¬ (Font.IsLoneHyphen font.stem ∧ lit "-" ∉ table.labels))
      ∧ ∀ more, ((table.add font).1.performAll more).1.get? font = some entry := by
  have hadd : (table.add font).1
      = { table with entries := table.entries ++ [(font, entryFor table.labels font)] } := by
    rcases table.add_cases font with ⟨hknown, -⟩ | ⟨-, hunsupported, -⟩ | ⟨-, -, hadd⟩
    · exact absurd hknown hunknown
    · exact absurd hunsupported hkind
    · rw [hadd]
  have hget : (table.add font).1.get? font = some (entryFor table.labels font) := by
    rw [hadd, get?_entered hunknown]
  refine ⟨entryFor table.labels font, hget, isLabel_freeLabel font.isLabel_label _, ?_, ?_⟩
  · have hlone : (font.label = lit "-" ∧ font.label ∉ table.labels)
        ↔ Font.IsLoneHyphen font.stem ∧ lit "-" ∉ table.labels := by
      rw [← font.label_eq_hyphen_iff]
      exact and_congr_right fun heq => by rw [heq]
    rw [← font.label_startsWithDigit, ← hlone]
    exact isIdentifier_freeLabel font.isLabel_label _
  · intro more
    rw [performAll_eq_addAll]
    exact (extends_addAll _ _).get? hget

/-- The tag of a subset and the code points behind it that labels leave out hide a digit. -/
theorem family_isIdentifier_iff_digit :
    let font : Font ℚ :=
      { key := 1, name := lit "F1", baseFont := some (lit "/ABCDEF+_*9Sans")
        subtype := some (lit "/TrueType"), descendantSubtype := none, fontFile := none
        ascent := 0, descent := 0, capHeight := 0, box := none, flags := 0 }
    let table : FontTable ℚ := { fallback := lit "serif" }
    ¬ table.Knows font ∧ font.kind ≠ .unsupported ∧ font.stem = lit "9Sans"
      ∧ ∃ entry, (table.add font).1.get? font = some entry ∧ entry.family = lit "9Sans"
        ∧ ¬ entry.family.IsIdentifier := by
  intro font table
  have hunknown : ¬ table.Knows font := by decide
  have hkind : font.kind ≠ .unsupported := by decide
  have hstem : font.stem = lit "9Sans" := by decide
  have hfamily : ((table.add font).1.get? font).map (·.family) = some (lit "9Sans") := by
    decide +kernel
  obtain ⟨entry, hget, -, hidentifier, -⟩ := family_isIdentifier_iff table font hunknown hkind
  rw [hget] at hfamily
  refine ⟨hunknown, hkind, hstem, entry, hget, Option.some.inj hfamily, fun h => ?_⟩
  rw [hidentifier, hstem] at h
  exact h.1 (by decide)

end FontTable

end Folio
