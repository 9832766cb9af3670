import Folio.Html
import Folio.Proofs.Files.Backing
import Folio.Proofs.Text.Plain
import Folio.Text.Codec

/-!
# Texts that UTF-8 can write

UTF-8 has a form for every text but those with surrogates, and what has been written in it reads as
the text it was (`ofUtf8?_of_utf8?`). No constant, number or data of a picture has a surrogate, so
whatever is written around the texts of a document can be written if the unit of its lengths can;
only what a document or a caller brings along may be out of reach.
-/

namespace Folio

namespace CodePoint

theorem isSurrogate_ofChar (c : Char) : (ofChar c).isSurrogate = false := by
  have h := c.valid
  simp only [UInt32.isValidChar, Nat.isValidChar] at h
  have hval : (ofChar c).val = c.val.toNat := rfl
  simp only [isSurrogate, hval, Bool.and_eq_false_iff, decide_eq_false_iff_not]
  omega

theorem exists_char {c : CodePoint} (h : c.isSurrogate = false) : ∃ d : Char, c = ofChar d := by
  have hvalid : Nat.isValidChar c.val := by
    have hlt := c.val_lt
    simp only [isSurrogate, Bool.and_eq_false_iff, decide_eq_false_iff_not] at h
    unfold Nat.isValidChar
    omega
  exact ⟨Char.ofNatAux c.val hvalid, rfl⟩

/-- The form of a character is the one that `String` gives it. -/
theorem utf8?_ofChar (c : Char) : (ofChar c).utf8? = some (String.utf8EncodeChar c) := by
  have hval : (ofChar c).val = c.val.toNat := rfl
  have hlt : c.val.toNat < 0x110000 := (ofChar c).val_lt
  have hshift : Nat.pow 2 0 = 1 ∧ Nat.pow 2 6 = 64 ∧ Nat.pow 2 12 = 4096 := by decide
  simp only [utf8?, isSurrogate_ofChar, hval, String.utf8EncodeChar, hshift, Bool.false_eq_true,
    if_false, Nat.div_one, Nat.add_comm (_ % _)]
  generalize c.val.toNat = n at hlt
  -- One case for each length of the form.
  obtain h | h | h | h :
      n < 0x80 ∨ (0x80 ≤ n ∧ n < 0x800) ∨ (0x800 ≤ n ∧ n < 0x10000) ∨ 0x10000 ≤ n := by omega
  all_goals simp (disch := omega) only [if_pos, if_neg, Nat.mod_eq_of_lt, Nat.add_comm]

end CodePoint

namespace Text

/-- UTF-8 has a form for the text: none of its code points is a surrogate. -/
def isEncodable (t : Text) : Bool := !t.any CodePoint.isSurrogate

@[simp] theorem isEncodable_nil : isEncodable [] = true := rfl

@[simp] theorem isEncodable_append (t u : Text) :
    (t ++ u).isEncodable = (t.isEncodable && u.isEncodable) := by
  simp [isEncodable]

@[simp] theorem isEncodable_join_nil : (join []).isEncodable = true := rfl

@[simp] theorem isEncodable_join_cons (t : Text) (pieces : List Text) :
    (join (t :: pieces)).isEncodable = (t.isEncodable && (join pieces).isEncodable) :=
  isEncodable_append t (join pieces)

theorem isEncodable_iff {t : Text} : t.isEncodable = true ↔ ∀ c ∈ t, c.isSurrogate = false := by
  simp [isEncodable]

theorem isEncodable_join_iff {pieces : List Text} :
    (join pieces).isEncodable = true ↔ ∀ t ∈ pieces, t.isEncodable = true := by
  induction pieces with
  | nil => simp
  | cons t pieces ih => simp [ih]

theorem isEncodable_of_subset {t u : Text} (h : u.isEncodable = true) (hsub : t ⊆ u) :
    t.isEncodable = true :=
  isEncodable_iff.mpr fun c hc => isEncodable_iff.mp h c (hsub hc)

theorem isEncodable_of_utf8? {t : Text} {bytes : Bytes} (h : t.utf8? = some bytes) :
    t.isEncodable = true := by
  obtain ⟨pieces, hpieces, -⟩ := Option.map_eq_some_iff.mp h
  rw [isEncodable_iff]
  clear h
  induction t generalizing pieces with
  | nil => exact fun _ hc => absurd hc List.not_mem_nil
  | cons c t ih =>
    rw [List.mapM_cons] at hpieces
    obtain ⟨piece, hpiece, hrest⟩ := Option.bind_eq_some_iff.mp hpieces
    obtain ⟨others, hothers, -⟩ := Option.bind_eq_some_iff.mp hrest
    refine List.forall_mem_cons.mpr ⟨?_, ih others hothers⟩
    cases hsurrogate : c.isSurrogate with
    | false => rfl
    | true =>
      rw [CodePoint.utf8?, hsurrogate] at hpiece
      cases hpiece

/-! ## Constants and numbers -/

/-- No character is a surrogate. -/
@[simp] theorem isEncodable_lit (s : String) : (lit s).isEncodable = true := by
  rw [isEncodable_iff]
  intro c hc
  obtain ⟨d, -, rfl⟩ := List.mem_map.mp hc
  exact CodePoint.isSurrogate_ofChar d

@[simp] theorem isEncodable_ofInt (n : Int) : (ofInt n).isEncodable = true :=
  isEncodable_of_subset (isEncodable_lit _) (ofInt_subset n)

/-- The texts that can be written are the constants. -/
theorem isEncodable_iff_lit {t : Text} : t.isEncodable = true ↔ ∃ s : String, t = lit s := by
  constructor
  · intro h
    have hchars : ∃ cs : List Char, t = cs.map CodePoint.ofChar := by
      induction t with
      | nil => exact ⟨[], rfl⟩
      | cons c t ih =>
        obtain ⟨hc, ht⟩ := List.forall_mem_cons.mp (isEncodable_iff.mp h)
        obtain ⟨d, rfl⟩ := CodePoint.exists_char hc
        obtain ⟨cs, rfl⟩ := ih (isEncodable_iff.mpr ht)
        exact ⟨d :: cs, rfl⟩
    obtain ⟨cs, rfl⟩ := hchars
    exact ⟨String.ofList cs, by rw [lit, String.toList_ofList]⟩
  · rintro ⟨s, rfl⟩
    exact isEncodable_lit s

theorem utf8?_lit (s : String) :
    (lit s).utf8? = some (s.toList.flatMap String.utf8EncodeChar) := by
  have hpieces : ∀ cs : List Char, (cs.map CodePoint.ofChar).mapM CodePoint.utf8?
      = some (cs.map String.utf8EncodeChar) := by
    intro cs
    induction cs with
    | nil => rfl
    | cons c cs ih =>
      rw [List.map_cons, List.mapM_cons, CodePoint.utf8?_ofChar, ih]
      rfl
  rw [lit, utf8?, hpieces]
  rfl

/-- What has been written reads as the text it was. -/
theorem ofUtf8?_of_utf8? {t : Text} {bytes : Bytes} (h : t.utf8? = some bytes) :
    ofUtf8? bytes = some t := by
  obtain ⟨s, rfl⟩ := isEncodable_iff_lit.mp (isEncodable_of_utf8? h)
  rw [utf8?_lit] at h
  cases h
  have hbytes : (⟨(s.toList.flatMap String.utf8EncodeChar).toArray⟩ : ByteArray)
      = s.toByteArray := by
    rw [← String.utf8Encode_toList, List.utf8Encode]
    exact ByteArray.ext List.data_toByteArray.symm
  rw [ofUtf8?, hbytes, String.fromUTF8?, dif_pos s.isValidUTF8]
  rfl

/-- Nothing that is read has surrogates. -/
theorem isEncodable_of_ofUtf8? {t : Text} {bytes : Bytes} (h : ofUtf8? bytes = some t) :
    t.isEncodable = true := by
  obtain ⟨s, -, rfl⟩ := Option.map_eq_some_iff.mp h
  exact isEncodable_lit s

/-! ## Escaped texts -/

theorem isEncodable_escapeQuotedOne {c : CodePoint} (h : c.isSurrogate = false) :
    (escapeQuotedOne c).isEncodable = true := by
  have hself : isEncodable [c] = true := by simp [isEncodable, h]
  unfold escapeQuotedOne escapeOne
  grind [isEncodable_lit]

/-- Escaping brings no surrogates in. -/
theorem isEncodable_escapeQuoted {t : Text} (h : t.isEncodable = true) :
    t.escapeQuoted.isEncodable = true := by
  rw [isEncodable_iff] at h
  refine isEncodable_join_iff.mpr fun piece hpiece => ?_
  obtain ⟨c, hc, rfl⟩ := List.mem_map.mp hpiece
  exact isEncodable_escapeQuotedOne (h c hc)

end Text

namespace Bytes

theorem isSurrogate_base64Digit (n : Nat) : (base64Digit n).isSurrogate = false := by
  have hval : ∀ m < 0xD800, (CodePoint.ofNat m).isSurrogate = false := by
    intro m hm
    rw [CodePoint.ofNat, dif_pos (Nat.lt_trans hm (by decide)), CodePoint.isSurrogate]
    simp only [Bool.and_eq_false_iff, decide_eq_false_iff_not]
    omega
  refine hval _ ?_
  grind

theorem isEncodable_base64 (bytes : Bytes) : (base64 bytes).isEncodable = true := by
  have hequals : ('=' : CodePoint).isSurrogate = false := by decide
  rw [Text.isEncodable_iff]
  induction bytes using base64.induct with
  | case1 => exact fun _ hc => absurd hc List.not_mem_nil
  | case2 a => simp [base64, isSurrogate_base64Digit, hequals]
  | case3 a b => simp [base64, isSurrogate_base64Digit, hequals]
  | case4 a b c rest ih => simpa [base64, isSurrogate_base64Digit] using ih

end Bytes

/-! ## What is written around the texts of a document -/

namespace Html

open Text (lit)

variable {α : Type} [Scalar α] {unit : Text}

@[simp] theorem isEncodable_thousandths (a : α) : (Scalar.thousandths a).isEncodable = true :=
  Text.isEncodable_of_subset (Text.isEncodable_lit _) (Decimal.thousandths_subset _)

@[simp] theorem isEncodable_length (unit : Text) (a : α) :
    (length unit a).isEncodable = unit.isEncodable := by
  simp [length]

@[simp] theorem isEncodable_declaration (property value : Text) :
    (declaration property value).isEncodable = (property.isEncodable && value.isEncodable) := by
  simp [declaration]

@[simp] theorem isEncodable_placement (unit : Text) (left top width : α) :
    (placement unit left top width).isEncodable = unit.isEncodable := by
  simp [placement]

/-- The start of a page with a size can be written if the unit can. -/
theorem isEncodable_pageStart (unit : Text) (number : Int) (crop : CropBox α) (turn : Rotation) :
    (pageStart unit (Page.frame number (some crop) turn)).isEncodable = unit.isEncodable := by
  simp [pageStart, Page.frame]

@[simp] theorem isEncodable_pageEnd : pageEnd.isEncodable = true := Text.isEncodable_lit _

@[simp] theorem isEncodable_documentEnd : documentEnd.isEncodable = true := Text.isEncodable_lit _

theorem isEncodable_rule (hunit : unit.isEncodable = true) (s : Segment α) (width : α) :
    (rule unit (s.rule width)).isEncodable = true := by
  have hborder : s.side.border.isEncodable = true := by
    cases s.side <;> exact Text.isEncodable_lit _
  have hstyle : (ruleStyle unit (s.rule width)).isEncodable = true := by
    unfold ruleStyle
    split <;> simp [hunit, Segment.rule, hborder]
  simp [rule, hstyle]

theorem isEncodable_picture (hunit : unit.isEncodable = true) {p : Picture α}
    (hsource : p.source.isEncodable = true) : (picture unit p).isEncodable = true := by
  simp [picture, pictureStyle, hunit, Text.isEncodable_escapeQuoted hsource]

end Html

end Folio
