import Folio.Proofs.Html.Reader
import Folio.Proofs.Html.References
import Folio.Proofs.Layout.Attempt
import Folio.Proofs.Layout.Boundary

/-!
# Reading attributes back

What a reader makes of the start tag of a box. The attribute in front of the style is escaped, so it
is read as it was meant whatever its text is. The style is not: the unit, the family and the other
words that come into it stand there as they are. A quote among them ends the style, and what follows
is read as further attributes (`leads_startTag`); a reference among them is replaced by what it
means.

`Figure.draw_reads_back` says for each box and each emitter just when the tag is read as it was
meant, and what is read of it in any case.
-/

namespace Folio

open Text (lit join)

namespace Html

/-- The first tag of a text, if one is read to its end. -/
def firstTag? (t : Text) : Option Tag := ((⟨[], .data⟩ : Reader).run t).tags.head?

/-- The tag with its values as a reader takes them. -/
def Tag.decoded (refs : References) : Tag → Tag
  | .opening name attributes => .opening name (attributes.map fun a => (a.1, refs.unescape a.2))
  | .closing name => .closing name

/-- The value that is read where a text stands between quotes. -/
def untilQuote (t : Text) : Text := t.takeWhile (· ≠ CodePoint.ofChar '"')

theorem untilQuote_of_notMem {t : Text} (h : CodePoint.ofChar '"' ∉ t) : untilQuote t = t := by
  refine List.takeWhile_eq_self_iff.mpr fun c hc => decide_eq_true ?_
  rintro rfl
  exact h hc

theorem quote_notMem_untilQuote (t : Text) : CodePoint.ofChar '"' ∉ untilQuote t := by
  intro h
  have hne := List.mem_takeWhile_imp h
  exact absurd rfl (of_decide_eq_true hne)

/-- A text with a quote is what stands before the first one, that quote and a rest. -/
theorem exists_untilQuote {t : Text} (h : CodePoint.ofChar '"' ∈ t) :
    ∃ rest, t = untilQuote t ++ CodePoint.ofChar '"' :: rest := by
  cases hrest : t.dropWhile (· ≠ CodePoint.ofChar '"') with
  | nil =>
    have hall := List.dropWhile_eq_nil_iff.mp hrest _ h
    exact absurd rfl (of_decide_eq_true hall)
  | cons c rest =>
    have hnot := List.head?_dropWhile_not (fun c => decide (c ≠ CodePoint.ofChar '"')) t
    rw [hrest] at hnot
    have hc : c = CodePoint.ofChar '"' := not_not.mp (of_decide_eq_false hnot)
    refine ⟨rest, ?_⟩
    rw [← hc, ← hrest]
    exact List.takeWhile_append_dropWhile.symm

/-! ## Tags that have been begun -/

/-- The start tag that is being read, once its name is known. -/
def Mode.begun? : Mode → Option StartTag
  | .between tag | .key tag _ | .equals tag _ | .value tag _ _ _ | .bare tag _ _ => some tag
  | .data | .angle | .closing _ | .name _ => none

namespace Reader

/-- The first tag that is read is that one with those attributes, and maybe with more. -/
def Leads (s : StartTag) (r : Reader) : Prop :=
  ∃ more, r.tags.head? = some (.opening s.name (s.attributes ++ more))
    ∨ r.tags = [] ∧ r.mode.begun? = some ⟨s.name, s.attributes ++ more⟩

/-- An attribute that has been read stays, and a tag that ends is not read again. -/
theorem leads_step {s : StartTag} {r : Reader} (h : r.Leads s) (c : CodePoint) :
    (r.step c).Leads s := by
  obtain ⟨more, hread | ⟨htags, hbegun⟩⟩ := h
  · rw [step_tags]
    exact ⟨more, .inl (by rw [List.head?_append, hread]; rfl)⟩
  · obtain ⟨tags, mode⟩ := r
    cases htags
    have hadd : ∀ key value, (⟨s.name, s.attributes ++ more⟩ : StartTag).add key value
        = ⟨s.name, s.attributes ++ (more ++ [(key, value)])⟩ := fun key value => by
      rw [StartTag.add, List.append_assoc]
    cases mode with
    | data | angle | closing | name => cases hbegun
    | between tag =>
      cases hbegun
      simp only [step]
      split_ifs
      · exact ⟨more, .inr ⟨rfl, rfl⟩⟩
      · exact ⟨more, .inl rfl⟩
      · exact ⟨more, .inr ⟨rfl, rfl⟩⟩
    | key tag key =>
      cases hbegun
      simp only [step, hadd]
      split_ifs
      · exact ⟨_, .inr ⟨rfl, rfl⟩⟩
      · exact ⟨_, .inl rfl⟩
      · exact ⟨more, .inr ⟨rfl, rfl⟩⟩
      · exact ⟨more, .inr ⟨rfl, rfl⟩⟩
    | equals tag key =>
      cases hbegun
      simp only [step, hadd]
      split_ifs
      · exact ⟨more, .inr ⟨rfl, rfl⟩⟩
      · exact ⟨more, .inr ⟨rfl, rfl⟩⟩
      · exact ⟨_, .inl rfl⟩
      · exact ⟨more, .inr ⟨rfl, rfl⟩⟩
    | value tag key quote value =>
      cases hbegun
      simp only [step, hadd]
      split_ifs
      · exact ⟨_, .inr ⟨rfl, rfl⟩⟩
      · exact ⟨more, .inr ⟨rfl, rfl⟩⟩
    | bare tag key value =>
      cases hbegun
      simp only [step, hadd]
      split_ifs
      · exact ⟨_, .inr ⟨rfl, rfl⟩⟩
      · exact ⟨_, .inl rfl⟩
      · exact ⟨more, .inr ⟨rfl, rfl⟩⟩

theorem leads_run {s : StartTag} (t : Text) : ∀ {r : Reader}, r.Leads s → (r.run t).Leads s := by
  induction t with
  | nil => exact fun h => h
  | cons c t ih => exact fun h => ih (leads_step h c)

theorem Leads.head? {s : StartTag} {r : Reader} (h : r.Leads s) {tag : Tag}
    (htag : r.tags.head? = some tag) : ∃ more, tag = .opening s.name (s.attributes ++ more) := by
  obtain ⟨more, hread | ⟨htags, -⟩⟩ := h
  · exact ⟨more, Option.some.inj (htag.symm.trans hread)⟩
  · rw [htags] at htag
    cases htag

/-- The last attribute of a start tag is read up to its first quote, if it has one; the attributes
before it have none. -/
theorem leads_startTag {name key ending : Text} {before : List (Text × Text)} (hname : IsWord name)
    (hbefore : ∀ a ∈ before, IsWord a.1 ∧ CodePoint.ofChar '"' ∉ a.2) (hkey : IsWord key)
    (hending : ending = lit ">" ∨ ending = lit "/>") (value rest : Text) :
    ((⟨[], .data⟩ : Reader).run (startTag name (before ++ [(key, value)]) ending ++ rest)).Leads
      ⟨name, before ++ [(key, untilQuote value)]⟩ := by
  by_cases hquote : CodePoint.ofChar '"' ∈ value
  · obtain ⟨behindQuote, hvalue⟩ := exists_untilQuote hquote
    have hsplit : startTag name (before ++ [(key, value)]) ending ++ rest
        = (lit "<" ++ name) ++ (before.flatMap field ++ ((lit " " ++ key ++ lit "=\"")
          ++ (untilQuote value ++ CodePoint.ofChar '"' :: (behindQuote ++ lit "\"" ++ ending
            ++ rest)))) := by
      conv_lhs => rw [hvalue]
      simp only [startTag, field, List.flatMap_append, List.flatMap_cons, List.flatMap_nil,
        List.append_assoc, List.append_nil, List.cons_append]
    rw [hsplit, run_append, run_tagStart hname, run_append, run_attributes hbefore, run_append,
      List.nil_append, run_fieldStart hkey, run_append, run_value (quote_notMem_untilQuote value),
      List.nil_append, run_cons]
    -- Here the quote in the value has just been passed.
    exact leads_run _ ⟨[], .inr ⟨rfl, by rw [List.append_nil]; rfl⟩⟩
  · have hall : ∀ a ∈ before ++ [(key, value)], IsWord a.1 ∧ CodePoint.ofChar '"' ∉ a.2 := by
      intro a ha
      rcases List.mem_append.mp ha with ha | ha
      · exact hbefore a ha
      · rw [List.mem_singleton.mp ha]
        exact ⟨hkey, hquote⟩
    rw [run_append, run_startTag hname hall hending, untilQuote_of_notMem hquote]
    exact leads_run rest ⟨[], .inl (by rw [List.append_nil]; rfl)⟩

end Reader

/-- A start tag is the first tag if it is the first to be written and has no quote in a value. -/
theorem firstTag?_startTag {name ending : Text} {attributes : List (Text × Text)}
    (hname : IsWord name) (h : ∀ a ∈ attributes, IsWord a.1 ∧ CodePoint.ofChar '"' ∉ a.2)
    (hending : ending = lit ">" ∨ ending = lit "/>") (rest : Text) :
    firstTag? (startTag name attributes ending ++ rest) = some (.opening name attributes) := by
  rw [firstTag?, Reader.run_append, Reader.run_startTag hname h hending, Reader.run_tags]
  rfl

/-! ## Styles -/

/-- The two code points that a reader does not take for themselves in a quoted value. -/
def IsMark (c : CodePoint) : Prop := c = CodePoint.ofChar '"' ∨ c = CodePoint.ofChar '&'

instance (c : CodePoint) : Decidable (IsMark c) := inferInstanceAs (Decidable (_ ∨ _))

theorem IsMark.notMem {c : CodePoint} (hc : IsMark c) {t : Text} (h : ∀ d ∈ t, ¬IsMark d) :
    c ∉ t := fun hct => h c hct hc

section Marks

variable {α : Type} [Scalar α] {c : CodePoint} (hc : IsMark c)

include hc

/-- The style sheet's own words have no marks. -/
theorem mark_mem_constant_iff {t : Text} (h : ∀ d ∈ t, ¬IsMark d) : c ∈ t ↔ False :=
  iff_false_intro (hc.notMem h)

theorem mark_mem_thousandths_iff (a : α) : c ∈ Scalar.thousandths a ↔ False :=
  iff_false_intro fun h => hc.notMem (by decide : ∀ d ∈ Text.numerals, ¬IsMark d)
    (Decimal.thousandths_subset _ h)

end Marks

end Html

/-! ## Boxes -/

/-- A box as it comes to the emitter. -/
inductive Figure (α : Type)
  | paragraph (p : Paragraph α)
  | rule (r : Rule α)
  | picture (p : Picture α)

namespace Figure

variable {α : Type} [Scalar α]

def draw (fallback : Text) : Figure α → Act Emitter Unit
  | paragraph p => Emitter.paragraph fallback p
  | rule r => Emitter.rule r
  | picture p => Emitter.picture p

/-- What is written for the box. -/
def html (unit fallback : Text) : Figure α → Text
  | paragraph p => Html.paragraph unit fallback p
  | rule r => Html.rule unit r
  | picture p => Html.picture unit p

/-- The name of the start tag. -/
def name : Figure α → Text
  | paragraph _ | rule _ => lit "div"
  | picture _ => lit "img"

/-- The attribute in front of the style, as it is meant. -/
def label : Figure α → Text × Text
  | paragraph _ => (lit "class", lit "p")
  | rule _ => (lit "class", lit "l")
  | picture p => (lit "src", p.source)

/-- The declarations of the box, each a property with its value. -/
def declarations (unit fallback : Text) : Figure α → List (Text × Text)
  | paragraph p => [(lit "left", Scalar.thousandths p.left ++ unit),
      (lit "top", Scalar.thousandths p.top ++ unit),
      (lit "width", Scalar.thousandths p.width ++ unit),
      (lit "line-height", Scalar.thousandths p.lineHeight ++ unit),
      (lit "font-size", Scalar.thousandths p.fontSize ++ unit),
      (lit "font-family", if p.family = [] then fallback else p.family),
      (lit "font-weight", p.weight), (lit "font-style", p.slant)]
  | rule r => [(lit "left", Scalar.thousandths r.left ++ unit),
      (lit "top", Scalar.thousandths r.top ++ unit),
      (lit "width", Scalar.thousandths r.width ++ unit),
      (lit "height", Scalar.thousandths r.height ++ unit),
      (r.border, Scalar.thousandths r.stroke ++ unit ++ lit " solid #000000")]
      ++ if r.angle != 0 then
          [(lit "transform", lit "rotate(" ++ Scalar.thousandths r.angle ++ lit "deg)")]
        else []
  | picture p => [(lit "position", lit "absolute"),
      (lit "left", Scalar.thousandths p.extent.left ++ unit),
      (lit "top", Scalar.thousandths p.extent.top ++ unit),
      (lit "width", Scalar.thousandths p.extent.width ++ unit),
      (lit "height", Scalar.thousandths p.extent.height ++ unit)]

/-- The style of the box: its declarations one after the other. -/
def style (unit fallback : Text) (figure : Figure α) : Text :=
  (figure.declarations unit fallback).flatMap fun d => d.1 ++ lit ":" ++ d.2 ++ lit ";"

/-- The start tag as it is meant. -/
def meant (unit fallback : Text) (figure : Figure α) : Html.Tag :=
  .opening figure.name [figure.label, (lit "style", figure.style unit fallback)]

/-- The texts that come into the style as they are. -/
def words (unit fallback : Text) : Figure α → List Text
  | paragraph p => [unit, if p.family = [] then fallback else p.family, p.weight, p.slant]
  | rule r => [unit, r.border]
  | picture _ => [unit]

/-- A mark in the style has come there with one of the words. -/
theorem mark_mem_style_iff {c : CodePoint} (hc : Html.IsMark c) (unit fallback : Text)
    (figure : Figure α) :
    c ∈ figure.style unit fallback ↔ ∃ word ∈ figure.words unit fallback, c ∈ word := by
  have hstyle : c ∈ figure.style unit fallback
      ↔ ∃ d ∈ figure.declarations unit fallback, c ∈ d.1 ∨ c ∈ d.2 := by
    simp (disch := decide) only [style, List.mem_flatMap, List.mem_append,
      Html.mark_mem_constant_iff hc, or_false]
  rw [hstyle]
  cases figure with
  | paragraph p =>
    simp (disch := decide) only [declarations, words, List.exists_mem_cons_iff, List.mem_append,
      Html.mark_mem_constant_iff hc, Html.mark_mem_thousandths_iff hc, List.not_mem_nil, false_and,
      exists_false, false_or, or_false, or_self_left]
  | rule r =>
    -- The border is a property between lengths, so the unit comes up on both sides of it.
    have htwice : (c ∈ unit ∨ c ∈ r.border ∨ c ∈ unit) ↔ (c ∈ unit ∨ c ∈ r.border) := by
      rw [or_comm (a := c ∈ r.border), or_self_left]
    cases hturned : r.angle != 0 <;>
      simp (disch := decide) only [declarations, hturned, Bool.false_eq_true, if_false, if_true,
        List.cons_append, List.nil_append, words, List.exists_mem_cons_iff, List.mem_append,
        Html.mark_mem_constant_iff hc, Html.mark_mem_thousandths_iff hc, List.not_mem_nil,
        false_and, exists_false, false_or, or_false, or_self_left, htwice]
  | picture p =>
    simp (disch := decide) only [declarations, words, List.exists_mem_cons_iff, List.mem_append,
      Html.mark_mem_constant_iff hc, Html.mark_mem_thousandths_iff hc, List.not_mem_nil, false_and,
      exists_false, false_or, or_false, or_self]

/-- The style that is written. -/
theorem paragraphStyle_eq (unit fallback : Text) (p : Paragraph α) :
    Html.paragraphStyle unit fallback p = (paragraph p).style unit fallback := by
  simp only [Html.paragraphStyle, Html.placement, Html.declaration, Html.length, style,
    declarations, join, List.flatMap_cons, List.flatMap_nil, List.flatten_cons, List.flatten_nil,
    List.append_assoc, List.append_nil, List.isEmpty_iff]

theorem ruleStyle_eq (unit fallback : Text) (r : Rule α) :
    Html.ruleStyle unit r = (rule r).style unit fallback := by
  simp only [Html.ruleStyle, Html.placement, Html.declaration, Html.length, style,
    declarations, join, List.flatMap_append, List.flatMap_cons, List.flatMap_nil,
    List.flatten_cons, List.flatten_nil, List.append_assoc, List.append_nil]
  split
  · simp only [List.flatMap_cons, List.flatMap_nil, List.append_assoc, List.append_nil]
  · rw [List.flatMap_nil]

theorem pictureStyle_eq (unit fallback : Text) (p : Picture α) :
    Html.pictureStyle unit p.extent = (picture p).style unit fallback := by
  have hposition : lit "position:absolute;" = lit "position" ++ (lit ":" ++ (lit "absolute"
    ++ lit ";")) := by decide
  simp only [Html.pictureStyle, Html.placement, Html.declaration, Html.length, style,
    declarations, join, hposition, List.flatMap_cons, List.flatMap_nil, List.flatten_cons,
    List.flatten_nil, List.append_assoc, List.append_nil]

/-- Drawing a box writes its text in one piece. -/
theorem run_draw (fallback : Text) (figure : Figure α) (e : Emitter) :
    (figure.draw fallback).run e = (e.output.answer (figure.html e.unit fallback),
      e.marked (figure.html e.unit fallback) e.pageOpen) := by
  cases figure with
  | paragraph p => exact Emitter.run_paragraph_eq fallback p e
  | rule r => exact Emitter.run_rule_eq r e
  | picture p => exact Emitter.run_picture_eq p e

omit [Scalar α] in
theorem isWord_name (figure : Figure α) : Html.IsWord figure.name := by
  cases figure with
  | paragraph | rule => exact (by decide : Html.IsWord (lit "div"))
  | picture => exact (by decide : Html.IsWord (lit "img"))

omit [Scalar α] in
theorem isWord_label (figure : Figure α) : Html.IsWord figure.label.1 := by
  cases figure with
  | paragraph | rule => exact (by decide : Html.IsWord (lit "class"))
  | picture => exact (by decide : Html.IsWord (lit "src"))

/-- A box is written as a start tag and a rest; the attribute in front of the style is escaped, and
the style is not. -/
theorem exists_html_eq (unit fallback : Text) (figure : Figure α) :
    ∃ ending inner, (ending = lit ">" ∨ ending = lit "/>")
      ∧ figure.html unit fallback = Html.startTag figure.name
          ([(figure.label.1, figure.label.2.escapeQuoted)]
            ++ [(lit "style", figure.style unit fallback)]) ending ++ inner := by
  cases figure with
  | paragraph p =>
    refine ⟨lit ">", p.content ++ lit "</div>", .inl rfl, ?_⟩
    have hlabel : (lit "p").escapeQuoted = lit "p" := by decide
    simp only [html, Html.paragraph, paragraphStyle_eq, label, hlabel, Html.startTag, Html.field,
      join, List.flatMap_append, List.flatMap_cons, List.flatMap_nil, List.flatten_cons,
      List.flatten_nil, List.append_assoc, List.append_nil]
    rfl
  | rule r =>
    refine ⟨lit ">", lit "&nbsp;</div>", .inl rfl, ?_⟩
    have hlabel : (lit "l").escapeQuoted = lit "l" := by decide
    simp only [html, Html.rule, ruleStyle_eq unit fallback, label, hlabel, Html.startTag,
      Html.field, join, List.flatMap_append, List.flatMap_cons, List.flatMap_nil, List.flatten_cons,
      List.flatten_nil, List.append_assoc, List.append_nil]
    rfl
  | picture p =>
    refine ⟨lit "/>", [], .inr rfl, ?_⟩
    simp only [html, Html.picture, pictureStyle_eq unit fallback, label, Html.startTag,
      Html.field, join, List.flatMap_append, List.flatMap_cons, List.flatMap_nil, List.flatten_cons,
      List.flatten_nil, List.append_assoc, List.append_nil]
    rfl

omit [Scalar α] in
theorem no_quote_label (figure : Figure α) :
    ∀ a ∈ [(figure.label.1, figure.label.2.escapeQuoted)],
      Html.IsWord a.1 ∧ CodePoint.ofChar '"' ∉ a.2 := by
  intro a ha
  rw [List.mem_singleton.mp ha]
  exact ⟨figure.isWord_label, (Text.isPlain_escapeQuoted _).no_quote⟩

variable (refs : Html.References)

/-- Whatever tag is read for a box, it begins with the attribute in front of the style as it was
meant, and with the style up to its first quote. -/
theorem decoded_of_firstTag? (unit fallback : Text) (figure : Figure α) (rest : Text)
    {tag : Html.Tag} (h : Html.firstTag? (figure.html unit fallback ++ rest) = some tag) :
    ∃ more, tag.decoded refs = .opening figure.name (figure.label
      :: (lit "style", refs.unescape (Html.untilQuote (figure.style unit fallback))) :: more) := by
  obtain ⟨ending, inner, hending, hhtml⟩ := figure.exists_html_eq unit fallback
  rw [hhtml, List.append_assoc] at h
  obtain ⟨more, rfl⟩ := (Html.Reader.leads_startTag figure.isWord_name figure.no_quote_label
    Html.isWord_style hending _ (inner ++ rest)).head? h
  refine ⟨more.map fun a => (a.1, refs.unescape a.2), ?_⟩
  simp only [Html.Tag.decoded, List.map_append, List.map_cons, List.map_nil,
    refs.unescape_escapeQuoted]
  rfl

/-- Without a quote in the style there is a tag, with the two attributes alone. -/
theorem decoded_of_no_quote (unit fallback : Text) (figure : Figure α) (rest : Text)
    (h : CodePoint.ofChar '"' ∉ figure.style unit fallback) :
    (Html.firstTag? (figure.html unit fallback ++ rest)).map (Html.Tag.decoded refs)
      = some (.opening figure.name
        [figure.label, (lit "style", refs.unescape (figure.style unit fallback))]) := by
  obtain ⟨ending, inner, hending, hhtml⟩ := figure.exists_html_eq unit fallback
  have hall : ∀ a ∈ [(figure.label.1, figure.label.2.escapeQuoted)]
      ++ [(lit "style", figure.style unit fallback)],
      Html.IsWord a.1 ∧ CodePoint.ofChar '"' ∉ a.2 := by
    intro a ha
    rcases List.mem_append.mp ha with ha | ha
    · exact figure.no_quote_label a ha
    · rw [List.mem_singleton.mp ha]
      exact ⟨Html.isWord_style, h⟩
  rw [hhtml, List.append_assoc, Html.firstTag?_startTag figure.isWord_name hall hending]
  simp only [Option.map_some, Html.Tag.decoded, List.map_append, List.map_cons, List.map_nil,
    refs.unescape_escapeQuoted]
  rfl

/-- The start tag of a box is read as it was meant just when there is neither a quote nor a
reference in its style. -/
theorem reads_back_iff (unit fallback : Text) (figure : Figure α) (rest : Text) :
    (Html.firstTag? (figure.html unit fallback ++ rest)).map (Html.Tag.decoded refs)
        = some (figure.meant unit fallback)
      ↔ CodePoint.ofChar '"' ∉ figure.style unit fallback
        ∧ refs.Inert (figure.style unit fallback) := by
  constructor
  · intro h
    obtain ⟨tag, htag, hmeant⟩ := Option.map_eq_some_iff.mp h
    obtain ⟨more, hdecoded⟩ := figure.decoded_of_firstTag? refs unit fallback rest htag
    have hstyle : refs.unescape (Html.untilQuote (figure.style unit fallback))
        = figure.style unit fallback := by
      rw [hmeant, meant] at hdecoded
      injection hdecoded with _ hattributes
      simp only [List.cons.injEq, Prod.mk.injEq, true_and] at hattributes
      exact hattributes.1.symm
    -- What is read of the style is no longer than what is written before a quote.
    have hwhole : Html.untilQuote (figure.style unit fallback) = figure.style unit fallback := by
      refine (List.takeWhile_prefix _).eq_of_length_le ?_
      calc (figure.style unit fallback).length
          = (refs.unescape (Html.untilQuote (figure.style unit fallback))).length := by rw [hstyle]
        _ ≤ (Html.untilQuote (figure.style unit fallback)).length := refs.length_unescape_le _
    refine ⟨?_, ?_⟩
    · rw [← hwhole]
      exact Html.quote_notMem_untilQuote _
    · rw [hwhole] at hstyle
      exact (refs.unescape_eq_self_iff _).mp hstyle
  · rintro ⟨hquote, hinert⟩
    rw [figure.decoded_of_no_quote refs unit fallback rest hquote,
      (refs.unescape_eq_self_iff _).mpr hinert]
    rfl

/-- An emitter writes each box in one piece, and whatever comes after it:

* its start tag is read with the attributes that were meant, and no others, just when there is
  neither a quote nor a reference in the style;
* there is a quote in the style just when there is one in the unit, the family or another word of
  it, and without an ampersand in these there is no reference;
* in any case the attribute in front of the style is read as it was meant, whatever its text is, and
  of the style what stands before its first quote. -/
theorem draw_reads_back (fallback : Text) (figure : Figure α) (e : Emitter) :
    (figure.draw fallback).run e = (e.output.answer (figure.html e.unit fallback),
        e.marked (figure.html e.unit fallback) e.pageOpen)
      ∧ (∀ rest, (Html.firstTag? (figure.html e.unit fallback ++ rest)).map (Html.Tag.decoded refs)
            = some (figure.meant e.unit fallback)
          ↔ CodePoint.ofChar '"' ∉ figure.style e.unit fallback
            ∧ refs.Inert (figure.style e.unit fallback))
      ∧ (CodePoint.ofChar '"' ∈ figure.style e.unit fallback
          ↔ ∃ word ∈ figure.words e.unit fallback, CodePoint.ofChar '"' ∈ word)
      ∧ ((∀ word ∈ figure.words e.unit fallback, CodePoint.ofChar '&' ∉ word)
          → refs.Inert (figure.style e.unit fallback))
      ∧ ∀ rest tag, Html.firstTag? (figure.html e.unit fallback ++ rest) = some tag →
          ∃ more, tag.decoded refs = .opening figure.name (figure.label
            :: (lit "style", refs.unescape (Html.untilQuote (figure.style e.unit fallback)))
            :: more) := by
  refine ⟨figure.run_draw fallback e, figure.reads_back_iff refs e.unit fallback,
    figure.mark_mem_style_iff (.inl rfl) e.unit fallback, fun h => ?_,
    fun rest _ => figure.decoded_of_firstTag? refs e.unit fallback rest⟩
  refine refs.inert_of_notMem fun hmem => ?_
  obtain ⟨word, hword, hamp⟩ := (figure.mark_mem_style_iff (.inr rfl) e.unit fallback).mp hmem
  exact h word hword hamp

/-- Options that are accepted: the usual ones with a family list in which a name is quoted. -/
def quotedFamily : Options ℚ :=
  { Options.standard with fallbackFamily := lit "\"Times New Roman\", serif" }

/-- A paragraph without a family of its own. -/
def unnamed : Figure ℚ := .paragraph
  { left := 0, top := 0, width := 0, lineHeight := 0, content := [], fontSize := 0, family := [],
    weight := lit "normal", slant := lit "normal" }

/-- The style of a paragraph in a quoted family ends where its family should begin. -/
theorem draw_reads_back_quotedFamily :
    quotedFamily.check = .ok ()
      ∧ (Html.firstTag? (unnamed.html quotedFamily.unit quotedFamily.fallbackFamily)).map
          (Html.Tag.decoded .basic)
        ≠ some (unnamed.meant quotedFamily.unit quotedFamily.fallbackFamily) := by
  obtain ⟨-, hreads, hquote, -⟩ := draw_reads_back .basic quotedFamily.fallbackFamily unnamed
    { output := .memory, unit := quotedFamily.unit }
  refine ⟨Layout.check_standard, fun h => ?_⟩
  have hnone := ((hreads []).mp (by rw [List.append_nil]; exact h)).1
  exact hnone (hquote.mpr ⟨quotedFamily.fallbackFamily, by decide, by decide⟩)

end Figure

end Folio
