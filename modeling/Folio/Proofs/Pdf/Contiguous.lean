import Folio.Conversion
import Folio.Proofs.Layout.Attempt
import Folio.Proofs.Paragraph.Fitting
import Folio.Proofs.Pdf.Pen

/-!
# Strings stay in one piece

A string that runs straight to the right (`Level`) is shown glyph against glyph: where a glyph ends
the next one starts, to the last digit, because the width of a glyph on the page and the step to the
next one are the same product of exact numbers (`x_glyphBehind_append`). So the segmenter finds no
gap between them, and on one line no gap is neither a blank nor a break, under any tolerance that
`Options.check` accepts (`feed_of_gap_zero`). What comes before the string only decides about its
first glyph.
-/

namespace Folio

open Run (startsLine)

/-! ## Glyphs without a gap -/

namespace Segmenter

/-- Accepted options have a positive tolerance. -/
theorem pos_of_check {options : Options ℚ} (h : options.check = .ok ()) :
    0 < options.wordGapTolerance := by
  refine not_le.mp fun hle => ?_
  unfold Options.check at h
  rw [if_pos hle] at h
  cases h

theorem gap?_of_x_eq {previous glyph : Glyph ℚ} (h : glyph.x = previous.x + previous.width) :
    gap? previous glyph = some 0 := by
  unfold gap?
  extract_lets gap average
  have hgap : gap = 0 := by
    show |glyph.x - (previous.x + previous.width)| = 0
    rw [h, sub_self, abs_zero]
  rw [hgap]
  -- Without a width between them, no gap is none either.
  split
  · rw [zero_div]
  · rfl

/-- A glyph right behind the one before goes into the paragraph as it is. -/
theorem feed_of_gap_zero {s : Segmenter ℚ} (fonts : FontTable ℚ) {previous glyph : Glyph ℚ}
    (hprevious : s.previous = some previous) (hline : startsLine previous glyph = false)
    (hgap : gap? previous glyph = some 0) (htolerance : 0 < s.options.wordGapTolerance) :
    s.feed fonts glyph = .ok (s.append fonts glyph, none) := by
  have hsame : ¬ Scalar.greater previous.height glyph.height
      < Scalar.abs (previous.y - glyph.y) := of_decide_eq_false hline
  have hjudge : judge s.options.wordGapTolerance (some 0) = .ok (.blanks 0) := by
    rw [judge, if_neg (not_lt.mpr htolerance.le), Scalar.truncate_zero]
    rfl
  rw [feed, advance, hprevious]
  simp only [if_neg hsame]
  rw [sameLine, hgap, hjudge]
  rfl

end Segmenter

/-! ## Layout -/

namespace Layout

variable {l l' : Layout ℚ} {page : Page.Frame ℚ} {glyph : Glyph ℚ}

/-- A glyph that is taken is the one that the next is compared with; the page and the options are
what they were. -/
theorem of_run_addGlyph (hpage : l.page = some page)
    (hrun : (addGlyph glyph).run l = (.ok (), l')) :
    l'.page = l.page ∧ l'.segmenter.options = l.segmenter.options
      ∧ l'.segmenter.previous = some glyph := by
  rw [run_addGlyph_of_page hpage] at hrun
  cases hfeed : l.segmenter.feed l.fonts glyph with
  | error e =>
    rw [hfeed] at hrun
    cases hrun
  | ok answer =>
    obtain ⟨s, out⟩ := answer
    obtain ⟨hoptions, hprevious⟩ := Segmenter.options_and_previous_of_feed hfeed
    rw [hfeed] at hrun
    simp only [run_takeParagraph] at hrun
    cases hrun
    cases out with
    | none => exact ⟨rfl, hoptions, hprevious⟩
    | some p =>
      refine ⟨rfl, ?_, ?_⟩ <;> simp only [Option.elim_some, tookParagraph] <;> split
      · exact hoptions
      · exact hoptions
      · exact hprevious
      · exact hprevious

/-- A glyph that is refused has changed nothing. -/
theorem eq_of_run_addGlyph_error {e : Fault} (hrun : (addGlyph glyph).run l = (.error e, l')) :
    l' = l := by
  cases hpage : l.page with
  | none =>
    rw [run_addGlyph_of_none hpage] at hrun
    cases hrun
  | some page =>
    rw [run_addGlyph_of_page hpage] at hrun
    cases hfeed : l.segmenter.feed l.fonts glyph with
    | error e' =>
      rw [hfeed] at hrun
      cases hrun
      rfl
    | ok answer =>
      rw [hfeed] at hrun
      simp only [run_takeParagraph] at hrun
      cases hrun

end Layout

namespace Press

/-- The press with glyphs put into the paragraph that is being assembled. Nothing is handed out, and
nothing is put between the glyphs. -/
def extended (p : Press ℚ) (glyphs : List (Glyph ℚ)) : Press ℚ :=
  { p with
    layout := { p.layout with
      segmenter :=
        glyphs.foldl (fun s glyph => s.append p.layout.fonts glyph) p.layout.segmenter } }

/-- The text that is put in is that of the glyphs. -/
theorem plain_extended (p : Press ℚ) (glyphs : List (Glyph ℚ)) :
    (p.extended glyphs).layout.segmenter.buffer.plain
      = (glyphs.map Glyph.text).reverse ++ p.layout.segmenter.buffer.plain := by
  unfold extended
  generalize p.layout.segmenter = s
  induction glyphs generalizing s with
  | nil => rfl
  | cons glyph glyphs ih =>
    have hplain : (s.append p.layout.fonts glyph).buffer.plain = glyph.text :: s.buffer.plain := rfl
    simp only [List.foldl_cons] at ih ⊢
    rw [ih, hplain, List.map_cons, List.reverse_cons, List.append_assoc, List.singleton_append]

/-- A press on a page takes a glyph right behind the one before. -/
theorem run_receive_of_gap_zero {p : Press ℚ} {page : Page.Frame ℚ} {previous glyph : Glyph ℚ}
    (hpage : p.layout.page = some page) (hprevious : p.layout.segmenter.previous = some previous)
    (hline : startsLine previous glyph = false)
    (hgap : Segmenter.gap? previous glyph = some 0)
    (htolerance : 0 < p.layout.segmenter.options.wordGapTolerance) :
    (listener.receive (.glyph glyph)).run p = (.ok (), p.extended [glyph]) := by
  have hfeed := Segmenter.feed_of_gap_zero p.layout.fonts hprevious hline hgap htolerance
  have hadd : (Layout.addGlyph glyph).run p.layout = (.ok (), (p.extended [glyph]).layout) := by
    rw [Layout.run_addGlyph_of_page hpage, hfeed]
    rfl
  show ((Layout.addGlyph glyph).onPart (·.layout) fun l p => { p with layout := l }).run p = _
  rw [Act.run_onPart, hadd]
  rfl

end Press

namespace Pdf

namespace Decoder

theorem ratio_pos (font : Font ℚ) : 0 < ratio font := by
  unfold ratio
  extract_lets height
  split
  next hheight => exact div_pos hheight (by norm_num [Scalar.ofNat])
  next => norm_num [Scalar.ratio, Scalar.ofNat]

/-- The height of a glyph is positive, whatever the font says. -/
theorem heightRatio_pos_of_ofFont {graph : Graph ℚ} {font : Nat} {descendant : Option Nat}
    {resource : Font ℚ} {decoder : Decoder ℚ}
    (h : ofFont graph font descendant resource = .ok decoder) : 0 < decoder.heightRatio := by
  have hbind : ∀ {β : Type} {x : Except Fault β} {f : β → Except Fault (Decoder ℚ)},
      x >>= f = .ok decoder → ∃ b, f b = .ok decoder := by
    intro β x f hx
    cases x with
    | error e => cases hx
    | ok b => exact ⟨b, hx⟩
  obtain ⟨texts, h⟩ := hbind h
  -- The widths are found in different places, and the height does not go by them.
  have hratio : decoder.heightRatio = ratio resource := by
    cases descendant with
    | none =>
      obtain ⟨widths, h⟩ := hbind h
      obtain ⟨defaultWidth, h⟩ := hbind h
      cases h
      rfl
    | some d =>
      obtain ⟨widths, h⟩ := hbind h
      obtain ⟨defaultWidth, h⟩ := hbind h
      cases h
      rfl
  rw [hratio]
  exact ratio_pos resource

end Decoder

namespace Walker

variable {σ : Type} (c : WalkContext ℚ σ) (w : Walker ℚ σ) {decoder : Decoder ℚ}

/-- Text runs straight to the right and without extra space. -/
structure Level : Prop where
  charSpacing : w.graphics.charSpacing = 0
  wordSpacing : w.graphics.wordSpacing = 0
  fontSize : 0 < w.graphics.fontSize
  scaling : 0 < w.graphics.scaling
  right : 0 < (textSpace c w).a
  straight : (textSpace c w).b = 0

variable {c w}

theorem hypot_zero {x : ℚ} (hx : 0 ≤ x) : Scalar.hypot x 0 = x := by
  show Rat.sqrt (x * x + 0 * 0) = x
  rw [zero_mul, add_zero, Rat.sqrt_eq, abs_of_nonneg hx]

namespace Level

variable (h : Level c w) (before : List Bytes) {code : Bytes}

include h

theorem pen_single : pen w.graphics decoder [code]
    = decoder.width code / 1000 * (w.graphics.fontSize * (w.graphics.scaling / 100)) := by
  rw [pen, List.map_singleton, List.sum_singleton, h.charSpacing, h.wordSpacing]
  split <;> ring

theorem width_glyphBehind (hwidth : 0 ≤ decoder.width code) :
    (glyphBehind c w decoder before code).width
      = (textSpace c w).a * pen w.graphics decoder [code] := by
  have hsize : 0 ≤ w.graphics.fontSize * (w.graphics.scaling / 100) :=
    mul_nonneg h.fontSize.le (div_nonneg h.scaling.le (by norm_num))
  have hadvance : 0 ≤ (textSpace c w).a * pen w.graphics decoder [code] := by
    rw [h.pen_single]
    exact mul_nonneg h.right.le (mul_nonneg (div_nonneg hwidth (by norm_num)) hsize)
  rw [← hypot_zero hadvance, h.pen_single, glyphBehind]
  simp only [h.straight, zero_mul]

/-- The next glyph starts where this one ends. -/
theorem x_glyphBehind_append (hwidth : 0 ≤ decoder.width code) (next : Bytes) :
    (glyphBehind c w decoder (before ++ [code]) next).x
      = (glyphBehind c w decoder before code).x + (glyphBehind c w decoder before code).width := by
  rw [h.width_glyphBehind before hwidth]
  simp only [glyphBehind, Affine.apply, pen_append]
  ring

theorem y_glyphBehind (before' : List Bytes) (code' : Bytes) :
    (glyphBehind c w decoder before code).y = (glyphBehind c w decoder before' code').y := by
  simp only [glyphBehind, Affine.apply, h.straight, zero_mul]

/-- There is no gap between a glyph and the next one. -/
theorem gap?_glyphBehind (hwidth : 0 ≤ decoder.width code) (next : Bytes) :
    Segmenter.gap? (glyphBehind c w decoder before code)
      (glyphBehind c w decoder (before ++ [code]) next) = some 0 :=
  Segmenter.gap?_of_x_eq (h.x_glyphBehind_append before hwidth next)

/-- Nor do they stand on different lines. -/
theorem startsLine_glyphBehind (hratio : 0 ≤ decoder.heightRatio) (next : Bytes) :
    startsLine (glyphBehind c w decoder before code)
      (glyphBehind c w decoder (before ++ [code]) next) = false := by
  have hy : (glyphBehind c w decoder before code).y
      = (glyphBehind c w decoder (before ++ [code]) next).y :=
    h.y_glyphBehind before (before ++ [code]) next
  have hheight : 0 ≤ (glyphBehind c w decoder before code).height :=
    mul_nonneg hratio (Rat.sqrt_nonneg _)
  refine decide_eq_false ?_
  rw [hy, sub_self, Scalar.greater_eq_max]
  show ¬ max _ _ < |(0 : ℚ)|
  rw [abs_zero, not_lt]
  exact hheight.trans (le_max_left _ _)

end Level

/-! ## The string -/

/-- Nothing lies between a glyph and the next one: they share a line and have no gap. -/
def Abut (previous glyph : Glyph ℚ) : Prop :=
  startsLine previous glyph = false ∧ Segmenter.gap? previous glyph = some 0

theorem reduceOption_glyphsBehind_cons {before codes : List Bytes} {code : Bytes}
    (htext : decoder.shownText code ≠ []) :
    (glyphsBehind c w decoder before (code :: codes)).reduceOption
      = glyphBehind c w decoder before code
        :: (glyphsBehind c w decoder (before ++ [code]) codes).reduceOption := by
  rw [glyphsBehind_cons, if_neg htext, List.reduceOption_cons_of_some]

/-- Codes that have a text and no negative width. -/
def Plain (decoder : Decoder ℚ) (codes : List Bytes) : Prop :=
  ∀ code ∈ codes, decoder.shownText code ≠ [] ∧ 0 ≤ decoder.width code

instance (decoder : Decoder ℚ) (codes : List Bytes) : Decidable (Plain decoder codes) :=
  inferInstanceAs (Decidable (∀ code ∈ codes, decoder.shownText code ≠ [] ∧ 0 ≤ decoder.width code))

theorem map_text_glyphsBehind {codes : List Bytes} (hcodes : Plain decoder codes)
    (before : List Bytes) :
    (glyphsBehind c w decoder before codes).reduceOption.map Glyph.text
      = codes.map decoder.shownText := by
  induction codes generalizing before with
  | nil => rfl
  | cons code codes ih =>
    obtain ⟨⟨htext, -⟩, hrest⟩ := List.forall_mem_cons.mp hcodes
    rw [reduceOption_glyphsBehind_cons htext, List.map_cons, List.map_cons, ih hrest]
    rfl

theorem isChain_glyphsBehind (h : Level c w) (hratio : 0 ≤ decoder.heightRatio)
    {codes : List Bytes} (hcodes : Plain decoder codes) (before : List Bytes) :
    (glyphsBehind c w decoder before codes).reduceOption.IsChain Abut := by
  induction codes generalizing before with
  | nil => exact .nil
  | cons code codes ih =>
    obtain ⟨⟨htext, hwidth⟩, hrest⟩ := List.forall_mem_cons.mp hcodes
    have hchain := ih hrest (before ++ [code])
    rw [reduceOption_glyphsBehind_cons htext]
    cases codes with
    | nil => exact .singleton _
    | cons next codes =>
      obtain ⟨⟨hnext, -⟩, -⟩ := List.forall_mem_cons.mp hrest
      rw [reduceOption_glyphsBehind_cons hnext] at hchain ⊢
      exact .cons_cons ⟨h.startsLine_glyphBehind before hratio next,
        h.gap?_glyphBehind before hwidth next⟩ hchain

variable {c : WalkContext ℚ (Press ℚ)} {w : Walker ℚ (Press ℚ)}

/-- Behind a glyph of the string that has been taken, the rest of the string goes into the same
paragraph. -/
theorem run_showCodes_behind (hc : c.listener = Press.listener) (h : Level c w)
    (hratio : 0 ≤ decoder.heightRatio) {page : Page.Frame ℚ} {codes : List Bytes}
    (hcodes : Plain decoder codes) (before : List Bytes) {code : Bytes}
    (hwidth : 0 ≤ decoder.width code) {v : Walker ℚ (Press ℚ)}
    (hv : v.textMatrix = w.textMatrix.translate (pen w.graphics decoder (before ++ [code])) 0)
    (hpage : v.listener.layout.page = some page)
    (hprevious : v.listener.layout.segmenter.previous = some (glyphBehind c w decoder before code))
    (htolerance : 0 < v.listener.layout.segmenter.options.wordGapTolerance) :
    (showCodes c w.graphics decoder codes).run v
      = (.ok (), { v with
          textMatrix := w.textMatrix.translate (pen w.graphics decoder (before ++ code :: codes)) 0
          listener := v.listener.extended
            (glyphsBehind c w decoder (before ++ [code]) codes).reduceOption }) := by
  induction codes generalizing before code v with
  | nil =>
    rw [← hv]
    rfl
  | cons next codes ih =>
    obtain ⟨⟨htext, hwidth'⟩, hrest⟩ := List.forall_mem_cons.mp hcodes
    let glyph' := glyphBehind c w decoder (before ++ [code]) next
    have hsend : (c.listener.receive (.glyph (glyph (device c.page w.graphics v.textMatrix)
        w.graphics decoder.heightRatio (decoder.asShown next)))).run v.listener
          = (.ok (), v.listener.extended [glyph']) := by
      rw [hv, glyph_device_translate, hc]
      exact Press.run_receive_of_gap_zero hpage hprevious
        (h.startsLine_glyphBehind before hratio next) (h.gap?_glyphBehind before hwidth next)
        htolerance
    have hmoved : v.textMatrix.translate (step w.graphics (decoder.asShown next)) 0
        = w.textMatrix.translate (pen w.graphics decoder (before ++ [code] ++ [next])) 0 := by
      rw [hv, Affine.translate_translate, pen_append _ _ (before ++ [code]), Walker.pen_single]
    have hrun := ih hrest (before ++ [code]) hwidth'
      (v := { v with
        textMatrix := v.textMatrix.translate (step w.graphics (decoder.asShown next)) 0
        listener := v.listener.extended [glyph'] }) hmoved hpage rfl htolerance
    have happend : before ++ code :: next :: codes = before ++ [code] ++ next :: codes := by
      rw [List.append_assoc, List.singleton_append]
    rw [run_showCodes_cons_of_ok htext hsend, hrun, happend,
      reduceOption_glyphsBehind_cons htext]
    rfl

/-- A string ends at its first glyph if that one is refused, with nothing changed; if it is taken,
the rest of the string goes behind it. -/
theorem run_showCodes_level (hc : c.listener = Press.listener) (h : Level c w)
    (hratio : 0 ≤ decoder.heightRatio) {page : Page.Frame ℚ} {codes : List Bytes}
    (hcodes : Plain decoder codes) (hpage : w.listener.layout.page = some page)
    (htolerance : 0 < w.listener.layout.segmenter.options.wordGapTolerance) :
    (showCodes c w.graphics decoder codes).run w
      = match (glyphsBehind c w decoder [] codes).reduceOption with
        | [] => (.ok (), w)
        | first :: rest =>
          match (Layout.addGlyph first).run w.listener.layout with
          | (.error e, _) => (.error e, w)
          | (.ok _, l) => (.ok (), { w with
              textMatrix := w.textMatrix.translate (pen w.graphics decoder codes) 0
              listener := ({ w.listener with layout := l } : Press ℚ).extended rest }) := by
  cases codes with
  | nil => rfl
  | cons first codes =>
    obtain ⟨⟨htext, hwidth⟩, hrest⟩ := List.forall_mem_cons.mp hcodes
    have hstart : w.textMatrix.translate (pen w.graphics decoder []) 0 = w.textMatrix := by
      rw [pen_nil, Affine.translate_zero]
    have hglyph := glyph_device_translate c w decoder [] first
    rw [hstart] at hglyph
    have hreceive : ∀ g, (Press.listener.receive (.glyph g)).run w.listener
        = (((Layout.addGlyph g).run w.listener.layout).1,
          { w.listener with layout := ((Layout.addGlyph g).run w.listener.layout).2 }) :=
      fun _ => rfl
    rw [run_showCodes_cons htext, hglyph, hc, hreceive,
      reduceOption_glyphsBehind_cons htext]
    simp only
    cases hadd : (Layout.addGlyph (glyphBehind c w decoder [] first)).run w.listener.layout with
    | mk answer l =>
      cases answer with
      | error e =>
        rw [Layout.eq_of_run_addGlyph_error hadd]
      | ok =>
        obtain ⟨hpage', hoptions, hprevious⟩ := Layout.of_run_addGlyph hpage hadd
        have hmoved : w.textMatrix.translate (step w.graphics (decoder.asShown first)) 0
            = w.textMatrix.translate (pen w.graphics decoder ([] ++ [first])) 0 := by
          rw [List.nil_append, Walker.pen_single]
        exact run_showCodes_behind hc h hratio hrest [] hwidth
          (v := { w with
            textMatrix := w.textMatrix.translate (step w.graphics (decoder.asShown first)) 0
            listener := { w.listener with layout := l } })
          hmoved (hpage'.trans hpage) hprevious (hoptions ▸ htolerance)

/-- Text shown in one piece stays in one piece: a string whose codes all have a text and no negative
width, shown without extra space under a map that keeps text straight and to the right, on a page
and with options that are accepted. Each code makes a glyph, and the glyphs abut. What comes before
them only decides about the first; if that one is taken, the others go into its paragraph as they
are, and the paragraph has their texts and nothing between them. -/
theorem show_contiguous {graph : Graph ℚ} {font : Nat} {descendant : Option Nat}
    {resource : Font ℚ} (hmade : Decoder.ofFont graph font descendant resource = .ok decoder)
    (hfont : w.graphics.font.bind c.model.decoder? = some decoder)
    (hc : c.listener = Press.listener) (h : Level c w) {page : Page.Frame ℚ}
    (hpage : w.listener.layout.page = some page)
    (hoptions : w.listener.layout.segmenter.options.check = .ok ()) {i : Instruction ℚ}
    {value : Object ℚ} (hvalue : i.operands[0]? = some value) {bytes : Bytes}
    (hbytes : stringBytes c.graph value = .ok bytes)
    (hcodes : Plain decoder (decoder.codes bytes)) (resources : Resources ℚ) :
    let glyphs := (glyphsBehind c w decoder [] (decoder.codes bytes)).reduceOption
    glyphs.map Glyph.text = (decoder.codes bytes).map decoder.shownText
      ∧ glyphs.IsChain Abut
      ∧ (∀ p : Press ℚ, (p.extended glyphs.tail).layout.segmenter.buffer.plain
        = (glyphs.tail.map Glyph.text).reverse ++ p.layout.segmenter.buffer.plain)
      ∧ (perform c resources i .show).run w = match glyphs with
        | [] => (.ok (), w)
        | first :: rest =>
          match (Layout.addGlyph first).run w.listener.layout with
          | (.error e, _) => (.error e, w)
          | (.ok _, l) => (.ok (), { w with
              textMatrix :=
                w.textMatrix.translate (pen w.graphics decoder (decoder.codes bytes)) 0
              listener := ({ w.listener with layout := l } : Press ℚ).extended rest }) := by
  intro glyphs
  have hratio := (Decoder.heightRatio_pos_of_ofFont hmade).le
  have hperform : perform c resources i .show = showString c value := by
    have hoperand : (operand i.operands 0 : Act (Walker ℚ (Press ℚ)) _) = pure value := by
      rw [operand, hvalue]
    rw [perform, hoperand, pure_bind]
  refine ⟨map_text_glyphsBehind hcodes [], isChain_glyphsBehind h hratio hcodes [],
    fun p => p.plain_extended _, ?_⟩
  rw [hperform, run_showString hfont hbytes]
  exact run_showCodes_level hc h hratio hcodes hpage (Segmenter.pos_of_check hoptions)

/-- A font without a table, whose codes are all half its size wide. -/
def bareFont : Font ℚ := ⟨0, Text.lit "F", none, none, none, none, 0, 0, 0, none, 0⟩

def bareDecoder : Decoder ℚ := ⟨false, [], .none, {}, [], 500, 7 / 10⟩

/-- A document without objects, laid out with that font. -/
def bareContext : WalkContext ℚ (Press ℚ) where
  graph := { nodes := #[], objects := [] }
  model := { catalog := ⟨#[], #[]⟩, decoders := [(0, bareDecoder)] }
  page := .identity
  listener := Press.listener

/-- A walk on a page with that font in ten units. -/
def onPage : Walker ℚ (Press ℚ) :=
  let layout : Layout ℚ := .start .standard .memory {}
  { start { layout := { layout with page := some (Page.frame 1 none .none) } } with
    graphics := { initialGraphics with font := some bareFont, fontSize := 10 } }

/-- A string of two letters on an empty page is one paragraph. -/
theorem show_contiguous_onPage :
    ((perform bareContext .empty ⟨Text.lit "Tj", [.bytes [0x41, 0x42]]⟩ .show).run
      onPage).2.listener.layout.segmenter.buffer.plain = [Text.lit "B", Text.lit "A"] := by
  have hlevel : Level bareContext onPage :=
    ⟨rfl, rfl, by decide +kernel, by decide +kernel, by decide +kernel, by decide +kernel⟩
  have hplain : Plain bareDecoder (bareDecoder.codes [0x41, 0x42]) := by decide +kernel
  have hoptions : onPage.listener.layout.segmenter.options.check = .ok () := by
    have hpasses : onPage.listener.layout.segmenter.options.check.toOption = some () := by
      decide +kernel
    cases hcheck : onPage.listener.layout.segmenter.options.check with
    | error e =>
      rw [hcheck] at hpasses
      cases hpasses
    | ok => rfl
  have hmade : Decoder.ofFont { nodes := #[], objects := [] } 0 none bareFont
      = .ok bareDecoder := rfl
  obtain ⟨-, -, -, hrun⟩ := show_contiguous hmade rfl rfl hlevel rfl hoptions
    (i := ⟨Text.lit "Tj", [.bytes [0x41, 0x42]]⟩) rfl rfl hplain .empty
  rw [hrun]
  decide +kernel

end Walker

end Pdf

end Folio
