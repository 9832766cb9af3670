import Mathlib
import Folio.Proofs.Pdf.Showing
import Folio.Proofs.Scalar.Rational

/-!
# Where shown glyphs stand

A string is shown code by code, and each code moves the text matrix on, so that the place of a glyph
comes out of a matrix that the codes before it have built up. Over exact numbers it is that of the
sum of their steps (`pen`) under the map that the string starts with (`textSpace`): the step from
one code to the next is `translate_translate`, and `run_showCodes_shown` carries it through the
string. Codes without text count in the sum and make no glyph. A code that cannot be read ends the
string, and the codes behind it neither make a glyph nor move the text matrix.
-/

namespace Folio

namespace Affine

theorem concatenate_assoc (t s r : Affine ℚ) :
    (t.concatenate s).concatenate r = t.concatenate (s.concatenate r) := by
  simp only [concatenate, mk.injEq]
  refine ⟨?_, ?_, ?_, ?_, ?_, ?_⟩ <;> ring

theorem translate_zero (t : Affine ℚ) : t.translate 0 0 = t := by
  rw [translate, concatenate]
  simp

theorem translate_translate (t : Affine ℚ) (x y : ℚ) :
    (t.translate x 0).translate y 0 = t.translate (x + y) 0 := by
  rw [translate, translate, concatenate_assoc, translate]
  simp only [concatenate, mk.injEq]
  refine ⟨?_, ?_, ?_, ?_, ?_, ?_⟩ <;> ring

end Affine

namespace Pdf

namespace Decoder

variable {decoder : Decoder ℚ} {code : Bytes}

/-- The text that a code is shown with, if it can be read. -/
def shownText (decoder : Decoder ℚ) (code : Bytes) : Text :=
  (decoder.text code).toOption.getD []

/-- The code as it is shown. -/
def asShown (decoder : Decoder ℚ) (code : Bytes) : ShownCode ℚ :=
  ⟨code, decoder.shownText code, decoder.width code⟩

theorem shownText_of_text {t : Text} (h : decoder.text code = .ok t) :
    decoder.shownText code = t := by
  rw [shownText, h]
  rfl

theorem shown_of_text {t : Text} (h : decoder.text code = .ok t) :
    decoder.shown code = .ok (decoder.asShown code) := by
  rw [shown, h, asShown, shownText_of_text h]
  rfl

/-- A code with a text can be read. -/
theorem text_of_shownText_ne_nil (h : decoder.shownText code ≠ []) :
    decoder.text code = .ok (decoder.shownText code) := by
  unfold shownText at h ⊢
  cases ht : decoder.text code with
  | ok t => rfl
  | error e =>
    rw [ht] at h
    exact absurd rfl h

end Decoder

namespace Walker

/-! ## The pen -/

/-- How far codes move the pen on, in text space. Word spacing counts for the single byte of a
blank. -/
def pen (g : Graphics ℚ) (decoder : Decoder ℚ) (codes : List Bytes) : ℚ :=
  (codes.map fun code =>
    decoder.width code / 1000 * g.fontSize + g.charSpacing
      + if code = [0x20] then g.wordSpacing else 0).sum * (g.scaling / 100)

theorem pen_nil (g : Graphics ℚ) (decoder : Decoder ℚ) : pen g decoder [] = 0 := by
  rw [pen, List.map_nil, List.sum_nil, zero_mul]

theorem pen_append (g : Graphics ℚ) (decoder : Decoder ℚ) (before codes : List Bytes) :
    pen g decoder (before ++ codes) = pen g decoder before + pen g decoder codes := by
  rw [pen, pen, pen, List.map_append, List.sum_append, add_mul]

theorem pen_single (g : Graphics ℚ) (decoder : Decoder ℚ) (code : Bytes) :
    pen g decoder [code] = step g (decoder.asShown code) := by
  have hstep : step g (decoder.asShown code)
      = (if code = [0x20] then
          decoder.width code / 1000 * g.fontSize + g.charSpacing + g.wordSpacing
        else decoder.width code / 1000 * g.fontSize + g.charSpacing) * (g.scaling / 100) := rfl
  rw [pen, List.map_singleton, List.sum_singleton, hstep]
  split
  · rfl
  · rw [add_zero]

variable {σ : Type} (c : WalkContext ℚ σ) (w : Walker ℚ σ) (decoder : Decoder ℚ)

/-- The map from text space to the page. -/
def textSpace : Affine ℚ := (c.page.concatenate w.graphics.ctm).concatenate w.textMatrix

/-- The glyph of a code that is shown behind others. -/
def glyphBehind (before : List Bytes) (code : Bytes) : Glyph ℚ :=
  let g := w.graphics
  let t := textSpace c w
  let origin := t.apply (pen g decoder before) g.rise
  let size := g.fontSize * (g.scaling / 100)
  { text := decoder.shownText code
    x := origin.x
    y := origin.y
    width := Scalar.hypot (t.a * (decoder.width code / 1000 * size))
      (t.b * (decoder.width code / 1000 * size))
    height := decoder.heightRatio * Scalar.hypot (t.c * g.fontSize) (t.d * g.fontSize)
    font := g.font
    fontSize := g.fontSize
    xScale := Scalar.hypot (t.a * size) (t.b * size)
    yScale := Scalar.hypot (t.c * g.fontSize) (t.d * g.fontSize) }

/-- What each of the codes makes behind others: a glyph, or nothing if it has no text. -/
def glyphsBehind (before codes : List Bytes) : List (Option (Glyph ℚ)) :=
  codes.mapIdx fun i code =>
    if decoder.shownText code = [] then none
    else some (glyphBehind c w decoder (before ++ codes.take i) code)

theorem glyphsBehind_cons (before codes : List Bytes) (code : Bytes) :
    glyphsBehind c w decoder before (code :: codes)
      = (if decoder.shownText code = [] then none else some (glyphBehind c w decoder before code))
        :: glyphsBehind c w decoder (before ++ [code]) codes := by
  unfold glyphsBehind
  rw [List.mapIdx_cons]
  simp only [List.take_zero, List.append_nil, List.take_succ_cons, List.append_assoc,
    List.singleton_append]

/-- A text matrix that has been moved on puts a glyph of size one at that place. -/
theorem device_translate (x : ℚ) :
    let g := w.graphics
    let t := textSpace c w
    let size := g.fontSize * (g.scaling / 100)
    device c.page g (w.textMatrix.translate x 0)
      = ⟨t.a * size, t.b * size, t.c * g.fontSize, t.d * g.fontSize, (t.apply x g.rise).x,
          (t.apply x g.rise).y⟩ := by
  intro g t size
  have hhundred : (Scalar.ofNat 100 : ℚ) = 100 := rfl
  rw [device, Affine.translate, ← Affine.concatenate_assoc, Affine.concatenate_assoc, hhundred]
  simp only [Affine.concatenate, Affine.apply, Affine.mk.injEq, t, textSpace]
  refine ⟨?_, ?_, ?_, ?_, ?_, ?_⟩ <;> ring

theorem glyph_device_translate (before : List Bytes) (code : Bytes) :
    glyph (device c.page w.graphics (w.textMatrix.translate (pen w.graphics decoder before) 0))
        w.graphics decoder.heightRatio (decoder.asShown code)
      = glyphBehind c w decoder before code := by
  have hthousand : Scalar.perMille (decoder.asShown code).width = decoder.width code / 1000 := rfl
  -- The start and the end of the glyph differ by its width alone.
  have hsize : ∀ a e c' : ℚ, a * (decoder.width code / 1000) + c' * 0 + e - (a * 0 + c' * 0 + e)
      = a * (decoder.width code / 1000) := by
    intro a e c'
    ring
  rw [device_translate]
  simp only [glyph, glyphBehind, Affine.apply, hthousand, hsize, Glyph.mk.injEq]
  refine ⟨rfl, by ring, by ring, ?_, trivial, trivial, trivial, trivial, trivial⟩
  congr 1 <;> ring

/-! ## Showing -/

variable {c w decoder}

/-- A code whose glyph is taken moves the text matrix on, and the next code is shown from there; one
whose glyph is refused ends the string. -/
theorem run_showCodes_cons {g : Graphics ℚ} {code : Bytes} (htext : decoder.shownText code ≠ [])
    (rest : List Bytes) (v : Walker ℚ σ) :
    (showCodes c g decoder (code :: rest)).run v
      = match (c.listener.receive (.glyph (glyph (device c.page g v.textMatrix) g
          decoder.heightRatio (decoder.asShown code)))).run v.listener with
        | (.ok _, l) => (showCodes c g decoder rest).run
          { v with
            textMatrix := v.textMatrix.translate (step g (decoder.asShown code)) 0
            listener := l }
        | (.error e, l) => (.error e, { v with listener := l }) := by
  have hshown := Decoder.shown_of_text (Decoder.text_of_shownText_ne_nil htext)
  have hnonempty : (!(decoder.asShown code).text.isEmpty) = true := by
    simpa [Decoder.asShown] using htext
  rw [showCodes, hshown, Act.run_bind_ok (Act.run_ofExcept _ v), if_pos hnonempty,
    Act.run_bind_ok (Act.run_get v), Act.run_bind, send, Act.run_onPart]
  rcases (c.listener.receive (.glyph (glyph (device c.page g v.textMatrix) g decoder.heightRatio
    (decoder.asShown code)))).run v.listener with ⟨_ | _, l⟩
  · rfl
  · exact Act.run_bind_ok (Act.run_modify _ _)

theorem run_showCodes_cons_of_ok {g : Graphics ℚ} {code : Bytes}
    (htext : decoder.shownText code ≠ []) {v : Walker ℚ σ} {b : Unit} {l : σ}
    (hsend : (c.listener.receive (.glyph (glyph (device c.page g v.textMatrix) g
      decoder.heightRatio (decoder.asShown code)))).run v.listener = (.ok b, l))
    (rest : List Bytes) :
    (showCodes c g decoder (code :: rest)).run v
      = (showCodes c g decoder rest).run
        { v with
          textMatrix := v.textMatrix.translate (step g (decoder.asShown code)) 0
          listener := l } := by
  rw [run_showCodes_cons htext, hsend]

/-- A code without text only moves the text matrix on. -/
theorem run_showCodes_cons_of_text_eq_nil {g : Graphics ℚ} {code : Bytes}
    (htext : decoder.text code = .ok []) (rest : List Bytes) (v : Walker ℚ σ) :
    (showCodes c g decoder (code :: rest)).run v
      = (showCodes c g decoder rest).run
        { v with textMatrix := v.textMatrix.translate (step g (decoder.asShown code)) 0 } := by
  have hempty : ¬ (!(decoder.asShown code).text.isEmpty) = true := by
    simp [Decoder.asShown, Decoder.shownText_of_text htext]
  rw [showCodes, Decoder.shown_of_text htext, Act.run_bind_ok (Act.run_ofExcept _ v),
    if_neg hempty, advance, Act.run_bind_ok (Act.run_modify _ _)]

/-- What becomes of the listener when it is told of a glyph. -/
def hear (c : WalkContext ℚ σ) (l : σ) (glyph : Glyph ℚ) : σ :=
  ((c.listener.receive (.glyph glyph)).run l).2

/-- The invariant of a string: behind the codes before it, the text matrix has been moved on by
their steps. -/
theorem run_showCodes_shown (hlistener : ∀ g, (c.listener.receive (.glyph g)).Succeeds)
    (before codes : List Bytes) {v : Walker ℚ σ}
    (hv : v.textMatrix = w.textMatrix.translate (pen w.graphics decoder before) 0) :
    (showCodes c w.graphics decoder codes).run v
      = (decoder.outcome codes, { v with
          textMatrix :=
            w.textMatrix.translate (pen w.graphics decoder (before ++ decoder.readable codes)) 0
          listener := (glyphsBehind c w decoder before (decoder.readable codes)).reduceOption.foldl
            (hear c) v.listener }) := by
  induction codes generalizing before v with
  | nil =>
    have hnone : decoder.readable [] = [] := rfl
    rw [hnone, List.append_nil, ← hv]
    rfl
  | cons code codes ih =>
    cases ht : decoder.text code with
    | error e =>
      rw [run_showCodes_cons_of_error ht, Decoder.readable_cons_of_error ht,
        Decoder.outcome_cons_of_error ht, List.append_nil, ← hv]
      rfl
    | ok t =>
      have hmoved : v.textMatrix.translate (step w.graphics (decoder.asShown code)) 0
          = w.textMatrix.translate (pen w.graphics decoder (before ++ [code])) 0 := by
        rw [hv, Affine.translate_translate, pen_append, pen_single]
      have happend : before ++ code :: decoder.readable codes
          = before ++ [code] ++ decoder.readable codes := by
        rw [List.append_assoc, List.singleton_append]
      rw [Decoder.readable_cons_of_text ht, Decoder.outcome_cons_of_text ht, glyphsBehind_cons,
        happend]
      by_cases htext : decoder.shownText code = []
      · have hempty : decoder.text code = .ok [] := by
          rw [ht, ← Decoder.shownText_of_text ht, htext]
        rw [run_showCodes_cons_of_text_eq_nil hempty, ih (before ++ [code]) hmoved, if_pos htext,
          List.reduceOption_cons_of_none]
      · obtain ⟨_, l, hreceive⟩ := hlistener (glyphBehind c w decoder before code) v.listener
        have hhear : hear c v.listener (glyphBehind c w decoder before code) = l := by
          rw [hear, hreceive]
        rw [← glyph_device_translate, ← hv] at hreceive
        rw [run_showCodes_cons_of_ok htext hreceive, ih (before ++ [code]) hmoved, if_neg htext,
          List.reduceOption_cons_of_some, List.foldl_cons, hhear]

/-- A string is shown by its codes. -/
theorem run_showString {value : Object ℚ} {bytes : Bytes}
    (hfont : w.graphics.font.bind c.model.decoder? = some decoder)
    (hbytes : stringBytes c.graph value = .ok bytes) :
    (showString c value).run w
      = (showCodes c w.graphics decoder (decoder.codes bytes)).run w := by
  rw [run_showString_of_bytes hbytes, hfont]

/-- A shown string, over exact numbers and for a listener that never fails. Each code that it comes
to makes one glyph if it has a text and none otherwise, at the place that the codes before it have
moved the pen to; a byte that is left over is no code. The text matrix has then been moved on by all
these codes, and nothing else has changed. It comes to every code if all of them can be read;
otherwise it ends in front of the first that cannot be, in the fault that reading it ends in. Only a
byte that the font leaves to an encoding cannot be read, where that encoding fails on it. -/
theorem run_showString_eq {value : Object ℚ} {bytes : Bytes}
    (hfont : w.graphics.font.bind c.model.decoder? = some decoder)
    (hbytes : stringBytes c.graph value = .ok bytes)
    (hlistener : ∀ g, (c.listener.receive (.glyph g)).Succeeds) :
    let codes := decoder.codes bytes
    ((showString c value).run w
      = (decoder.outcome codes, { w with
          textMatrix := w.textMatrix.translate (pen w.graphics decoder (decoder.readable codes)) 0
          listener := (glyphsBehind c w decoder [] (decoder.readable codes)).reduceOption.foldl
            (hear c) w.listener }))
      ∧ ((∀ code ∈ codes, decoder.reads code = true) →
        decoder.readable codes = codes ∧ decoder.outcome codes = .ok ())
      ∧ (∀ before code after e, codes = before ++ code :: after →
        (∀ code' ∈ before, decoder.reads code' = true) → decoder.text code = .error e →
        decoder.readable codes = before ∧ decoder.outcome codes = .error e)
      ∧ (∀ code e, decoder.text code = .error e ↔ decoder.mapped? code = none
        ∧ ∃ name byte, code = [byte] ∧ decoder.table = .encoding name
          ∧ decoder.lexicon.decode name byte = .error e) := by
  intro codes
  have hstart : w.textMatrix = w.textMatrix.translate (pen w.graphics decoder []) 0 := by
    rw [pen_nil, Affine.translate_zero]
  refine ⟨?_, Decoder.readable_of_reads, fun before code after e hcodes hbefore hcode => ?_,
    fun code e => Decoder.text_eq_error_iff⟩
  · rw [run_showString hfont hbytes, run_showCodes_shown hlistener [] codes hstart,
      List.nil_append]
  · rw [hcodes]
    exact Decoder.readable_of_text_eq_error hbefore hcode

/-- A font that is its own text, and one whose map has two letters and whose encoding is none that
can be used. The codes of both are half the size wide. The listener notes which texts it is sent and
where they start. -/
def noting : WalkContext ℚ (List (Text × ℚ)) where
  graph := { nodes := #[], objects := [] }
  model :=
    let plain : Decoder ℚ := ⟨false, [], .none, {}, [], 500, 7 / 10⟩
    let failing : Lexicon :=
      { decode := fun _ _ => .error (.badValue (Text.lit "undefined encoding")) }
    let letters := [Text.lit "A", Text.lit "B"].map fun t => (t, t)
    { catalog := ⟨#[], #[]⟩
      decoders :=
        [(0, plain),
          (1, { plain with
            texts := letters, table := .encoding (Text.lit "undefined"), lexicon := failing })] }
  page := .identity
  listener :=
    ⟨fun e => match e with
      | .glyph g => modify (· ++ [(g.text, g.x)])
      | _ => pure (),
    fun _ _ => pure (), fun _ l => l⟩

/-- A walk with the first font in ten units, one unit between codes and two more behind blanks. -/
def spacedOut : Walker ℚ (List (Text × ℚ)) :=
  let font : Font ℚ := ⟨0, Text.lit "F", none, none, none, none, 0, 0, 0, none, 0⟩
  { start [] with
    graphics :=
      { initialGraphics with
        font := some font, fontSize := 10, charSpacing := 1, wordSpacing := 2 } }

/-- The same walk with the second font. -/
def halfRead : Walker ℚ (List (Text × ℚ)) :=
  let font : Font ℚ := ⟨1, Text.lit "G", none, none, none, none, 0, 0, 0, none, 0⟩
  { spacedOut with graphics := { spacedOut.graphics with font := some font } }

/-- The code between the blank and the last letter has no text; it makes no glyph, and the letter
stands behind it. With the other font the string ends at the blank, which its map lacks. -/
theorem run_showString_eq_spacedOut :
    ((showString noting (.bytes [0x41, 0x20, 0x01, 0x42])).run spacedOut).2.listener
        = [(Text.lit "A", 0), (Text.lit " ", 6), (Text.lit "B", 20)]
      ∧ ((showString noting (.bytes [0x41, 0x20, 0x01, 0x42])).run spacedOut).2.textMatrix.e
        = 26
      ∧ ((showString noting (.bytes [0x41, 0x20, 0x01, 0x42])).run halfRead).2.listener
        = [(Text.lit "A", 0)]
      ∧ ((showString noting (.bytes [0x41, 0x20, 0x01, 0x42])).run halfRead).2.textMatrix.e
        = 6 := by
  have hlistener : ∀ g, (noting.listener.receive (.glyph g)).Succeeds := fun _ => .modify _
  rw [(run_showString_eq (w := spacedOut) rfl rfl hlistener).1,
    (run_showString_eq (w := halfRead) rfl rfl hlistener).1]
  exact ⟨by decide +kernel, by decide +kernel, by decide +kernel, by decide +kernel⟩

end Walker

end Pdf

end Folio
