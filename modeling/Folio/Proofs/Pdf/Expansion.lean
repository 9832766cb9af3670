import Folio.Proofs.Pdf.Pen
import Folio.Proofs.Pdf.Skipping

/-!
# Compound text operators

Some text operators are short for others, and a string or an array may be shown in pieces. `Expands`
lists what stands for what: an operator with operands that can be read, and the operators that it is
short for from a given state. `walk_expanded` says that either content leads any walk to the same
state, the listener included, whatever follows; the listener is one that takes every event.

All expansions but the last operator only change the state, so that both contents come down to one
operator from one state (`run_walk_cons_congr`). For strings that state is the one behind the first
piece: showing changes no part of the graphics state, and the bytes of whole codes are split on
their own (`Decoder.codes_append_of_dvd`).

What is shown in pieces has to be legible for that. A code that cannot be read ends the operator it
belongs to: in one piece nothing is shown behind it, while the pieces that follow are operators of
their own and are shown. `Diverges` lists these cases, in which the two contents part.
-/

namespace Folio.Pdf

/-- Strings are shown; every other item of an array moves the text. -/
def Object.isString {α : Type} : Object α → Bool
  | .text .. | .bytes _ => true
  | _ => false

namespace Walker

open Act (goesOn_ok goesOn_error_iff)
open Text (lit)

variable {α σ : Type} [Scalar α] {c : WalkContext α σ}

/-! ## Operators within a walk -/

section

variable {idle : List Nat} {resources : Resources α} {i j : Instruction α} {w w' : Walker α σ}

theorem carryOut_of_operator {verb : Verb} (hverb : Verb.ofName? i.operator = some verb)
    (hne : verb ≠ .drawObject) :
    carryOut c idle resources i = perform c resources i verb := by
  rw [carryOut, turn_of_operator hverb hne]

/-- A malformed operator is passed over, and the walk goes on from what it leaves; any other fault
ends the walk there. -/
theorem run_walk_cons_of_fault {e : Fault}
    (hrun : (carryOut c idle resources i).run w = (.error e, w')) (rest : List (Instruction α)) :
    (walk c idle resources (i :: rest)).run w
      = if e.isMalformed then (walk c idle resources rest).run w' else (.error e, w') := by
  by_cases hmalformed : e.isMalformed = true
  · rw [if_pos hmalformed]
    exact run_walk_cons_of_ok hrun (goesOn_error_iff.mpr hmalformed)
  · rw [if_neg hmalformed]
    exact run_walk_cons_of_error hrun (mt goesOn_error_iff.mp hmalformed)

/-- Behind an operator that is carried out the walk goes on from the state it leads to. -/
theorem run_walk_cons_of_perform {verb : Verb} (hverb : Verb.ofName? i.operator = some verb)
    (hne : verb ≠ .drawObject) (hrun : (perform c resources i verb).run w = (.ok (), w'))
    (rest : List (Instruction α)) :
    (walk c idle resources (i :: rest)).run w = (walk c idle resources rest).run w' := by
  have hcarried : (carryOut c idle resources i).run w = (.ok (), w') := by
    rw [carryOut_of_operator hverb hne, hrun]
  exact run_walk_cons_of_ok hcarried (goesOn_ok _)

/-- Contents are alike if their first instructions do the same and their rests are equal, malformed
instructions included. -/
theorem run_walk_cons_congr
    (h : (carryOut c idle resources i).run w = (carryOut c idle resources j).run w')
    (rest : List (Instruction α)) :
    (walk c idle resources (i :: rest)).run w = (walk c idle resources (j :: rest)).run w' := by
  rw [walk_cons, walk_cons, Act.run_bind, Act.run_bind, run_skipMalformed, run_skipMalformed, h]

end

/-! ## Operands -/

theorem one_eq {o : Object α} {x : α} (h : c.graph.numberOr 0 o = .ok x) :
    one c [o] = pure x := by
  have hnumbers : numbers c [o] 1 = .ok [x] := by
    rw [numbers, if_neg (by simp), List.take_succ_cons, List.take_zero, List.mapM_cons, h]
    rfl
  rw [one, hnumbers]
  rfl

theorem two_eq {o p : Object α} {x y : α} (hx : c.graph.numberOr 0 o = .ok x)
    (hy : c.graph.numberOr 0 p = .ok y) (rest : List (Object α)) :
    two c (o :: p :: rest) = pure (x, y) := by
  have hnumbers : numbers c (o :: p :: rest) 2 = .ok [x, y] := by
    rw [numbers, if_neg (by simp), List.take_succ_cons, List.take_succ_cons, List.take_zero,
      List.mapM_cons, hx, List.mapM_cons, hy]
    rfl
  rw [two, hnumbers]
  rfl

/-! ## Showing in pieces -/

/-- All of the bytes can be read in the font, if there is one to read them in. -/
def Legible (c : WalkContext α σ) (font : Option (Font α)) (bytes : Bytes) : Prop :=
  ∀ decoder ∈ font.bind c.model.decoder?, ∀ code ∈ decoder.codes bytes, decoder.reads code = true

/-- Showing a string changes no part of the graphics state, and a legible one is shown to its
end. -/
theorem exists_run_showString (hc : c.listener.TakesAll) {value : Object α} {bytes : Bytes}
    (hbytes : stringBytes c.graph value = .ok bytes) (w : Walker α σ) :
    ∃ answer w', (showString c value).run w = (answer, w') ∧ w'.graphics = w.graphics
      ∧ (Legible c w.graphics.font bytes → answer = .ok ()) := by
  rw [run_showString_of_bytes hbytes]
  cases hfont : w.graphics.font.bind c.model.decoder? with
  | none => exact ⟨.ok (), w, rfl, rfl, fun _ => rfl⟩
  | some decoder =>
    obtain ⟨w', -, hall⟩ := run_showCodes_readable (fun _ => hc _) w.graphics decoder
      (decoder.codes bytes) w
    refine ⟨_, w', hall, ?_, fun hlegible => Decoder.outcome_eq_ok_iff.mpr (hlegible decoder hfont)⟩
    have hkept := keeps_graphics_showCodes c w.graphics w.graphics decoder (decoder.codes bytes) w rfl
    rwa [hall] at hkept

/-- Whole codes are shown, and then the rest of the string is shown behind them, if they are shown
to the end. -/
theorem run_showString_append {first second both : Object α} {bytes more : Bytes}
    {w w' : Walker α σ} {answer : Except Fault Unit}
    (hfirst : stringBytes c.graph first = .ok bytes)
    (hsecond : stringBytes c.graph second = .ok more)
    (hboth : stringBytes c.graph both = .ok (bytes ++ more))
    (hwhole : ∀ decoder ∈ w.graphics.font.bind c.model.decoder?,
      decoder.codeLength ∣ bytes.length)
    (hrun : (showString c first).run w = (answer, w')) (hgraphics : w'.graphics = w.graphics) :
    (showString c both).run w = match answer with
      | .ok () => (showString c second).run w'
      | .error e => (.error e, w') := by
  rw [run_showString_of_bytes hfirst] at hrun
  rw [run_showString_of_bytes hboth, run_showString_of_bytes hsecond, hgraphics]
  cases hfont : w.graphics.font.bind c.model.decoder? with
  | none =>
    rw [hfont] at hrun
    cases hrun
    rfl
  | some decoder =>
    simp only [hfont] at hrun
    simp only
    rw [Decoder.codes_append_of_dvd (hwhole decoder hfont), showCodes_append, Act.run_bind, hrun]
    cases answer <;> rfl

/-- What breaks off on its own breaks off there with anything behind it. -/
theorem run_showString_append_of_breaksOff (hc : c.listener.TakesAll)
    {first second both : Object α} {bytes more : Bytes} {w w' : Walker α σ} {e : Fault}
    (hfirst : stringBytes c.graph first = .ok bytes)
    (hsecond : stringBytes c.graph second = .ok more)
    (hboth : stringBytes c.graph both = .ok (bytes ++ more))
    (hwhole : ∀ decoder ∈ w.graphics.font.bind c.model.decoder?,
      decoder.codeLength ∣ bytes.length) (h : BreaksOff c first e w w') :
    (showString c both).run w = (.error e, w') := by
  have hrun := h.run_showString fun _ => hc _
  obtain ⟨answer, v, hrun', hgraphics, -⟩ := exists_run_showString hc hfirst w
  rw [hrun] at hrun'
  obtain ⟨rfl, rfl⟩ := Prod.mk.inj hrun'
  exact run_showString_append hfirst hsecond hboth hwhole hrun hgraphics

theorem carryOut_show (idle : List Nat) (resources : Resources α) (s : Object α) :
    carryOut c idle resources ⟨lit "Tj", [s]⟩ = showString c s := by
  have hshow : Verb.ofName? (lit "Tj") = some .show := by decide
  rw [carryOut_of_operator hshow (by decide)]
  rfl

theorem run_carryOut_showArray (idle : List Nat) (resources : Resources α) {array : Object α}
    {items : List (Object α)} (h : itemsOf c.graph array = .ok items) (w : Walker α σ) :
    (carryOut c idle resources ⟨lit "TJ", [array]⟩).run w = (showItems c items).run w := by
  have hshowArray : Verb.ofName? (lit "TJ") = some .showArray := by decide
  rw [carryOut_of_operator hshowArray (by decide)]
  show (Act.ofExcept (itemsOf c.graph array) >>= showItems c).run w = _
  rw [h, Act.run_bind_ok (Act.run_ofExcept _ w)]

/-- An item of an array on its own: a string is shown, and a number is the only item of an array. -/
def apart (item : Object α) : Instruction α :=
  if item.isString then ⟨lit "Tj", [item]⟩ else ⟨lit "TJ", [.array [item]]⟩

theorem showItems_string {item : Object α} (h : item.isString = true) :
    showItems c [item] = showString c item := by
  have hnone : showItems c [] = pure () := by rw [showItems]
  unfold showItems
  split
  · rw [hnone, bind_pure]
  · rw [hnone, bind_pure]
  next hother => cases item <;> simp_all [Object.isString]

theorem carryOut_apart (idle : List Nat) (resources : Resources α) (item : Object α) :
    carryOut c idle resources (apart item) = showItems c [item] := by
  unfold apart
  split
  next h => rw [carryOut_show, showItems_string h]
  next =>
    have hshowArray : Verb.ofName? (lit "TJ") = some .showArray := by decide
    rw [carryOut_of_operator hshowArray (by decide)]
    rfl

/-- What an array holds can be shown in the font: every string is legible, and every number can be
read. -/
def Showable (c : WalkContext α σ) (font : Option (Font α)) (item : Object α) : Prop :=
  if item.isString then ∃ bytes, stringBytes c.graph item = .ok bytes ∧ Legible c font bytes
  else ∃ x, c.graph.numberOr 0 item = .ok x

/-- A number moves the text back, in thousandths of the font size, and does nothing else. -/
theorem run_showItems_number {item : Object α} (hitem : item.isString = false) {x : α}
    (hx : c.graph.numberOr 0 item = .ok x) (w : Walker α σ) :
    (showItems c [item]).run w
      = (.ok (), { w with
          textMatrix := w.textMatrix.translate
            (Scalar.perMille (-x) * w.graphics.fontSize * w.graphics.scaling / Scalar.ofNat 100)
            0 }) := by
  unfold showItems
  split
  · cases hitem
  · cases hitem
  · rw [Act.run_bind_ok (Act.run_get w), hx, Act.run_bind_ok (Act.run_ofExcept _ w), advance,
      Act.run_bind_ok (Act.run_modify _ w)]
    rfl

theorem exists_run_showItem (hc : c.listener.TakesAll) {item : Object α} {w : Walker α σ}
    (h : Showable c w.graphics.font item) :
    ∃ w', (showItems c [item]).run w = (.ok (), w') ∧ w'.graphics = w.graphics := by
  cases hstring : item.isString with
  | false =>
    rw [Showable, hstring] at h
    obtain ⟨x, hx⟩ := h
    exact ⟨_, run_showItems_number hstring hx w, rfl⟩
  | true =>
    rw [Showable, hstring, if_pos rfl] at h
    obtain ⟨bytes, hbytes, hlegible⟩ := h
    obtain ⟨answer, w', hrun, hgraphics, hanswer⟩ := exists_run_showString hc hbytes w
    rw [showItems_string hstring]
    exact ⟨w', hanswer hlegible ▸ hrun, hgraphics⟩

/-- Items that can be shown are shown by the array as they are one by one. -/
theorem run_walk_apart (hc : c.listener.TakesAll) (idle : List Nat) (resources : Resources α)
    {items : List (Object α)} {w : Walker α σ}
    (hitems : ∀ item ∈ items, Showable c w.graphics.font item) (rest : List (Instruction α)) :
    ∃ w', (showItems c items).run w = (.ok (), w')
      ∧ (walk c idle resources (items.map apart ++ rest)).run w
        = (walk c idle resources rest).run w' := by
  induction items generalizing w with
  | nil => exact ⟨w, rfl, rfl⟩
  | cons item items ih =>
    obtain ⟨hitem, hrest⟩ := List.forall_mem_cons.mp hitems
    obtain ⟨w₁, hfirst, hgraphics⟩ := exists_run_showItem hc hitem
    obtain ⟨w', hshown, hwalked⟩ := ih (w := w₁) fun next hnext => hgraphics ▸ hrest next hnext
    refine ⟨w', ?_, ?_⟩
    · rw [← List.singleton_append, showItems_append, Act.run_bind_ok hfirst, hshown]
    · have hcarried : (carryOut c idle resources (apart item)).run w = (.ok (), w₁) := by
        rw [carryOut_apart, hfirst]
      rw [List.map_cons, List.cons_append, run_walk_cons_of_ok hcarried (goesOn_ok _), hwalked]

/-- Strings of whole codes are shown by an array as their bytes are in one piece, also where they
break off. -/
theorem run_showItems_strings (hc : c.listener.TakesAll) {items : List (Object α)}
    {pieces : List Bytes}
    (hitems : List.Forall₂ (fun item bytes => item.isString = true
      ∧ stringBytes c.graph item = .ok bytes) items pieces)
    {w : Walker α σ} (hwhole : ∀ decoder ∈ w.graphics.font.bind c.model.decoder?,
      ∀ bytes ∈ pieces, decoder.codeLength ∣ bytes.length) :
    (showItems c items).run w = (showString c (.bytes pieces.flatten)).run w := by
  induction hitems generalizing w with
  | nil =>
    have hnone : stringBytes c.graph (.bytes []) = .ok [] := rfl
    rw [List.flatten_nil, run_showString_of_bytes hnone]
    cases w.graphics.font.bind c.model.decoder? with
    | none => rfl
    | some decoder =>
      have hcodes : decoder.codes [] = [] := Decoder.codes_of_length_lt decoder.codeLength_pos
      simp only [hcodes]
      rfl
  | @cons item bytes items pieces hitem _ ih =>
    obtain ⟨hstring, hbytes⟩ := hitem
    have hmore : stringBytes c.graph (.bytes pieces.flatten) = .ok pieces.flatten := rfl
    have hall : stringBytes c.graph (.bytes (bytes ++ pieces.flatten))
        = .ok (bytes ++ pieces.flatten) := rfl
    obtain ⟨answer, w', hfirst, hgraphics, -⟩ := exists_run_showString hc hbytes w
    have hboth := run_showString_append hbytes hmore hall
      (fun decoder hdecoder => hwhole decoder hdecoder bytes List.mem_cons_self) hfirst hgraphics
    rw [← List.singleton_append, showItems_append, showItems_string hstring, Act.run_bind, hfirst,
      List.flatten_cons, hboth]
    cases answer with
    | error e => rfl
    | ok =>
      -- The font, and so what a whole code is, has not changed.
      refine ih fun decoder hdecoder piece hpiece => ?_
      rw [hgraphics] at hdecoder
      exact hwhole decoder hdecoder piece (List.mem_cons_of_mem _ hpiece)

section

variable (hc : c.listener.TakesAll) (idle : List Nat) (resources : Resources α)
include hc

/-- Behind a legible string of whole codes another one may be shown by an operator of its own. -/
theorem run_walk_show {first second both : Object α} {bytes more : Bytes} {w : Walker α σ}
    (hfirst : stringBytes c.graph first = .ok bytes)
    (hsecond : stringBytes c.graph second = .ok more)
    (hboth : stringBytes c.graph both = .ok (bytes ++ more))
    (hwhole : ∀ decoder ∈ w.graphics.font.bind c.model.decoder?,
      decoder.codeLength ∣ bytes.length) (hlegible : Legible c w.graphics.font bytes)
    (rest : List (Instruction α)) :
    (walk c idle resources (⟨lit "Tj", [both]⟩ :: rest)).run w
      = (walk c idle resources (⟨lit "Tj", [first]⟩ :: ⟨lit "Tj", [second]⟩ :: rest)).run w := by
  obtain ⟨answer, w', hrun, hgraphics, hanswer⟩ := exists_run_showString hc hfirst w
  obtain rfl := hanswer hlegible
  have hcarried : (carryOut c idle resources ⟨lit "Tj", [both]⟩).run w
      = (carryOut c idle resources ⟨lit "Tj", [second]⟩).run w' := by
    rw [carryOut_show, carryOut_show]
    exact run_showString_append hfirst hsecond hboth hwhole hrun hgraphics
  rw [← carryOut_show idle resources] at hrun
  rw [run_walk_cons_congr hcarried rest, run_walk_cons_of_ok hrun (goesOn_ok _)]

/-- The items of an array may stand on their own. -/
theorem run_walk_showArray {array : Object α} {items : List (Object α)}
    {w : Walker α σ} (harray : itemsOf c.graph array = .ok items)
    (hitems : ∀ item ∈ items, Showable c w.graphics.font item) (rest : List (Instruction α)) :
    (walk c idle resources (⟨lit "TJ", [array]⟩ :: rest)).run w
      = (walk c idle resources (items.map apart ++ rest)).run w := by
  obtain ⟨w', hshown, hwalked⟩ := run_walk_apart hc idle resources hitems rest
  rw [← run_carryOut_showArray idle resources harray] at hshown
  rw [hwalked, run_walk_cons_of_ok hshown (goesOn_ok _)]

/-- An array of strings of whole codes is shown as the string of all their bytes. -/
theorem run_showStrings {array string : Object α} {items : List (Object α)} {pieces : List Bytes}
    {w : Walker α σ} (harray : itemsOf c.graph array = .ok items)
    (hitems : List.Forall₂ (fun item bytes => item.isString = true
      ∧ stringBytes c.graph item = .ok bytes) items pieces)
    (hwhole : ∀ decoder ∈ w.graphics.font.bind c.model.decoder?,
      ∀ bytes ∈ pieces, decoder.codeLength ∣ bytes.length)
    (hstring : stringBytes c.graph string = .ok pieces.flatten) :
    (carryOut c idle resources ⟨lit "TJ", [array]⟩).run w
      = (carryOut c idle resources ⟨lit "Tj", [string]⟩).run w := by
  rw [run_carryOut_showArray idle resources harray, carryOut_show,
    run_showItems_strings hc hitems hwhole, run_showString_of_bytes hstring,
    run_showString_of_bytes rfl]

end

/-! ## What operators are short for -/

/-- From the state `w`, the first content is short for the second one. -/
inductive Expands (c : WalkContext α σ) (w : Walker α σ) :
    List (Instruction α) → List (Instruction α) → Prop
  /-- Showing on the next line. -/
  | nextLineShow (s : Object α) :
    Expands c w [⟨lit "\x27", [s]⟩] [⟨lit "T*", []⟩, ⟨lit "Tj", [s]⟩]
  /-- Showing on the next line with other spacings. -/
  | spacedShow {word char : Object α} {x y : α} (hword : c.graph.numberOr 0 word = .ok x)
    (hchar : c.graph.numberOr 0 char = .ok y) (s : Object α) :
    Expands c w [⟨lit "\"", [word, char, s]⟩]
      [⟨lit "Tw", [word]⟩, ⟨lit "Tc", [char]⟩, ⟨lit "\x27", [s]⟩]
  /-- Moving with another leading; `up` reads as `y` with the other sign. -/
  | moveTextLeading {right down up : Object α} {x y : α} (hright : c.graph.numberOr 0 right = .ok x)
    (hdown : c.graph.numberOr 0 down = .ok y) (hup : c.graph.numberOr 0 up = .ok (-y)) :
    Expands c w [⟨lit "TD", [right, down]⟩] [⟨lit "TL", [up]⟩, ⟨lit "Td", [right, down]⟩]
  /-- Moving to the next line. -/
  | nextLine {right down : Object α} (hright : c.graph.numberOr 0 right = .ok 0)
    (hdown : c.graph.numberOr 0 down = .ok (-w.graphics.leading)) :
    Expands c w [⟨lit "T*", []⟩] [⟨lit "Td", [right, down]⟩]
  /-- Showing a legible string of whole codes and another one behind it. -/
  | show {first second both : Object α} {bytes more : Bytes}
    (hfirst : stringBytes c.graph first = .ok bytes)
    (hsecond : stringBytes c.graph second = .ok more)
    (hboth : stringBytes c.graph both = .ok (bytes ++ more))
    (hwhole : ∀ decoder ∈ w.graphics.font.bind c.model.decoder?,
      decoder.codeLength ∣ bytes.length) (hlegible : Legible c w.graphics.font bytes) :
    Expands c w [⟨lit "Tj", [both]⟩] [⟨lit "Tj", [first]⟩, ⟨lit "Tj", [second]⟩]
  /-- Showing the strings of an array and applying its numbers. -/
  | showArray {array : Object α} {items : List (Object α)}
    (harray : itemsOf c.graph array = .ok items)
    (hitems : ∀ item ∈ items, Showable c w.graphics.font item) :
    Expands c w [⟨lit "TJ", [array]⟩] (items.map apart)
  /-- Showing an array that holds strings of whole codes and nothing else. -/
  | showStrings {array string : Object α} {items : List (Object α)} {pieces : List Bytes}
    (harray : itemsOf c.graph array = .ok items)
    (hitems : List.Forall₂ (fun item bytes => item.isString = true
      ∧ stringBytes c.graph item = .ok bytes) items pieces)
    (hwhole : ∀ decoder ∈ w.graphics.font.bind c.model.decoder?,
      ∀ bytes ∈ pieces, decoder.codeLength ∣ bytes.length)
    (hstring : stringBytes c.graph string = .ok pieces.flatten) :
    Expands c w [⟨lit "TJ", [array]⟩] [⟨lit "Tj", [string]⟩]

/-- From the state `w`, the first content and the second one come to a code that cannot be read; both
are then in the state `w'`, but the second has `left` before it while the first is through. -/
inductive Diverges (c : WalkContext α σ) (w : Walker α σ) (e : Fault) (w' : Walker α σ) :
    List (Instruction α) → List (Instruction α) → List (Instruction α) → Prop
  /-- Showing a string of whole codes that breaks off, and another one behind it. -/
  | show {first second both : Object α} {bytes more : Bytes}
    (hfirst : stringBytes c.graph first = .ok bytes)
    (hsecond : stringBytes c.graph second = .ok more)
    (hboth : stringBytes c.graph both = .ok (bytes ++ more))
    (hwhole : ∀ decoder ∈ w.graphics.font.bind c.model.decoder?,
      decoder.codeLength ∣ bytes.length) (hbreaks : BreaksOff c first e w w') :
    Diverges c w e w' [⟨lit "Tj", [both]⟩] [⟨lit "Tj", [first]⟩, ⟨lit "Tj", [second]⟩]
      [⟨lit "Tj", [second]⟩]
  /-- Showing an array with a string that breaks off behind items that can be shown. -/
  | showArray {array item : Object α} {shown more : List (Object α)} {v : Walker α σ}
    (harray : itemsOf c.graph array = .ok (shown ++ item :: more))
    (hshown : ∀ item ∈ shown, Showable c w.graphics.font item)
    (hrun : (showItems c shown).run w = (.ok (), v)) (hstring : item.isString = true)
    (hbreaks : BreaksOff c item e v w') :
    Diverges c w e w' [⟨lit "TJ", [array]⟩] ((shown ++ item :: more).map apart) (more.map apart)

/-- The walk at the start of a line, relative to the start of the last one. -/
def onLine (w : Walker α σ) (x y : α) : Walker α σ :=
  { w with
    lineMatrix := w.lineMatrix.translate x y
    textMatrix := w.lineMatrix.translate x y }

section

variable {idle : List Nat} {resources : Resources α} {w : Walker α σ}

theorem run_nextLineShow (s : Object α) :
    (carryOut c idle resources ⟨lit "\x27", [s]⟩).run w
      = (carryOut c idle resources ⟨lit "Tj", [s]⟩).run (w.onLine 0 (-w.graphics.leading)) := by
  have hnextLineShow : Verb.ofName? (lit "\x27") = some .nextLineShow := by decide
  rw [carryOut_of_operator hnextLineShow (by decide), carryOut_show]
  rfl

/-- With its spacings set, the operator that sets them does what the one without them does. -/
theorem run_spacedShow {word char : Object α} {x y : α}
    (hword : c.graph.numberOr 0 word = .ok x) (hchar : c.graph.numberOr 0 char = .ok y)
    (s : Object α) :
    (carryOut c idle resources ⟨lit "\"", [word, char, s]⟩).run w
      = (carryOut c idle resources ⟨lit "\x27", [s]⟩).run
        { w with graphics := { w.graphics with wordSpacing := x, charSpacing := y } } := by
  have hspacedShow : Verb.ofName? (lit "\"") = some .spacedShow := by decide
  have hnextLineShow : Verb.ofName? (lit "\x27") = some .nextLineShow := by decide
  rw [carryOut_of_operator hspacedShow (by decide), carryOut_of_operator hnextLineShow (by decide)]
  show (two c [word, char, s] >>= _).run w = _
  rw [two_eq hword hchar]
  rfl

theorem run_moveText {right down : Object α} {x y : α} (hx : c.graph.numberOr 0 right = .ok x)
    (hy : c.graph.numberOr 0 down = .ok y) :
    (carryOut c idle resources ⟨lit "Td", [right, down]⟩).run w = (.ok (), w.onLine x y) := by
  have hmoveText : Verb.ofName? (lit "Td") = some .moveText := by decide
  rw [carryOut_of_operator hmoveText (by decide), perform, two_eq hx hy]
  rfl

/-- With its leading set, the operator that sets it does what the one without it does. -/
theorem run_moveTextLeading {right down : Object α} {x y : α}
    (hx : c.graph.numberOr 0 right = .ok x) (hy : c.graph.numberOr 0 down = .ok y) :
    (carryOut c idle resources ⟨lit "TD", [right, down]⟩).run w
      = (carryOut c idle resources ⟨lit "Td", [right, down]⟩).run
        { w with graphics := { w.graphics with leading := -y } } := by
  have hmoveTextLeading : Verb.ofName? (lit "TD") = some .moveTextLeading := by decide
  rw [run_moveText hx hy, carryOut_of_operator hmoveTextLeading (by decide), perform, two_eq hx hy]
  rfl

/-- Behind an operator that sets a number of the graphics state, the number is set. -/
theorem run_walk_cons_of_number {i : Instruction α} {verb : Verb} {o : Object α} {x : α}
    {f : α → Graphics α → Graphics α} (hverb : Verb.ofName? i.operator = some verb)
    (hne : verb ≠ .drawObject)
    (hperform : perform c resources i verb = one c [o] >>= fun x => change (f x))
    (hx : c.graph.numberOr 0 o = .ok x) (rest : List (Instruction α)) :
    (walk c idle resources (i :: rest)).run w
      = (walk c idle resources rest).run { w with graphics := f x w.graphics } := by
  refine run_walk_cons_of_perform hverb hne ?_ rest
  rw [hperform, one_eq hx]
  rfl

end

/-- Where they diverge, the first content is skipped at the code that cannot be read, and of the
second one what stands before that code is skipped; a fault that is not that of a malformed operator
ends both. -/
theorem run_walk_of_diverges (hc : c.listener.TakesAll) (idle : List Nat)
    (resources : Resources α) {w w' : Walker α σ} {e : Fault} {is js left : List (Instruction α)}
    (h : Diverges c w e w' is js left) (rest : List (Instruction α)) :
    (walk c idle resources (is ++ rest)).run w
        = (if e.isMalformed then (walk c idle resources rest).run w' else (.error e, w'))
      ∧ (walk c idle resources (js ++ rest)).run w
        = if e.isMalformed then (walk c idle resources (left ++ rest)).run w'
          else (.error e, w') := by
  cases h with
  | @«show» first second both bytes more hfirst hsecond hboth hwhole hbreaks =>
    refine ⟨run_walk_cons_of_fault ?_ rest, run_walk_cons_of_fault ?_ _⟩
    · rw [carryOut_show]
      exact run_showString_append_of_breaksOff hc hfirst hsecond hboth hwhole hbreaks
    · rw [carryOut_show]
      exact hbreaks.run_showString fun _ => hc _
  | @showArray array item shown more v harray hshown hrun hstring hbreaks =>
    have hitem : (showItems c [item]).run v = (.error e, w') := by
      rw [showItems_string hstring]
      exact hbreaks.run_showString fun _ => hc _
    refine ⟨run_walk_cons_of_fault ?_ rest, ?_⟩
    · rw [run_carryOut_showArray idle resources harray, showItems_append, Act.run_bind_ok hrun,
        ← List.singleton_append, showItems_append, Act.run_bind_error hitem]
    · obtain ⟨v', hrun', hwalked⟩ := run_walk_apart hc idle resources hshown
        ((item :: more).map apart ++ rest)
      rw [hrun] at hrun'
      obtain ⟨-, rfl⟩ := Prod.mk.inj hrun'
      rw [List.map_append, List.append_assoc, hwalked]
      refine run_walk_cons_of_fault ?_ (more.map apart ++ rest)
      rw [carryOut_apart, hitem]

/-- An operator may be written out, or put in the place of what is written out, wherever it stands:
the walk comes to the same end, in the same state, and its listener has heard the same. A number in
an array moves the text back, in thousandths of the font size under the scaling, and that is all.
Strings and arrays that are shown in pieces have to be legible: where a code cannot be read, what is
shown in one piece is over, and what is shown in pieces goes on with the next piece. -/
theorem walk_expanded (hc : c.listener.TakesAll) (w : Walker α σ) (idle : List Nat)
    (resources : Resources α) :
    (∀ is js, Expands c w is js → ∀ rest,
      (walk c idle resources (is ++ rest)).run w = (walk c idle resources (js ++ rest)).run w)
    ∧ (∀ item x, item.isString = false → c.graph.numberOr 0 item = .ok x →
      (walk c idle resources [apart item]).run w
        = (.ok (), { w with
            textMatrix := w.textMatrix.translate
              (Scalar.perMille (-x) * w.graphics.fontSize * w.graphics.scaling / Scalar.ofNat 100)
              0 }))
    ∧ ∀ e w' is js left, Diverges c w e w' is js left → ∀ rest,
      (walk c idle resources (is ++ rest)).run w
          = (if e.isMalformed then (walk c idle resources rest).run w' else (.error e, w'))
        ∧ (walk c idle resources (js ++ rest)).run w
          = if e.isMalformed then (walk c idle resources (left ++ rest)).run w'
            else (.error e, w') := by
  refine ⟨fun is js h rest => ?_, fun item x hitem hx => ?_,
    fun e w' is js left h => run_walk_of_diverges hc idle resources h⟩
  · cases h with
    | nextLineShow s =>
      have hnext : Verb.ofName? (lit "T*") = some .nextLine := by decide
      have hmoved : (perform c resources ⟨lit "T*", []⟩ .nextLine).run w
          = (.ok (), w.onLine 0 (-w.graphics.leading)) := rfl
      exact (run_walk_cons_congr (run_nextLineShow s) rest).trans
        (run_walk_cons_of_perform hnext (by decide) hmoved (⟨lit "Tj", [s]⟩ :: rest)).symm
    | @spacedShow word char x y hword hchar s =>
      have hwords : Verb.ofName? (lit "Tw") = some .wordSpacing := by decide
      have hchars : Verb.ofName? (lit "Tc") = some .charSpacing := by decide
      rw [List.singleton_append, run_walk_cons_congr (run_spacedShow hword hchar s) rest]
      symm
      exact (run_walk_cons_of_number (i := ⟨lit "Tw", [word]⟩) hwords (by decide) rfl hword _).trans
        (run_walk_cons_of_number (i := ⟨lit "Tc", [char]⟩) hchars (by decide) rfl hchar _)
    | @moveTextLeading right down up x y hright hdown hup =>
      have hleading : Verb.ofName? (lit "TL") = some .leading := by decide
      rw [List.singleton_append, run_walk_cons_congr (run_moveTextLeading hright hdown) rest]
      exact (run_walk_cons_of_number (i := ⟨lit "TL", [up]⟩) hleading (by decide) rfl hup _).symm
    | nextLine hright hdown =>
      have hnext : Verb.ofName? (lit "T*") = some .nextLine := by decide
      refine run_walk_cons_congr ?_ rest
      rw [run_moveText hright hdown, carryOut_of_operator hnext (by decide)]
      rfl
    | «show» hfirst hsecond hboth hwhole hlegible =>
      exact run_walk_show hc idle resources hfirst hsecond hboth hwhole hlegible rest
    | showArray harray hitems => exact run_walk_showArray hc idle resources harray hitems rest
    | showStrings harray hitems hwhole hstring =>
      exact run_walk_cons_congr
        (run_showStrings hc idle resources harray hitems hwhole hstring) rest
  · have hcarried := run_showItems_number hitem hx w
    rw [← carryOut_apart idle resources item] at hcarried
    rw [run_walk_cons_of_ok hcarried (goesOn_ok _), walk_nil]
    rfl

/-- A walk whose lines are twelve units apart, in ten units of a font. -/
def leaded : Walker ℚ (List (Text × ℚ)) :=
  { spacedOut with
    graphics := { spacedOut.graphics with charSpacing := 0, wordSpacing := 0, leading := 12 } }

/-- The word spacing is read before the character spacing, and both are set when the string is shown
a line further down. The number moves the text back by half the size of the font. In the font that
lacks the blank, a letter behind one is shown by an operator of its own, and not in one piece. -/
theorem walk_expanded_leaded :
    let s : Object ℚ := .bytes [0x41, 0x20, 0x42]
    let spaced : Instruction ℚ := ⟨lit "\"", [.whole 2, .whole 1, s]⟩
    let written : List (Instruction ℚ) :=
      [⟨lit "Tw", [.whole 2]⟩, ⟨lit "Tc", [.whole 1]⟩, ⟨lit "\x27", [s]⟩]
    let piece : List (Instruction ℚ) := [⟨lit "Tj", [.bytes [0x20, 0x41]]⟩]
    let pieces : List (Instruction ℚ) :=
      [⟨lit "Tj", [.bytes [0x20]]⟩, ⟨lit "Tj", [.bytes [0x41]]⟩]
    noting.listener.TakesAll ∧ Expands noting leaded [spaced] written
      ∧ ((walk noting [] .empty written).run leaded).2.listener
        = [(lit "A", 0), (lit " ", 6), (lit "B", 14)]
      ∧ ((walk noting [] .empty written).run leaded).2.lineMatrix.f = -12
      ∧ ((walk noting [] .empty [apart (.whole 500)]).run leaded).2.textMatrix.e = -5
      ∧ (∃ e w', Diverges noting halfRead e w' piece pieces (pieces.drop 1))
      ∧ ((walk noting [] .empty piece).run halfRead).2.listener = []
      ∧ ((walk noting [] .empty pieces).run halfRead).2.listener = [(lit "A", 0)] := by
  intro s spaced written piece pieces
  have hc : noting.listener.TakesAll := by
    intro e
    cases e with
    | glyph => exact .modify _
    | _ => exact .pure _
  have hspaced : Expands noting leaded [spaced] written := .spacedShow rfl rfl s
  obtain ⟨hexpanded, hnumber, -⟩ := walk_expanded hc leaded [] .empty
  have hsame := hexpanded [spaced] written hspaced []
  rw [List.append_nil, List.append_nil, walk_cons, walk_nil] at hsame
  -- The blank is the first code, so that nothing has been shown where the string breaks off.
  have hdiverges : Diverges noting halfRead (.badValue (lit "undefined encoding")) halfRead piece
      pieces (pieces.drop 1) :=
    .show (show stringBytes noting.graph (.bytes [0x20]) = .ok [0x20] from rfl)
      (show stringBytes noting.graph (.bytes [0x41]) = .ok [0x41] from rfl) rfl
      (fun decoder hdecoder => by
        obtain rfl := Option.some.inj hdecoder
        exact Nat.one_dvd _)
      ⟨_, _, rfl, rfl, rfl, rfl⟩
  obtain ⟨-, -, hdiverged⟩ := walk_expanded hc halfRead [] .empty
  obtain ⟨hpiece, hpieces⟩ := hdiverged _ _ _ _ _ hdiverges []
  have hmalformed : (Fault.badValue (lit "undefined encoding")).isMalformed = true := rfl
  refine ⟨hc, hspaced, ?_, ?_, ?_, ⟨_, _, hdiverges⟩, ?_, ?_⟩
  · rw [← hsame]
    decide +kernel
  · rw [← hsame]
    decide +kernel
  · rw [hnumber (.whole 500) 500 rfl rfl]
    decide +kernel
  · have hlistener : halfRead.listener = [] := rfl
    rw [List.append_nil] at hpiece
    rw [hpiece, if_pos hmalformed, walk_nil]
    exact hlistener
  · have hsecond : ((walk noting [] .empty [⟨lit "Tj", [.bytes [0x41]]⟩]).run halfRead).2.listener
        = [(lit "A", 0)] := by
      rw [walk_cons, walk_nil]
      decide +kernel
    rw [List.append_nil, List.append_nil, if_pos hmalformed] at hpieces
    rw [hpieces]
    exact hsecond

end Walker

end Folio.Pdf
