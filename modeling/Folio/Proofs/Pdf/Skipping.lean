import Folio.Proofs.Pdf.Showing
import Folio.Proofs.Scalar.Rational

/-!
# What a skipped operator leaves behind

An operator that turns out to be malformed is skipped. Most operators read all of their operands
before they change anything, so that one of them that is skipped has changed nothing and sent
nothing; a form that cannot be read is skipped the same way. Five begin earlier
(`Verb.readsFirst`): a font is selected before its size is read, a string is shown up to the code
that cannot be read, the two operators that show a string on the next line move there before they
look for the string, and the items of an array are shown one by one, up to the one that cannot be
shown.

`skipped_operator` says what is left of an operator that is skipped: what it does first (`opening`),
and of strings and arrays what stands before the code or the item that is at fault. The listener is
one that takes every event.
-/

namespace Folio

namespace Pdf

namespace Verb

/-- The operator reads all that it needs before it changes anything. -/
def readsFirst : Verb → Bool
  | .selectFont | .«show» | .showArray | .nextLineShow | .spacedShow => false
  | _ => true

/-- Which operand is the string that the operator shows, if it shows one. -/
def stringAt? : Verb → Option Nat
  | .«show» | .nextLineShow => some 0
  | .spacedShow => some 2
  | _ => none

end Verb

namespace Walker

open Act (Observes Succeeds FailsClean)
open Text (lit)

variable {α σ : Type} [Scalar α] {c : WalkContext α σ}

/-! ## Reading -/

theorem observes_one (operands : List (Object α)) : (one c operands).Observes := by
  refine .bind (.ofExcept _) fun values => ?_
  split
  · exact .pure _
  · exact .throw _

theorem observes_two (operands : List (Object α)) : (two c operands).Observes := by
  refine .bind (.ofExcept _) fun values => ?_
  split
  · exact .pure _
  · exact .throw _

theorem observes_six (operands : List (Object α)) : (six c operands).Observes := by
  refine .bind (.ofExcept _) fun values => ?_
  split
  · exact .pure _
  · exact .throw _

omit [Scalar α] in
theorem observes_operand (operands : List (Object α)) (n : Nat) :
    (operand operands n : Act (Walker α σ) (Object α)).Observes := by
  unfold operand
  split
  · exact .pure _
  · exact .throw _

theorem observes_textOperand (operands : List (Object α)) (n : Nat) :
    (textOperand c operands n).Observes :=
  .bind (observes_operand _ _) fun _ => .ofExcept _

/-! ## Changing and sending -/

omit [Scalar α] in
theorem succeeds_change (f : Graphics α → Graphics α) :
    (change f : Act (Walker α σ) Unit).Succeeds := .modify _

theorem succeeds_nextLine (x y : α) : (nextLine x y : Act (Walker α σ) Unit).Succeeds := .modify _

theorem succeeds_advance (x : α) : (advance x : Act (Walker α σ) Unit).Succeeds := .modify _

omit [Scalar α] in
theorem succeeds_send (hc : c.listener.TakesAll) (e : Event α) : (send c e).Succeeds := by
  intro w
  obtain ⟨b, s, hrun⟩ := hc e w.listener
  refine ⟨b, { w with listener := s }, ?_⟩
  rw [send, Act.run_onPart, hrun]

omit [Scalar α] in
theorem succeeds_sendOperator (hc : c.listener.TakesAll) (resources : Resources α)
    (i : Instruction α) : (sendOperator c resources i).Succeeds :=
  .bind .get fun _ => succeeds_send hc _

/-- An item that cannot be shown is not begun at all, or is a string that breaks off. -/
theorem eq_or_breaksOff_of_showItem (hc : c.listener.TakesAll) {item : Object α}
    {w w' : Walker α σ} {e : Fault} (hrun : (showItems c [item]).run w = (.error e, w')) :
    w' = w ∨ BreaksOff c item e w w' := by
  have hnone : showItems c [] = pure () := by rw [showItems]
  have hstring : (showString c item).run w = (.error e, w') → w' = w ∨ BreaksOff c item e w w' :=
    eq_or_breaksOff_of_showString fun _ => hc _
  have hclean : FailsClean (do
      let g := (← get).graphics
      let adjustment ← Act.ofExcept (c.graph.numberOr 0 item)
      advance (Scalar.perMille (-adjustment) * g.fontSize * g.scaling / Scalar.ofNat 100)
      showItems c [] : Act (Walker α σ) Unit) :=
    .after .get fun _ => .followed (.of_observes (.ofExcept _)) fun _ =>
      .bind (succeeds_advance _) fun _ => hnone ▸ .pure _
  unfold showItems at hrun
  split at hrun
  · rw [hnone, bind_pure] at hrun
    exact hstring hrun
  · rw [hnone, bind_pure] at hrun
    exact hstring hrun
  · exact .inl (hclean w e w' hrun)

/-- Items that cannot all be shown are shown up to the first that cannot. -/
theorem showItems_eq_error (hc : c.listener.TakesAll) (items : List (Object α)) :
    ∀ {w w' : Walker α σ} {e : Fault}, (showItems c items).run w = (.error e, w') →
      ∃ shown item rest v, items = shown ++ item :: rest
        ∧ (showItems c shown).run w = (.ok (), v)
        ∧ (showItems c [item]).run v = (.error e, w')
        ∧ (w' = v ∨ BreaksOff c item e v w') := by
  induction items with
  | nil =>
    intro w w' e hrun
    cases hrun
  | cons item items ih =>
    intro w w' e hrun
    have hsplit := hrun
    rw [← List.singleton_append, showItems_append, Act.run_bind] at hsplit
    rcases hfirst : (showItems c [item]).run w with ⟨e' | b, u⟩
    · rw [hfirst] at hsplit
      cases hsplit
      exact ⟨[], item, items, w, rfl, rfl, hfirst, eq_or_breaksOff_of_showItem hc hfirst⟩
    · rw [hfirst] at hsplit
      obtain ⟨shown, bad, rest, v, hitems, hshown, hbad, hleft⟩ := ih hsplit
      refine ⟨item :: shown, bad, rest, v, by rw [hitems]; rfl, ?_, hbad, hleft⟩
      rw [← List.singleton_append, showItems_append, Act.run_bind_ok hfirst]
      exact hshown

/-! ## Operators -/

/-- What an operator does before the last of its operands is read, if it does anything by then. -/
def opening (c : WalkContext α σ) (resources : Resources α) (i : Instruction α) :
    Verb → Act (Walker α σ) Unit
  | .selectFont => do
    let name ← textOperand c i.operands 0
    change fun g => { g with font := resources.font? name }
  | .nextLineShow => do nextLine 0 (-(← get).graphics.leading)
  | .spacedShow => do
    let (word, char) ← two c i.operands
    change fun g => { g with wordSpacing := word, charSpacing := char }
    nextLine 0 (-(← get).graphics.leading)
  | _ => pure ()

/-- An operator that reads its operands first changes nothing when it fails. -/
theorem failsClean_perform (hc : c.listener.TakesAll) (resources : Resources α)
    (i : Instruction α) {verb : Verb} (hverb : verb.readsFirst = true) :
    (perform c resources i verb).FailsClean := by
  cases verb with
  | save | beginText => exact .of_succeeds (.modify _)
  | restore =>
    refine .after .get fun w => ?_
    split
    · exact .of_succeeds (.pure _)
    · exact .of_succeeds (.modify _)
  | concatenate | textMatrix => exact .followed (.of_observes (observes_six _)) fun _ => .modify _
  | lineWidth | charSpacing | wordSpacing | scaling | leading | rise =>
    exact .followed (.of_observes (observes_one _)) fun _ => succeeds_change _
  | moveText => exact .followed (.of_observes (observes_two _)) fun _ => succeeds_nextLine _ _
  | moveTextLeading =>
    exact .followed (.of_observes (observes_two _)) fun _ =>
      .bind (succeeds_change _) fun _ => succeeds_nextLine _ _
  | nextLine => exact .of_succeeds (.bind .get fun _ => succeeds_nextLine _ _)
  | path => exact .of_succeeds (succeeds_sendOperator hc _ _)
  | drawObject =>
    refine .after (observes_textOperand _ _) fun name => ?_
    split
    · exact .of_succeeds (succeeds_sendOperator hc _ _)
    · exact .of_succeeds (.pure _)
  | selectFont | «show» | showArray | nextLineShow | spacedShow => cases hverb

/-- A font that is selected without a size stays selected. -/
theorem eq_opening_of_selectFont {resources : Resources α} {i : Instruction α}
    {w w' : Walker α σ} {e : Fault}
    (hrun : (perform c resources i .selectFont).run w = (.error e, w')) :
    w' = ((opening c resources i .selectFont).run w).2 := by
  let size : Unit → Act (Walker α σ) Unit := fun _ =>
    operand i.operands 1 >>= fun o => Act.ofExcept (c.graph.numberOr 0 o) >>= fun size =>
      change fun g => { g with fontSize := size }
  have hclean : ∀ b, (size b).FailsClean := fun _ =>
    .after (observes_operand _ _) fun _ =>
      .followed (.of_observes (.ofExcept _)) fun _ => succeeds_change _
  -- What comes behind the opening reads the size, and reading changes nothing.
  have hsplit : perform c resources i .selectFont = opening c resources i .selectFont >>= size := by
    rw [opening, bind_assoc]
    rfl
  rw [hsplit] at hrun
  exact Act.eq_of_run_bind_error hclean hrun

/-- An operator that shows a string does nothing between its opening and the string. -/
theorem perform_eq_opening_bind {resources : Resources α} {i : Instruction α} {verb : Verb} {n : Nat}
    (hverb : verb.stringAt? = some n) :
    perform c resources i verb
      = opening c resources i verb >>= fun _ => operand i.operands n >>= showString c := by
  cases verb with
  | «show» =>
    cases hverb
    have hopening : opening c resources i .«show» = pure () := rfl
    rw [hopening, pure_bind]
    rfl
  | nextLineShow =>
    cases hverb
    rw [opening, bind_assoc]
    rfl
  | spacedShow =>
    cases hverb
    rw [opening, bind_assoc]
    simp only [bind_assoc]
    rfl
  | _ => cases hverb

/-- An operator that shows a string fails in its opening, or for want of the string, or with the
string begun. -/
theorem eq_opening_or_breaksOff_of_perform (hc : c.listener.TakesAll) {resources : Resources α}
    {i : Instruction α} {verb : Verb} {n : Nat} (hverb : verb.stringAt? = some n)
    {w w' : Walker α σ} {e : Fault}
    (hrun : (perform c resources i verb).run w = (.error e, w')) :
    w' = ((opening c resources i verb).run w).2
      ∨ ∃ value, i.operands[n]? = some value
        ∧ BreaksOff c value e ((opening c resources i verb).run w).2 w' := by
  rw [perform_eq_opening_bind hverb, Act.run_bind] at hrun
  rcases hopened : (opening c resources i verb).run w with ⟨e' | b, v⟩
  · rw [hopened] at hrun
    exact .inl (Prod.mk.inj hrun).2.symm
  · rw [hopened] at hrun
    unfold operand at hrun
    cases hvalue : i.operands[n]? with
    | none =>
      simp only [hvalue] at hrun
      exact .inl (Prod.mk.inj hrun).2.symm
    | some value =>
      simp only [hvalue, pure_bind] at hrun
      exact (eq_or_breaksOff_of_showString (fun _ => hc _) hrun).imp id fun h => ⟨value, rfl, h⟩

/-- Items are shown up to the malformed one; operands that hold no items leave nothing behind. -/
theorem eq_or_shown_of_perform (hc : c.listener.TakesAll) {resources : Resources α}
    {i : Instruction α} {w w' : Walker α σ} {e : Fault}
    (hrun : (perform c resources i .showArray).run w = (.error e, w')) :
    w' = w ∨ ∃ o shown item rest v, i.operands[0]? = some o
      ∧ itemsOf c.graph o = .ok (shown ++ item :: rest)
      ∧ (showItems c shown).run w = (.ok (), v)
      ∧ (showItems c [item]).run v = (.error e, w')
      ∧ (w' = v ∨ BreaksOff c item e v w') := by
  unfold perform operand at hrun
  cases ho : i.operands[0]? with
  | none =>
    simp only [ho] at hrun
    cases hrun
    exact .inl rfl
  | some o =>
    simp only [ho, pure_bind] at hrun
    cases hitems : itemsOf c.graph o with
    | error e' =>
      rw [hitems, Act.run_bind_error (Act.run_ofExcept _ w)] at hrun
      cases hrun
      exact .inl rfl
    | ok items =>
      rw [hitems, Act.run_bind_ok (Act.run_ofExcept _ w)] at hrun
      obtain ⟨shown, item, rest, v, rfl, hshown, hitem, hleft⟩ := showItems_eq_error hc items hrun
      exact .inr ⟨o, shown, item, rest, v, rfl, hitems, hshown, hitem, hleft⟩

/-- What is skipped is an operator, or one that draws a form whose content cannot be read; then
nothing has changed. Whatever ends the walk of a form is not the fault of a malformed operator. -/
theorem turn_of_skipped {idle : List Nat} {resources : Resources α} {i : Instruction α}
    {w w' : Walker α σ} {e : Fault}
    (hrun : (carryOut c idle resources i).run w = (.error e, w')) (he : e.isMalformed = true) :
    ∃ verb, Verb.ofName? i.operator = some verb
      ∧ ((perform c resources i verb).run w = (.error e, w')
        ∨ verb = .drawObject ∧ (∃ form, turn c idle resources i = .unreadable form e)
          ∧ w' = w) := by
  unfold carryOut at hrun
  cases hturn : turn c idle resources i with
  | ignored =>
    rw [hturn] at hrun
    cases hrun
  | operator verb =>
    rw [hturn] at hrun
    refine ⟨verb, ?_, .inl hrun⟩
    cases hform : form? c resources i with
    | some index => exact absurd hturn (turn_of_form? hform verb)
    | none =>
      rw [turn, hform] at hturn
      cases hname : Verb.ofName? i.operator with
      | none =>
        rw [hname] at hturn
        cases hturn
      | some verb' =>
        rw [hname] at hturn
        cases hturn
        rfl
  | enter index form own content =>
    rw [hturn] at hrun
    simp only [run_withinForm] at hrun
    obtain ⟨hfirst, -⟩ := Prod.mk.inj hrun
    have hfatal := not_isMalformed_of_walk (Prod.ext hfirst rfl)
    rw [he] at hfatal
    cases hfatal
  | unreadable form fault =>
    rw [hturn] at hrun
    simp only [run_withinForm] at hrun
    cases hrun
    exact ⟨.drawObject, ofName?_of_turn_unreadable hturn, .inr ⟨rfl, ⟨form, rfl⟩, rfl⟩⟩
  | recursive form =>
    rw [hturn] at hrun
    cases hrun

/-- What an operator does first changes the graphics state and the text matrices only. -/
theorem keeps_opening {P : Walker α σ → Prop}
    (hP : ∀ w graphics textMatrix lineMatrix, P w → P { w with graphics, textMatrix, lineMatrix })
    (resources : Resources α) (i : Instruction α) (verb : Verb) :
    (opening c resources i verb).Keeps P := by
  have hchange : ∀ f : Graphics α → Graphics α, (change f : Act (Walker α σ) Unit).Keeps P :=
    fun f => .modify fun w hw => hP w _ _ _ hw
  have hline : ∀ x y : α, (nextLine x y : Act (Walker α σ) Unit).Keeps P :=
    fun x y => .modify fun w hw => hP w _ _ _ hw
  cases verb with
  | selectFont => exact .bind (keeps_textOperand _ _) fun _ => hchange _
  | nextLineShow => exact .bind .get fun _ => hline _ _
  | spacedShow =>
    exact .bind (keeps_two _) fun _ => .bind (hchange _) fun _ => .bind .get fun _ => hline _ _
  | _ => exact .pure _

/-- The saved states are left alone by every operator that is skipped. -/
theorem stack_of_skipped {resources : Resources α} {i : Instruction α} {verb : Verb}
    {w w' : Walker α σ} {e : Fault} (hrun : (perform c resources i verb).run w = (.error e, w')) :
    w'.stack = w.stack := by
  have hsurvives : SurvivesDrawing c fun v => v.stack = w.stack :=
    ⟨fun _ _ _ _ h => h, fun _ _ h => h, fun _ _ _ h => h⟩
  have hkeeps : (perform c resources i verb).Keeps fun v => v.stack = w.stack := by
    refine keeps_perform hsurvives trivial i ?_
    -- Saving and restoring never fail.
    rintro (rfl | rfl)
    · cases hrun
    · obtain ⟨graphics, stack, textMatrix, lineMatrix, listener⟩ := w
      cases stack <;> cases hrun
  have hkept := hkeeps w rfl
  rw [hrun] at hkept
  exact hkept

/-- An operator that is skipped and that reads what it needs first leaves everything as it was, the
listener included; so does one that draws a form which cannot be read. Of any other that is skipped,
what it does first is left (`opening`), and nothing has been sent by then. Of a string its codes are
left up to the one that cannot be read, and of an array the items up to the one at fault, with as
much of that one as is shown of a string. The saved states stay as they are. -/
theorem skipped_operator (hc : c.listener.TakesAll) {idle : List Nat} {resources : Resources α}
    {i : Instruction α} {w w' : Walker α σ} {e : Fault}
    (hrun : (carryOut c idle resources i).run w = (.error e, w')) (he : e.isMalformed = true) :
    ∃ verb, Verb.ofName? i.operator = some verb
      ∧ w'.stack = w.stack
      ∧ (verb.readsFirst = true → w' = w)
      ∧ ((opening c resources i verb).run w).2.listener = w.listener
      ∧ (verb = .selectFont → w' = ((opening c resources i verb).run w).2)
      ∧ (∀ n, verb.stringAt? = some n → w' = ((opening c resources i verb).run w).2
        ∨ ∃ value, i.operands[n]? = some value
          ∧ BreaksOff c value e ((opening c resources i verb).run w).2 w')
      ∧ (verb = .showArray → w' = w ∨ ∃ o shown item rest v, i.operands[0]? = some o
        ∧ itemsOf c.graph o = .ok (shown ++ item :: rest)
        ∧ (showItems c shown).run w = (.ok (), v)
        ∧ (showItems c [item]).run v = (.error e, w')
        ∧ (w' = v ∨ BreaksOff c item e v w')) := by
  obtain ⟨verb, hname, hperform | ⟨rfl, -, rfl⟩⟩ := turn_of_skipped hrun he
  · refine ⟨verb, hname, stack_of_skipped hperform, fun hfirst => ?_, ?_, ?_, fun n hn => ?_, ?_⟩
    · exact failsClean_perform hc resources i hfirst w e w' hperform
    · exact keeps_opening (P := fun v => v.listener = w.listener) (fun _ _ _ _ h => h) resources i
        verb w rfl
    · rintro rfl
      exact eq_opening_of_selectFont hperform
    · exact eq_opening_or_breaksOff_of_perform hc hn hperform
    · rintro rfl
      exact eq_or_shown_of_perform hc hperform
  · exact ⟨.drawObject, hname, rfl, fun _ => rfl, rfl, nofun, nofun, nofun⟩

/-- A font without a map and with an encoding that is none that can be used, and a listener that
counts what it is sent. -/
def counting : WalkContext ℚ Nat where
  graph := { nodes := #[], objects := [] }
  model :=
    let failing : Lexicon := { decode := fun _ _ => .error (.badValue (lit "undefined encoding")) }
    { catalog := ⟨#[], #[]⟩
      decoders := [(0, ⟨false, [(lit "A", lit "A")], .encoding (lit "undefined"), failing, [], 500,
        7 / 10⟩)] }
  page := .identity
  listener := ⟨fun _ => modify (· + 1), fun _ _ => pure (), fun _ n => n⟩

/-- A walk in ten units of that font whose lines are twelve units apart. -/
def spaced : Walker ℚ Nat :=
  let font : Font ℚ := ⟨0, lit "F", none, none, none, none, 0, 0, 0, none, 0⟩
  { start 0 with
    graphics := { initialGraphics with font := some font, fontSize := 10, leading := 12 } }

/-- An operator that lacks the string to show on the next line has moved to that line, and one whose
string has a code that cannot be read has shown the code before it. -/
theorem skipped_operator_stringless : counting.listener.TakesAll
    ∧ (∃ e w', (carryOut counting [] .empty ⟨lit "'", []⟩).run spaced = (.error e, w')
      ∧ e.isMalformed = true ∧ w'.lineMatrix.f = -12 ∧ spaced.lineMatrix.f = 0)
    ∧ ∃ e w', (carryOut counting [] .empty ⟨lit "Tj", [.bytes [0x41, 0x42]]⟩).run spaced
        = (.error e, w')
      ∧ e.isMalformed = true ∧ w'.listener = 1 ∧ spaced.listener = 0 := by
  have hc : counting.listener.TakesAll := fun _ => .modify _
  have hname : Verb.ofName? (lit "'") = some .nextLineShow := by decide
  refine ⟨hc, ⟨.missingItem, _, rfl, rfl, ?_, rfl⟩, ?_⟩
  · obtain ⟨verb, hverb, -, -, -, -, hstring, -⟩ :=
      skipped_operator (w := spaced) (i := ⟨lit "'", []⟩) hc rfl rfl
    rw [hname] at hverb
    cases hverb
    obtain hopening | ⟨value, hvalue, -⟩ := hstring 0 rfl
    · rw [hopening]
      show (spaced.lineMatrix.translate 0 (-12)).f = -12
      norm_num [Affine.translate, Affine.concatenate, spaced, start, Affine.identity]
    · cases hvalue
  · exact ⟨.badValue (lit "undefined encoding"), _, rfl, rfl, by decide +kernel, rfl⟩

end Walker

end Pdf

end Folio
