import Folio.Conversion
import Folio.Proofs.Layout.Passing
import Folio.Proofs.Pdf.Skipping

/-!
# What ends a walk

A walk that lays out what it comes to returns normally exactly if it comes to nothing `Fatal`
(`walk_returns`): to no form whose content cannot be read for a cause that is not that of a
malformed operator, and to no operator that fails for good, in what it asks of its operands, as with
a number beyond all coordinates, or at a code of a string that it shows (`ShowingFails`). Malformed
operators are passed over, malformed forms likewise, and neither layout nor writing ends a walk.

Strings and arrays are shown piece by piece, and what is at fault counts only if the pieces before
it are shown (`goesOn_sequence_iff`).
-/

namespace Folio.Pdf.Walker

open Act (GoesOn Passes goesOn_ok goesOn_error_iff)

variable {α : Type} [Scalar α]

/-- The walker draws on a layout with the usual options, whose output takes everything. -/
def Steady (w : Walker α (Press α)) : Prop := w.listener.layout.Steady

variable {c : WalkContext α (Press α)} {w : Walker α (Press α)}

/-! ## What is asked of operands -/

def operandAt (operands : List (Object α)) (n : Nat) : Except Fault (Object α) :=
  match operands[n]? with
  | some o => .ok o
  | none => .error .missingItem

/-- Showing the value fails for good: its bytes cannot be told, though there is a font to show them
in, or one of its codes cannot be read when its turn comes. -/
inductive ShowingFails (c : WalkContext α (Press α)) (w : Walker α (Press α)) (o : Object α) : Prop
  | bytes {decoder : Decoder α} (hfont : w.graphics.font.bind c.model.decoder? = some decoder)
    (h : ¬ GoesOn (stringBytes c.graph o))
  | code {decoder : Decoder α} {bytes code : Bytes} {before after : List Bytes}
    {w' : Walker α (Press α)} (hfont : w.graphics.font.bind c.model.decoder? = some decoder)
    (hbytes : stringBytes c.graph o = .ok bytes)
    (hcodes : decoder.codes bytes = before ++ code :: after)
    (hrun : (showCodes c w.graphics decoder before).run w = (.ok (), w'))
    (h : ¬ GoesOn (decoder.text code))

/-- An item fails for good: a string when it is shown, and anything else as a number. -/
def ItemFails (c : WalkContext α (Press α)) (w : Walker α (Press α)) (o : Object α) : Prop :=
  match o with
  | .text .. | .bytes _ => ShowingFails c w o
  | o => ¬ GoesOn (c.graph.numberOr 0 o)

/-- The items that an operator shows one after the other. -/
def shownItems (c : WalkContext α (Press α)) (operands : List (Object α)) :
    Except Fault (List (Object α)) := do
  itemsOf c.graph (← operandAt operands 0)

/-- What is sent on for an operator. -/
def sent (c : WalkContext α (Press α)) (resources : Resources α) (i : Instruction α)
    (w : Walker α (Press α)) : Operator α :=
  ⟨i.operator, i.operands, c.graph, w.graphics.ctm, w.graphics.lineWidth, some resources⟩

/-- What layout asks of an operator that is sent on; without a page, nothing. -/
def askedSent (c : WalkContext α (Press α)) (resources : Resources α) (i : Instruction α)
    (w : Walker α (Press α)) : Except Fault Unit :=
  if w.listener.layout.page.isSome then Layout.asked (sent c resources i w) else .ok ()

/-- What an operator asks of its operands, apart from what it asks of strings and items. -/
def asked (c : WalkContext α (Press α)) (resources : Resources α) (i : Instruction α)
    (w : Walker α (Press α)) : Verb → Except Fault Unit
  | .save | .restore | .beginText | .nextLine | .show | .nextLineShow => .ok ()
  | .concatenate | .textMatrix => (numbers c i.operands 6).map fun _ => ()
  | .lineWidth | .charSpacing | .wordSpacing | .scaling | .leading | .rise =>
    (numbers c i.operands 1).map fun _ => ()
  | .moveText | .moveTextLeading | .spacedShow => (numbers c i.operands 2).map fun _ => ()
  | .selectFont => do
    let _ ← c.graph.text (← operandAt i.operands 0)
    let _ ← c.graph.numberOr 0 (← operandAt i.operands 1)
  | .showArray => (shownItems c i.operands).map fun _ => ()
  | .path => askedSent c resources i w
  | .drawObject => do
    let name ← c.graph.text (← operandAt i.operands 0)
    if (resources.object? name).isSome then askedSent c resources i w

/-- An operator fails for good: in what it asks, at the string that it shows, or at an item that it
comes to. -/
inductive Fails (c : WalkContext α (Press α)) (resources : Resources α) (i : Instruction α)
    (w : Walker α (Press α)) (verb : Verb) : Prop
  | asked (h : ¬ GoesOn (asked c resources i w verb))
  | shown {n : Nat} {value : Object α} {w' : Walker α (Press α)}
    (hverb : verb.stringAt? = some n) (hvalue : i.operands[n]? = some value)
    (hopening : (opening c resources i verb).run w = (.ok (), w')) (h : ShowingFails c w' value)
  | item {before after : List (Object α)} {item : Object α} {w' : Walker α (Press α)}
    (hverb : verb = .showArray) (hitems : shownItems c i.operands = .ok (before ++ item :: after))
    (hrun : (showItems c before).run w = (.ok (), w')) (h : ItemFails c w' item)

/-! ## What a walk comes to -/

/-- An instruction that a walk comes to, with the walker in front of it. -/
structure Visit (α σ : Type) where
  idle : List Nat
  resources : Resources α
  instruction : Instruction α
  walker : Walker α σ

/-- A walk comes to its first instruction, to those within the form that this one enters and, if
this one does not end the walk, to the later ones, from the state that it leaves. -/
inductive Reaches {σ : Type} (c : WalkContext α σ) :
    List Nat → Resources α → List (Instruction α) → Walker α σ → Visit α σ → Prop
  | here {idle : List Nat} {resources : Resources α} {i : Instruction α}
    {rest : List (Instruction α)} {w : Walker α σ} :
    Reaches c idle resources (i :: rest) w ⟨idle, resources, i, w⟩
  | within {idle : List Nat} {resources own : Resources α} {i : Instruction α}
    {rest content : List (Instruction α)} {w : Walker α σ} {v : Visit α σ} {index : Nat}
    {form : Form α} (hturn : turn c idle resources i = .enter index form own content)
    (h : Reaches c (idle.erase index) own content (w.inside form) v) :
    Reaches c idle resources (i :: rest) w v
  | later {idle : List Nat} {resources : Resources α} {i : Instruction α}
    {rest : List (Instruction α)} {w : Walker α σ} {v : Visit α σ}
    (hgoes : GoesOn ((carryOut c idle resources i).run w).1)
    (h : Reaches c idle resources rest ((carryOut c idle resources i).run w).2 v) :
    Reaches c idle resources (i :: rest) w v

/-- A form that cannot be read is fatal unless it is malformed, and so is an operator that fails for
good. -/
def Visit.Fatal (c : WalkContext α (Press α)) (v : Visit α (Press α)) : Prop :=
  match turn c v.idle v.resources v.instruction with
  | .unreadable _ fault => fault.isMalformed = false
  | .operator verb => Fails c v.resources v.instruction v.walker verb
  | _ => False

/-! ## Events -/

theorem survivesDrawing_steady [Scalar.Lawful α] (hc : c.listener = Press.listener) :
    SurvivesDrawing c Steady where
  graphics _ _ _ _ h := h
  glyph := by
    intro g w h
    rw [send, hc]
    exact (Layout.run_addGlyph h g).1
  operator := by
    intro op _ w h
    rw [send, hc]
    exact Layout.Steady.survivesOperators.addOperator op _ h

theorem passes_send_glyph [Scalar.Lawful α] (hc : c.listener = Press.listener) (g : Glyph α) :
    (send c (.glyph g)).Passes Steady := by
  intro w h
  rw [send, hc]
  exact (Layout.run_addGlyph h g).2

theorem goesOn_sendOperator_iff [Scalar.Lawful α] (hc : c.listener = Press.listener) (h : w.Steady)
    (resources : Resources α) (i : Instruction α) :
    GoesOn ((sendOperator c resources i).run w).1 ↔ GoesOn (askedSent c resources i w) := by
  rw [sendOperator, Act.run_bind_ok (Act.run_get w), send, hc]
  refine (Layout.goesOn_addOperator_iff h _).trans ?_
  unfold askedSent
  by_cases hpage : w.listener.layout.page.isSome = true
  · rw [if_pos hpage]
    exact forall_prop_of_true hpage
  · rw [if_neg hpage]
    exact ⟨fun _ => goesOn_ok _, fun _ h => absurd h hpage⟩

/-! ## Operators -/

omit [Scalar α] in
theorem operand_eq (operands : List (Object α)) (n : Nat) :
    operand operands n
      = (Act.ofExcept (operandAt operands n) : Act (Walker α (Press α)) (Object α)) := by
  unfold operand operandAt
  cases operands[n]? <;> rfl

omit [Scalar α] in
theorem goesOn_operand_bind_congr {β : Type} {operands : List (Object α)} {n : Nat}
    {f : Object α → Act (Walker α (Press α)) Unit} {g : Object α → Except Fault β}
    (h : ∀ o, GoesOn ((f o).run w).1 ↔ GoesOn (g o)) :
    GoesOn ((operand operands n >>= f).run w).1 ↔ GoesOn (operandAt operands n >>= g) := by
  rw [operand_eq]
  exact Act.goesOn_run_ofExcept_bind_congr fun o _ => h o

/-! ### Numbers -/

theorem goesOn_one_iff (operands : List (Object α)) :
    GoesOn ((one c operands).run w).1 ↔ GoesOn (numbers c operands 1) := by
  refine Act.goesOn_run_ofExcept_bind_iff (P := fun _ => True) (fun values => ?_) trivial
  split
  · exact .pure _
  · exact .throw rfl

theorem goesOn_two_iff (operands : List (Object α)) :
    GoesOn ((two c operands).run w).1 ↔ GoesOn (numbers c operands 2) := by
  refine Act.goesOn_run_ofExcept_bind_iff (P := fun _ => True) (fun values => ?_) trivial
  split
  · exact .pure _
  · exact .throw rfl

theorem goesOn_six_iff (operands : List (Object α)) :
    GoesOn ((six c operands).run w).1 ↔ GoesOn (numbers c operands 6) := by
  refine Act.goesOn_run_ofExcept_bind_iff (P := fun _ => True) (fun values => ?_) trivial
  split
  · exact .pure _
  · exact .throw rfl

/-! ### Sequences -/

omit [Scalar α] in
/-- What is done item by item goes on exactly if every item that is come to does. -/
theorem goesOn_sequence_iff {σ β : Type} {P : σ → Prop} {Q : σ → β → Prop}
    {f : List β → Act σ Unit} (hnil : f [] = pure ())
    (happend : ∀ xs ys, f (xs ++ ys) = f xs >>= fun _ => f ys)
    (hkeeps : ∀ x, (f [x]).Keeps P)
    (hone : ∀ x s, P s → (GoesOn ((f [x]).run s).1 ↔ Q s x)) (xs : List β) :
    ∀ s, P s → (GoesOn ((f xs).run s).1 ↔ ∀ before x after t, xs = before ++ x :: after →
      (f before).run s = (.ok (), t) → Q t x) := by
  induction xs with
  | nil =>
    intro s _
    refine ⟨fun _ before x after t hxs => ?_, fun _ => hnil ▸ goesOn_ok _⟩
    exact absurd hxs.symm (List.append_ne_nil_of_right_ne_nil _ (List.cons_ne_nil _ _))
  | cons x xs ih =>
    intro s hs
    -- Later items are met in the state that this one leaves, and only if it has not failed.
    have hkept : ∀ b t, (f [x]).run s = (.ok b, t) → P t := by
      intro b t hrun
      have hpt := hkeeps x s hs
      rw [hrun] at hpt
      exact hpt
    rw [← List.singleton_append, happend, Act.goesOn_run_bind_iff, hone x s hs]
    constructor
    · rintro ⟨hx, hxs⟩ before y after t hitems hrun
      cases before with
      | nil =>
        obtain ⟨rfl, rfl⟩ := List.cons.inj hitems
        rw [hnil] at hrun
        cases hrun
        exact hx
      | cons z before =>
        obtain ⟨rfl, htail⟩ := List.cons.inj hitems
        rw [← List.singleton_append, happend] at hrun
        obtain ⟨b, u, hfirst, hrest⟩ := Act.run_bind_eq_ok hrun
        exact (ih u (hkept b u hfirst)).mp (hxs b u hfirst) before y after t htail hrest
    · intro hall
      refine ⟨hall [] x xs s rfl (hnil ▸ rfl), fun b u hfirst => ?_⟩
      refine (ih u (hkept b u hfirst)).mpr fun before y after t hitems hrun => ?_
      refine hall (x :: before) y after t (by rw [hitems]; rfl) ?_
      rw [← List.singleton_append, happend, Act.run_bind_ok hfirst]
      exact hrun

/-! ### Strings -/

/-- The items that are shown are known before any of them is. -/
theorem perform_showArray (resources : Resources α) (i : Instruction α) :
    perform c resources i .showArray
      = Act.ofExcept (shownItems c i.operands) >>= fun items => showItems c items := by
  rw [shownItems, Act.ofExcept_bind, bind_assoc, ← operand_eq]
  rfl

section

variable [Scalar.Lawful α] (hc : c.listener = Press.listener)

include hc

/-- Showing goes on exactly if every code that it comes to can be read or is malformed. -/
theorem goesOn_showCodes_iff (g : Graphics α) (decoder : Decoder α) (codes : List Bytes)
    (h : w.Steady) :
    GoesOn ((showCodes c g decoder codes).run w).1
      ↔ ∀ before code after w', codes = before ++ code :: after →
        (showCodes c g decoder before).run w = (.ok (), w') → GoesOn (decoder.text code) := by
  have hsurvives := survivesDrawing_steady hc
  refine goesOn_sequence_iff (P := Steady) (f := showCodes c g decoder)
    (Q := fun _ code => GoesOn (decoder.text code)) (by rw [showCodes]) showCodes_append
    (fun _ => keeps_showCodes hsurvives g decoder _) (fun code w h => ?_) codes w h
  rw [showCodes]
  refine (Act.goesOn_run_ofExcept_bind_iff (P := Steady) (fun s => ?_) h).trans
    (Act.goesOn_map_iff _ _)
  split
  · exact .bind .get .get fun _ => .bind (hsurvives.glyph _) (passes_send_glyph hc _) fun _ =>
      .bind (keeps_advance hsurvives _) (.modify _) fun _ => .pure _
  · exact .bind (keeps_advance hsurvives _) (.modify _) fun _ => .pure _

theorem goesOn_showString_iff (h : w.Steady) (o : Object α) :
    GoesOn ((showString c o).run w).1 ↔ ¬ ShowingFails c w o := by
  rw [showString, Act.run_bind_ok (Act.run_get w)]
  dsimp only
  cases hfont : w.graphics.font.bind c.model.decoder? with
  | none =>
    refine ⟨fun _ hfails => ?_, fun _ => goesOn_ok _⟩
    cases hfails with
    | bytes hdecoder | code hdecoder =>
      rw [hfont] at hdecoder
      cases hdecoder
  | some decoder =>
    cases hbytes : stringBytes c.graph o with
    | error e =>
      rw [Act.run_bind_error (Act.run_ofExcept _ w)]
      refine ⟨fun hgoes hfails => ?_, fun hfails => not_not.mp fun hgoes => ?_⟩
      · cases hfails with
        | bytes _ h =>
          rw [hbytes] at h
          exact h (goesOn_error_iff.mpr (goesOn_error_iff.mp hgoes))
        | code _ hok =>
          rw [hbytes] at hok
          cases hok
      · refine hfails (.bytes hfont ?_)
        rw [hbytes]
        exact fun hbytes => hgoes (goesOn_error_iff.mpr (goesOn_error_iff.mp hbytes))
    | ok bytes =>
      rw [Act.run_bind_ok (Act.run_ofExcept _ w), Decoder.split_eq_codes,
        goesOn_showCodes_iff hc w.graphics decoder _ h]
      constructor
      · rintro hall (⟨-, hbad⟩ | ⟨hdecoder, hok, hcodes, hrun, hbad⟩)
        · rw [hbytes] at hbad
          exact hbad (goesOn_ok _)
        · rw [hfont] at hdecoder
          rw [hbytes] at hok
          cases hdecoder
          cases hok
          exact hbad (hall _ _ _ _ hcodes hrun)
      · intro hfails before code after w' hcodes hrun
        exact not_not.mp fun hbad => hfails (.code hfont hbytes hcodes hrun hbad)

/-- An item goes on exactly if it does not fail for good. -/
theorem goesOn_showItem_iff (h : w.Steady) (item : Object α) :
    GoesOn ((showItems c [item]).run w).1 ↔ ¬ ItemFails c w item := by
  have hstring : GoesOn ((showString c item >>= fun _ => showItems c []).run w).1
      ↔ ¬ ShowingFails c w item := by
    rw [showItems, bind_pure_unit]
    exact goesOn_showString_iff hc h item
  have hnumber : GoesOn ((get >>= fun w => Act.ofExcept (c.graph.numberOr 0 item) >>= fun x =>
      (advance (Scalar.perMille (-x) * w.graphics.fontSize * w.graphics.scaling / Scalar.ofNat 100)
        : Act (Walker α (Press α)) Unit) >>= fun _ => showItems c []).run w).1
      ↔ ¬ ¬ GoesOn (c.graph.numberOr 0 item) := by
    rw [not_not, Act.run_bind_ok (Act.run_get w)]
    refine Act.goesOn_run_ofExcept_bind_iff (P := Steady) (fun x => ?_) h
    exact .bind (keeps_advance (survivesDrawing_steady hc) _) (.modify _) fun _ => .pure _
  cases item with
  | text | bytes => exact hstring
  | _ => exact hnumber

/-- Items go on exactly if none that is come to fails for good. -/
theorem goesOn_showItems_iff (items : List (Object α)) (h : w.Steady) :
    GoesOn ((showItems c items).run w).1
      ↔ ∀ before item after w', items = before ++ item :: after →
        (showItems c before).run w = (.ok (), w') → ¬ ItemFails c w' item :=
  goesOn_sequence_iff (P := Steady) (f := showItems c) (Q := fun w item => ¬ ItemFails c w item)
    (by rw [showItems]) (showItems_append c) (fun _ => keeps_showItems (survivesDrawing_steady hc) _)
    (fun item _ h => goesOn_showItem_iff hc h item) items w h

/-! ### Verbs -/

/-- A verb that shows nothing goes on exactly if what it asks does. -/
theorem goesOn_perform_iff (h : w.Steady) (resources : Resources α) (i : Instruction α)
    {verb : Verb} (hstring : verb.stringAt? = none) (hverb : verb ≠ .showArray) :
    GoesOn ((perform c resources i verb).run w).1 ↔ GoesOn (asked c resources i w verb) := by
  have hsurvives := survivesDrawing_steady hc
  have hchange : ∀ f : Graphics α → Graphics α, (change f).Passes (Steady (α := α)) :=
    fun f => .modify _
  have hnextLine : ∀ x y : α, (nextLine x y).Passes (Steady (α := α)) := fun x y => .modify _
  cases verb with
  | «show» | nextLineShow | spacedShow => cases hstring
  | save => exact ⟨fun _ => goesOn_ok _, fun _ => goesOn_ok _⟩
  | restore =>
    refine ⟨fun _ => goesOn_ok _, fun _ => ?_⟩
    obtain ⟨graphics, stack, textMatrix, lineMatrix, listener⟩ := w
    cases stack <;> exact goesOn_ok _
  | beginText => exact ⟨fun _ => goesOn_ok _, fun _ => goesOn_ok _⟩
  | nextLine => exact ⟨fun _ => goesOn_ok _, fun _ => goesOn_ok _⟩
  | concatenate =>
    rw [asked, Act.goesOn_map_iff, ← goesOn_six_iff (w := w)]
    exact Act.goesOn_run_bind_iff_of_passes (keeps_six _) (fun _ => hchange _) h
  | textMatrix =>
    rw [asked, Act.goesOn_map_iff, ← goesOn_six_iff (w := w)]
    exact Act.goesOn_run_bind_iff_of_passes (P := Steady) (keeps_six _) (fun _ => .modify _) h
  | lineWidth | charSpacing | wordSpacing | scaling | leading | rise =>
    rw [asked, Act.goesOn_map_iff, ← goesOn_one_iff (w := w)]
    exact Act.goesOn_run_bind_iff_of_passes (keeps_one _) (fun _ => hchange _) h
  | moveText =>
    rw [asked, Act.goesOn_map_iff, ← goesOn_two_iff (w := w)]
    exact Act.goesOn_run_bind_iff_of_passes (keeps_two _) (fun _ => hnextLine _ _) h
  | moveTextLeading =>
    rw [asked, Act.goesOn_map_iff, ← goesOn_two_iff (w := w)]
    exact Act.goesOn_run_bind_iff_of_passes (keeps_two _)
      (fun _ => .bind (keeps_change hsurvives _) (hchange _) fun _ => hnextLine _ _) h
  | selectFont =>
    unfold perform
    simp only [textOperand, bind_assoc]
    refine goesOn_operand_bind_congr fun o => ?_
    refine Act.goesOn_run_ofExcept_bind_congr fun name _ => ?_
    refine goesOn_operand_bind_congr fun o => ?_
    refine Act.goesOn_run_ofExcept_bind_congr fun size _ => ?_
    exact ⟨fun _ => goesOn_ok _, fun _ => goesOn_ok _⟩
  | showArray => exact absurd rfl hverb
  | path => exact goesOn_sendOperator_iff hc h resources i
  | drawObject =>
    unfold perform
    simp only [textOperand, bind_assoc]
    refine goesOn_operand_bind_congr fun o => ?_
    refine Act.goesOn_run_ofExcept_bind_congr fun name _ => ?_
    by_cases hobject : (resources.object? name).isSome = true
    · rw [if_pos hobject, if_pos hobject]
      exact goesOn_sendOperator_iff hc h resources i
    · rw [if_neg hobject, if_neg hobject]
      exact ⟨fun _ => goesOn_ok _, fun _ => goesOn_ok _⟩

/-- What a verb that shows a string does first goes on exactly if what it asks does. -/
theorem goesOn_opening_iff (h : w.Steady) (resources : Resources α) (i : Instruction α)
    {verb : Verb} {n : Nat} (hverb : verb.stringAt? = some n) :
    GoesOn ((opening c resources i verb).run w).1 ↔ GoesOn (asked c resources i w verb) := by
  cases verb with
  | «show» | nextLineShow => exact ⟨fun _ => goesOn_ok _, fun _ => goesOn_ok _⟩
  | spacedShow =>
    rw [asked, Act.goesOn_map_iff, ← goesOn_two_iff (w := w)]
    refine Act.goesOn_run_bind_iff_of_passes (P := Steady) (keeps_two _) (fun _ => ?_) h
    exact .bind (keeps_change (survivesDrawing_steady hc) _) (.modify _) fun _ =>
      .bind .get .get fun _ => .modify _
  | _ => cases hverb

/-- A verb that shows a string goes on exactly if what it asks does and then the string. -/
theorem goesOn_perform_string_iff (h : w.Steady) (resources : Resources α) (i : Instruction α)
    {verb : Verb} {n : Nat} (hverb : verb.stringAt? = some n) :
    GoesOn ((perform c resources i verb).run w).1
      ↔ GoesOn (asked c resources i w verb) ∧ ∀ value w', i.operands[n]? = some value →
        (opening c resources i verb).run w = (.ok (), w') → ¬ ShowingFails c w' value := by
  rw [perform_eq_opening_bind hverb, Act.goesOn_run_bind_iff, goesOn_opening_iff hc h _ _ hverb]
  have hkept : ∀ w', (opening c resources i verb).run w = (.ok (), w') → w'.Steady := by
    intro w' hrun
    have hsteady := keeps_opening (c := c) (P := Steady) (fun _ _ _ _ h => h) resources i verb w h
    rw [hrun] at hsteady
    exact hsteady
  refine and_congr_right fun _ => ⟨fun hall value w' hvalue hrun => ?_, fun hall b w' hrun => ?_⟩
  · have hgoes := hall () w' hrun
    unfold operand at hgoes
    simp only [hvalue, pure_bind] at hgoes
    exact (goesOn_showString_iff hc (hkept w' hrun) value).mp hgoes
  · unfold operand
    cases hvalue : i.operands[n]? with
    | none => exact goesOn_error_iff.mpr rfl
    | some value =>
      simp only [pure_bind]
      exact (goesOn_showString_iff hc (hkept w' hrun) value).mpr (hall value w' hvalue hrun)

/-- An operator goes on exactly if it does not fail for good. -/
theorem goesOn_perform_iff_not_fails (h : w.Steady) (resources : Resources α) (i : Instruction α)
    (verb : Verb) :
    GoesOn ((perform c resources i verb).run w).1 ↔ ¬ Fails c resources i w verb := by
  by_cases hverb : verb = .showArray
  · subst hverb
    rw [perform_showArray, Act.goesOn_run_bind_iff, Act.run_ofExcept]
    constructor
    · rintro ⟨hitems, hshow⟩ (hasked | ⟨hstring, -⟩ | ⟨-, hshown, hrun, hitem⟩)
      · exact hasked ((Act.goesOn_map_iff _ _).mpr hitems)
      · cases hstring
      · have hgoes := hshow _ w (by rw [hshown])
        exact (goesOn_showItems_iff hc _ h).mp hgoes _ _ _ _ rfl hrun hitem
    · intro hfails
      have hasked : GoesOn (asked c resources i w .showArray) :=
        not_not.mp fun hasked => hfails (.asked hasked)
      refine ⟨(Act.goesOn_map_iff _ _).mp hasked, fun items t hshown => ?_⟩
      obtain ⟨hitems, rfl⟩ := Prod.mk.inj hshown
      refine (goesOn_showItems_iff hc _ h).mpr fun before item after w' hsplit hrun hitem => ?_
      rw [hsplit] at hitems
      exact hfails (.item rfl hitems hrun hitem)
  · cases hstring : verb.stringAt? with
    | none =>
      rw [goesOn_perform_iff hc h resources i hstring hverb]
      constructor
      · rintro hgoes (hasked | ⟨hstring', -⟩ | ⟨hitems, -⟩)
        · exact hasked hgoes
        · rw [hstring] at hstring'
          cases hstring'
        · exact hverb hitems
      · intro hfails
        exact not_not.mp fun hasked => hfails (.asked hasked)
    | some n =>
      rw [goesOn_perform_string_iff hc h resources i hstring]
      constructor
      · rintro ⟨hgoes, hshown⟩ (hasked | ⟨hstring', hvalue, hopening, hfails⟩ | ⟨hitems, -⟩)
        · exact hasked hgoes
        · rw [hstring] at hstring'
          cases hstring'
          exact hshown _ _ hvalue hopening hfails
        · exact hverb hitems
      · intro hfails
        refine ⟨not_not.mp fun hasked => hfails (.asked hasked), fun value w' hvalue hrun h => ?_⟩
        exact hfails (.shown hstring hvalue hrun h)

/-! ## Walks -/

theorem keeps_carryOut {idle : List Nat} {resources : Resources α} {i : Instruction α}
    (hwithin : ∀ index form own content,
      turn c idle resources i = .enter index form own content →
        (walk c (idle.erase index) own content).Keeps Steady) :
    (carryOut c idle resources i).Keeps Steady := by
  unfold carryOut
  cases hturn : turn c idle resources i with
  | ignored => exact .pure _
  | operator verb =>
    refine keeps_perform (survivesDrawing_steady hc) trivial i ?_
    rintro (rfl | rfl)
    · exact .modify fun _ h => h
    · refine .bind .get fun w => ?_
      split
      · exact .pure _
      · exact .modify fun _ h => h
  | enter index form own content =>
    intro w h
    rw [run_withinForm]
    exact hwithin index form own content hturn (w.inside form) h
  | unreadable form fault =>
    intro w h
    rw [run_withinForm]
    exact h
  | recursive form =>
    refine .modify fun w h => ?_
    rw [hc]
    exact ⟨h.options, h.segmenter, h.takesAll⟩

theorem keeps_walk (idle : List Nat) (resources : Resources α) (is : List (Instruction α)) :
    (walk c idle resources is).Keeps Steady := by
  induction idle, resources, is using walk_induction (c := c) with
  | nil idle resources =>
    rw [walk_nil]
    exact .pure _
  | cons idle resources i rest ihwithin ihrest =>
    rw [walk_cons]
    refine .bind (.tryCatch (keeps_carryOut hc ihwithin) fun e => ?_) fun _ => ihrest
    split
    · exact .pure _
    · exact .throw _

/-- What an instruction comes to goes on exactly if it is not fatal, and nothing within the form that
it enters is. -/
theorem goesOn_carryOut_iff (h : w.Steady) {idle : List Nat} {resources : Resources α}
    {i : Instruction α} (hwithin : ∀ index form own content,
      turn c idle resources i = .enter index form own content →
        (((walk c (idle.erase index) own content).run (w.inside form)).1 = .ok ()
          ↔ ∀ v, Reaches c (idle.erase index) own content (w.inside form) v → ¬ v.Fatal c)) :
    GoesOn ((carryOut c idle resources i).run w).1
      ↔ ¬ Visit.Fatal c ⟨idle, resources, i, w⟩ ∧ ∀ index form own content,
        turn c idle resources i = .enter index form own content →
          ∀ v, Reaches c (idle.erase index) own content (w.inside form) v → ¬ v.Fatal c := by
  unfold carryOut Visit.Fatal
  cases hturn : turn c idle resources i with
  | ignored => exact ⟨fun _ => ⟨not_false, fun _ _ _ _ h => by cases h⟩, fun _ => goesOn_ok _⟩
  | operator verb =>
    refine (goesOn_perform_iff_not_fails hc h resources i verb).trans ?_
    exact ⟨fun h => ⟨h, fun _ _ _ _ h => by cases h⟩, fun h => h.1⟩
  | enter index form own content =>
    simp only [run_withinForm]
    rw [goesOn_walk_iff, hwithin index form own content hturn]
    constructor
    · intro hall
      refine ⟨not_false, ?_⟩
      rintro _ _ _ _ ⟨⟩
      exact hall
    · rintro ⟨-, hall⟩
      exact hall index form own content rfl
  | unreadable form fault =>
    simp only [run_withinForm]
    refine ⟨fun hgoes => ⟨?_, fun _ _ _ _ h => by cases h⟩, fun hfatal => ?_⟩
    · rw [Bool.not_eq_false]
      exact goesOn_error_iff.mp hgoes
    · exact goesOn_error_iff.mpr (Bool.not_eq_false _ ▸ hfatal.1)
  | recursive form =>
    exact ⟨fun _ => ⟨not_false, fun _ _ _ _ h => by cases h⟩, fun _ => goesOn_ok _⟩

/-- A walk returns normally exactly if it comes to nothing that is fatal. -/
theorem walk_eq_ok_iff (idle : List Nat) (resources : Resources α) (is : List (Instruction α)) :
    ∀ w : Walker α (Press α), w.Steady →
      (((walk c idle resources is).run w).1 = .ok ()
        ↔ ∀ v, Reaches c idle resources is w v → ¬ v.Fatal c) := by
  induction idle, resources, is using walk_induction (c := c) with
  | nil idle resources =>
    intro w _
    rw [walk_nil]
    refine ⟨fun _ v hv => ?_, fun _ => rfl⟩
    cases hv
  | cons idle resources i rest ihwithin ihrest =>
    intro w h
    -- A fatal instruction ends the walk here; after any other the rest is walked, still steady.
    have hfirst := goesOn_carryOut_iff hc h fun index form own content hturn =>
      ihwithin index form own content hturn (w.inside form) h
    have hkept : ((carryOut c idle resources i).run w).2.Steady :=
      keeps_carryOut hc (fun _ _ own content _ => keeps_walk hc _ own content) w h
    constructor
    · intro hok v hv
      have hgoes : GoesOn ((carryOut c idle resources i).run w).1 := by
        by_contra hgoes
        rw [run_walk_cons_of_not_goesOn hgoes] at hok
        exact hgoes (hok ▸ goesOn_ok _)
      rw [run_walk_cons_of_goesOn hgoes, ihrest _ hkept] at hok
      cases hv with
      | here => exact (hfirst.mp hgoes).1
      | within hturn hv => exact (hfirst.mp hgoes).2 _ _ _ _ hturn v hv
      | later _ hv => exact hok v hv
    · intro hall
      have hgoes := hfirst.mpr ⟨hall _ .here, fun _ _ _ _ hturn v hv => hall v (.within hturn hv)⟩
      rw [run_walk_cons_of_goesOn hgoes, ihrest _ hkept]
      exact fun v hv => hall v (.later hgoes hv)

end

end Folio.Pdf.Walker
