import Folio.Proofs.Font.Reach
import Folio.Proofs.Pdf.Walk

/-!
# Walks and what their listeners hear

A listener that hears what another one hears, and does something besides, does not change the walk
that it listens to (`mirrors_walk`). Every step of the walk mirrors the same step for the other
listener, and what the listener has to know of the events is known on the way: the glyphs of a walk
are drawn with fonts that can be reached from the resources of the page.

That is so because only two operators change the font. One selects it by name among the resources of
the content, which the page's lead to through forms (`Catalog.Listed`); the other takes a saved
state up, so the saved fonts are part of the invariant (`Draws`).
-/

namespace Folio

variable {α σ τ : Type}

/-- The listener `m` is the listener `l` to whoever sees its states through the view, as long as
glyphs are drawn with fonts that have the property `F`, and operators come with resources that have
the property `R`. -/
structure Listener.Mirrors (F : Font α → Prop) (P : τ → Prop) (view : τ → σ) (m : Listener α τ)
    (l : Listener α σ) (R : Resources α → Prop := fun _ => True) : Prop where
  glyph : ∀ g font, g.font = some font → F font →
    Act.Mirrors P view (m.receive (.glyph g)) (l.receive (.glyph g))
  operator : ∀ op, (∀ r ∈ op.resources, R r) →
    Act.Mirrors P view (m.receive (.operator op)) (l.receive (.operator op))
  report : ∀ r t, P t → P (m.report r t) ∧ l.report r (view t) = view (m.report r t)

namespace Pdf

/-- The context of a walk that another listener hears. -/
def WalkContext.heardBy (l : Listener α σ) (c : WalkContext α τ) : WalkContext α σ :=
  ⟨c.graph, c.model, c.page, l⟩

/-- A font that is selected has the property. -/
def Graphics.FontIs (F : Font α → Prop) (g : Graphics α) : Prop :=
  ∀ font, g.font = some font → F font

namespace Walker

/-- The walker with the state of its listener seen through a view. -/
def seen (view : τ → σ) (w : Walker α τ) : Walker α σ :=
  ⟨w.graphics, w.stack, w.textMatrix, w.lineMatrix, view w.listener⟩

/-- All fonts that are selected or saved have the property. -/
structure Draws (F : Font α → Prop) (P : τ → Prop) (w : Walker α τ) : Prop where
  selected : w.graphics.FontIs F
  saved : ∀ g ∈ w.stack, g.FontIs F
  listener : P w.listener

variable [Scalar α]

theorem draws_start (F : Font α → Prop) {P : τ → Prop} {t : τ} (h : P t) :
    (start t : Walker α τ).Draws F P where
  selected _ hfont := by cases hfont
  saved _ hg := absurd hg List.not_mem_nil
  listener := h

variable {F : Font α → Prop} {R : Resources α → Prop} {P : τ → Prop} {view : τ → σ}
  {c : WalkContext α τ} {l : Listener α σ}

/-! ## Operators -/

omit [Scalar α] in
theorem mirrors_change {f : Graphics α → Graphics α} (hf : ∀ g, g.FontIs F → (f g).FontIs F) :
    Act.Mirrors (Draws F P) (seen view) (change f) (change f) :=
  .modify (fun _ h => { h with selected := hf _ h.selected }) fun _ _ => rfl

omit [Scalar α] in
/-- Most operators leave the font alone. -/
theorem mirrors_change_of_font {f : Graphics α → Graphics α} (hf : ∀ g, (f g).font = g.font) :
    Act.Mirrors (Draws F P) (seen view) (change f) (change f) := by
  refine mirrors_change fun g hg font hfont => hg font ?_
  rw [← hf g, hfont]

theorem mirrors_nextLine (x y : α) :
    Act.Mirrors (Draws F P) (seen view) (nextLine x y) (nextLine x y) :=
  .modify (fun _ h => ⟨h.selected, h.saved, h.listener⟩) fun _ _ => rfl

theorem mirrors_advance (x : α) : Act.Mirrors (Draws F P) (seen view) (advance x) (advance x) :=
  .modify (fun _ h => ⟨h.selected, h.saved, h.listener⟩) fun _ _ => rfl

theorem mirrors_one (operands : List (Object α)) :
    Act.Mirrors (Draws F P) (seen view) (one c operands) (one (c.heardBy l) operands) := by
  refine .bind (.ofExcept _) fun values => ?_
  split
  · exact .pure _
  · exact .throw _

theorem mirrors_two (operands : List (Object α)) :
    Act.Mirrors (Draws F P) (seen view) (two c operands) (two (c.heardBy l) operands) := by
  refine .bind (.ofExcept _) fun values => ?_
  split
  · exact .pure _
  · exact .throw _

theorem mirrors_six (operands : List (Object α)) :
    Act.Mirrors (Draws F P) (seen view) (six c operands) (six (c.heardBy l) operands) := by
  refine .bind (.ofExcept _) fun values => ?_
  split
  · exact .pure _
  · exact .throw _

omit [Scalar α] in
theorem mirrors_operand (operands : List (Object α)) (n : Nat) :
    Act.Mirrors (Draws F P) (seen view) (operand operands n) (operand operands n) := by
  unfold operand
  split
  · exact .pure _
  · exact .throw _

theorem mirrors_textOperand (operands : List (Object α)) (n : Nat) :
    Act.Mirrors (Draws F P) (seen view) (textOperand c operands n)
      (textOperand (c.heardBy l) operands n) :=
  .bind (mirrors_operand _ _) fun _ => .ofExcept _

omit [Scalar α] in
theorem mirrors_send {e : Event α} (h : Act.Mirrors P view (c.listener.receive e) (l.receive e)) :
    Act.Mirrors (Draws F P) (seen view) (send c e) (send (c.heardBy l) e) :=
  h.onPart (fun _ hw => hw.listener) (fun _ _ hw ht => { hw with listener := ht }) (fun _ => rfl)
    fun _ _ => rfl

omit [Scalar α] in
theorem mirrors_report (h : c.listener.Mirrors F P view l R) (r : LogRecord) :
    Act.Mirrors (Draws F P) (seen view) (report c r) (report (c.heardBy l) r) :=
  .modify (fun w hw => { hw with listener := (h.report r w.listener hw.listener).1 }) fun w hw =>
    congrArg (Walker.mk _ _ _ _) (h.report r w.listener hw.listener).2

omit [Scalar α] in
theorem mirrors_sendOperator (h : c.listener.Mirrors F P view l R) {resources : Resources α}
    (hresources : R resources) (i : Instruction α) :
    Act.Mirrors (Draws F P) (seen view) (sendOperator c resources i)
      (sendOperator (c.heardBy l) resources i) := by
  refine .get_bind fun _ _ => mirrors_send (h.operator _ fun r hr => ?_)
  cases hr
  exact hresources

/-- All glyphs of a string are drawn with the font that is selected when it begins. -/
theorem mirrors_showCodes (h : c.listener.Mirrors F P view l R) {g : Graphics α} {font : Font α}
    (hfont : g.font = some font) (hF : F font) (decoder : Decoder α) (codes : List Bytes) :
    Act.Mirrors (Draws F P) (seen view) (showCodes c g decoder codes)
      (showCodes (c.heardBy l) g decoder codes) := by
  induction codes with
  | nil => exact .pure _
  | cons code codes ih =>
    rw [showCodes, showCodes]
    refine .bind (.ofExcept _) fun s => ?_
    split
    · exact .get_bind fun _ _ => .bind (mirrors_send (h.glyph _ font hfont hF)) fun _ =>
        .bind (mirrors_advance _) fun _ => ih
    · exact .bind (mirrors_advance _) fun _ => ih

/-- Without a font nothing is shown, so that every glyph has one. -/
theorem mirrors_showString (h : c.listener.Mirrors F P view l R) (value : Object α) :
    Act.Mirrors (Draws F P) (seen view) (showString c value)
      (showString (c.heardBy l) value) := by
  refine .get_bind fun w hw => ?_
  extract_lets g g'
  have hsame : g'.font.bind (c.heardBy l).model.decoder? = g.font.bind c.model.decoder? := rfl
  rw [hsame]
  cases hdecoder : g.font.bind c.model.decoder? with
  | none => exact .pure _
  | some decoder =>
    obtain ⟨font, hfont, -⟩ := Option.bind_eq_some_iff.mp hdecoder
    exact .bind (.ofExcept _) fun _ => mirrors_showCodes h hfont (hw.selected font hfont) _ _

theorem mirrors_showItems (h : c.listener.Mirrors F P view l R) (items : List (Object α)) :
    Act.Mirrors (Draws F P) (seen view) (showItems c items) (showItems (c.heardBy l) items) := by
  induction items with
  | nil => exact .pure _
  | cons item items ih =>
    unfold showItems
    split
    · exact .bind (mirrors_showString h _) fun _ => ih
    · exact .bind (mirrors_showString h _) fun _ => ih
    · exact .get_bind fun _ _ => .bind (.ofExcept _) fun _ => .bind (mirrors_advance _) fun _ => ih

/-- Every operator mirrors itself, as long as fonts are selected from resources whose fonts have the
property. -/
theorem mirrors_perform (h : c.listener.Mirrors F P view l R) {resources : Resources α}
    (hfonts : ∀ name font, resources.font? name = some font → F font) (hresources : R resources)
    (i : Instruction α) (verb : Verb) :
    Act.Mirrors (Draws F P) (seen view) (perform c resources i verb)
      (perform (c.heardBy l) resources i verb) := by
  cases verb with
  | save =>
    refine .modify (fun w hw => { hw with saved := ?_ }) fun _ _ => rfl
    exact List.forall_mem_cons.mpr ⟨hw.selected, hw.saved⟩
  | restore =>
    refine .get_bind fun w hw => ?_
    have hseen : (w.seen view).stack = w.stack := rfl
    rw [hseen]
    cases hstack : w.stack with
    | nil => exact .pure _
    | cons g rest =>
      have hsaved := hw.saved
      rw [hstack] at hsaved
      obtain ⟨hg, hrest⟩ := List.forall_mem_cons.mp hsaved
      exact .modify (fun _ hw => ⟨hg, hrest, hw.listener⟩) fun _ _ => rfl
  | concatenate =>
    exact .bind (mirrors_six _) fun _ => mirrors_change_of_font fun _ => rfl
  | lineWidth | charSpacing | wordSpacing | scaling | leading | rise =>
    exact .bind (mirrors_one _) fun _ => mirrors_change_of_font fun _ => rfl
  | beginText => exact .modify (fun _ hw => ⟨hw.selected, hw.saved, hw.listener⟩) fun _ _ => rfl
  | selectFont =>
    exact .bind (mirrors_textOperand _ _) fun name =>
      .bind (mirrors_change fun _ _ font hfont => hfonts name font hfont) fun _ =>
        .bind (mirrors_operand _ _) fun _ => .bind (.ofExcept _) fun _ =>
          mirrors_change_of_font fun _ => rfl
  | moveText => exact .bind (mirrors_two _) fun _ => mirrors_nextLine _ _
  | moveTextLeading =>
    exact .bind (mirrors_two _) fun _ => .bind (mirrors_change_of_font fun _ => rfl) fun _ =>
      mirrors_nextLine _ _
  | textMatrix =>
    exact .bind (mirrors_six _) fun _ =>
      .modify (fun _ hw => ⟨hw.selected, hw.saved, hw.listener⟩) fun _ _ => rfl
  | nextLine => exact .get_bind fun _ _ => mirrors_nextLine _ _
  | «show» => exact .bind (mirrors_operand _ _) fun _ => mirrors_showString h _
  | showArray =>
    exact .bind (mirrors_operand _ _) fun _ => .bind (.ofExcept _) fun _ => mirrors_showItems h _
  | nextLineShow =>
    exact .get_bind fun _ _ => .bind (mirrors_nextLine _ _) fun _ =>
      .bind (mirrors_operand _ _) fun _ => mirrors_showString h _
  | spacedShow =>
    exact .bind (mirrors_two _) fun _ => .bind (mirrors_change_of_font fun _ => rfl) fun _ =>
      .get_bind fun _ _ => .bind (mirrors_nextLine _ _) fun _ =>
        .bind (mirrors_operand _ _) fun _ => mirrors_showString h _
  | path => exact mirrors_sendOperator h hresources _
  | drawObject =>
    refine .bind (mirrors_textOperand _ _) fun name => ?_
    split
    · exact mirrors_sendOperator h hresources _
    · exact .pure _

/-! ## Forms -/

omit [Scalar α] in
theorem mirrors_skipMalformed {y : Act (Walker α τ) Unit} {x : Act (Walker α σ) Unit}
    (h : Act.Mirrors (Draws F P) (seen view) y x) :
    Act.Mirrors (Draws F P) (seen view) (skipMalformed y) (skipMalformed x) := by
  refine .tryCatch h fun e => ?_
  split
  · exact .pure _
  · exact .throw _

/-- Behind a form the font is that from before it; only what the form has saved is new. -/
theorem mirrors_withinForm (form : Form α) {y : Act (Walker α τ) Unit}
    {x : Act (Walker α σ) Unit} (h : Act.Mirrors (Draws F P) (seen view) y x) :
    Act.Mirrors (Draws F P) (seen view) (withinForm form y) (withinForm form x) := by
  intro w hw
  obtain ⟨hkept, hseen⟩ := h (w.inside form) ⟨hw.selected, hw.saved, hw.listener⟩
  rw [run_withinForm, run_withinForm]
  have hinside : (w.seen view).inside form = (w.inside form).seen view := rfl
  rw [hinside, hseen]
  exact ⟨⟨hw.selected, hkept.saved, hkept.listener⟩, rfl⟩

/-- A form that is entered is listed in the resources of where it is drawn, so that its own may be
named as well; without its own it has those. -/
theorem listed_of_turn_enter {first index : Nat} {idle : List Nat} {resources own : Resources α}
    {i : Instruction α} {form : Form α} {content : List (Instruction α)}
    (h : turn c idle resources i = .enter index form own content)
    (hlisted : c.model.catalog.Listed first resources) : c.model.catalog.Listed first own := by
  obtain ⟨-, hform, -, rfl⟩ := of_turn_enter h
  cases hown : form.resources with
  | none => exact hlisted
  | some own =>
    obtain ⟨name, hname⟩ := object?_of_form? (form?_of_turn_enter h)
    refine .form hlisted (Catalog.mem_of_lookup hname) ?_
    rw [Catalog.ofObject, hform]
    exact hown

/-- The walk through content whose resources may be named mirrors itself, if the fonts that can be
reached from the page have the property, and so do the resources of the content and of forms. -/
theorem mirrors_walk (h : c.listener.Mirrors F P view l R) {first : Nat}
    (hfonts : ∀ font ∈ c.model.catalog.reachableFonts first, F font)
    (hforms : ∀ index, R (c.model.catalog.resourcesAt index)) (idle : List Nat)
    (resources : Resources α) (is : List (Instruction α)) :
    c.model.catalog.Listed first resources → R resources →
      Act.Mirrors (Draws F P) (seen view) (walk c idle resources is)
        (walk (c.heardBy l) idle resources is) := by
  induction idle, resources, is using walk_induction (c := c) with
  | nil idle resources =>
    intro _ _
    rw [walk_nil, walk_nil]
    exact .pure _
  | cons idle resources i rest ihenter ihrest =>
    intro hlisted hresources
    rw [walk_cons, walk_cons]
    refine .bind (mirrors_skipMalformed ?_) fun _ => ihrest hlisted hresources
    have hturn : turn (c.heardBy l) idle resources i = turn c idle resources i := rfl
    rw [carryOut, carryOut, hturn]
    cases henter : turn c idle resources i with
    | ignored => exact .pure _
    | operator verb =>
      have hnamed : ∀ name font, resources.font? name = some font → F font :=
        fun name font hfont => hfonts font (hlisted.mem_reachableFonts hfont)
      exact mirrors_perform h hnamed hresources i verb
    | enter index form own content =>
      exact mirrors_withinForm form (ihenter index form own content henter
        (listed_of_turn_enter henter hlisted) (own_of_turn_enter henter hresources hforms))
    | unreadable form fault => exact mirrors_withinForm form (.throw _)
    | recursive form => exact mirrors_report h _

end Walker

end Pdf

end Folio
