import Folio.Pdf.Walker
import Folio.Proofs.Act

/-!
# One instruction at a time

What an instruction comes to is decided by what it draws and by which forms are idle (`turn`):
nothing, an operator, a form that is walked or cannot be read, or a form that is being drawn
already. A walk carries its instructions out one after the other (`walk_cons`), and a walk within a
form is a walk with one idle form less (`mem_of_turn_enter`). Operators change the graphics state,
the text matrices and the listener, and only two of them the stack (`keeps_perform`). What a
listener keeps of all it is told, a walk keeps (`keeps_walk_listener`).
-/

namespace Folio.Pdf.Walker

open Act (GoesOn goesOn_ok goesOn_error_iff)

variable {α σ : Type} [Scalar α]

/-- What an instruction comes to. -/
inductive Turn (α : Type)
  | ignored
  | operator (verb : Verb)
  /-- The form is walked, with those resources and that content. -/
  | enter (index : Nat) (form : Form α) (resources : Resources α) (content : List (Instruction α))
  /-- The form cannot be read. -/
  | unreadable (form : Form α) (fault : Fault)
  /-- The form is being drawn already. -/
  | recursive (form : Form α)

/-- What an instruction comes to while those forms are idle. -/
def turn (c : WalkContext α σ) (idle : List Nat) (resources : Resources α) (i : Instruction α) :
    Turn α :=
  match form? c resources i with
  | none =>
    match Verb.ofName? i.operator with
    | some verb => .operator verb
    | none => .ignored
  | some index =>
    match c.model.catalog.forms[index]? with
    | none => .ignored
    | some form =>
      if index ∈ idle then
        match contentOf c form with
        | none => .ignored
        | some (.error fault) => .unreadable form fault
        | some (.ok content) =>
          .enter index form ((form.resources.map c.model.catalog.resourcesAt).getD resources) content
      else .recursive form

def carryOut (c : WalkContext α σ) (idle : List Nat) (resources : Resources α)
    (i : Instruction α) : Act (Walker α σ) Unit :=
  match turn c idle resources i with
  | .ignored => pure ()
  | .operator verb => perform c resources i verb
  | .enter index form own content => withinForm form (walk c (idle.erase index) own content)
  | .unreadable form fault => withinForm form (throw fault)
  | .recursive form => report c (recursionReport form.name)

theorem walk_nil (c : WalkContext α σ) (idle : List Nat) (resources : Resources α) :
    walk c idle resources [] = pure () := by
  rw [walk]

theorem walk_cons (c : WalkContext α σ) (idle : List Nat) (resources : Resources α)
    (i : Instruction α) (rest : List (Instruction α)) :
    walk c idle resources (i :: rest)
      = skipMalformed (carryOut c idle resources i) >>= fun _ => walk c idle resources rest := by
  rw [walk]
  refine congrArg (fun act => skipMalformed act >>= fun _ => walk c idle resources rest) ?_
  -- The walk decides in one go what is split here into what is decided and what is done.
  unfold carryOut turn
  cases form? c resources i with
  | none => cases Verb.ofName? i.operator <;> rfl
  | some index =>
    cases hform : c.model.catalog.forms[index]? with
    | none => simp only [hform]
    | some form =>
      by_cases hidle : index ∈ idle
      · simp only [hform, dif_pos hidle, if_pos hidle]
        rcases contentOf c form with _ | (_ | _) <;> rfl
      · simp only [hform, dif_neg hidle, if_neg hidle]

/-- A walk carries its instructions out one by one. -/
theorem walk_eq_foldr (c : WalkContext α σ) (idle : List Nat) (resources : Resources α)
    (is : List (Instruction α)) :
    walk c idle resources is
      = is.foldr (fun i rest => skipMalformed (carryOut c idle resources i) >>= fun _ => rest)
        (pure ()) := by
  induction is with
  | nil => rw [walk_nil]; rfl
  | cons i is ih => rw [walk_cons, ih]; rfl

theorem walk_append (c : WalkContext α σ) (idle : List Nat) (resources : Resources α)
    (is js : List (Instruction α)) :
    walk c idle resources (is ++ js)
      = walk c idle resources is >>= fun _ => walk c idle resources js := by
  induction is with
  | nil => rw [walk_nil, pure_bind]; rfl
  | cons i is ih => rw [List.cons_append, walk_cons, walk_cons, ih, bind_assoc]

theorem turn_of_operator {c : WalkContext α σ} {idle : List Nat} {resources : Resources α}
    {i : Instruction α} {verb : Verb} (hverb : Verb.ofName? i.operator = some verb)
    (hne : verb ≠ .drawObject) : turn c idle resources i = .operator verb := by
  have hform : form? c resources i = none := by
    rw [form?, hverb, if_neg fun h => hne (Option.some.inj h)]
  rw [turn, hform]
  simp only [hverb]

/-- An instruction that draws a form comes to no operator, whatever becomes of the form. -/
theorem turn_of_form? {c : WalkContext α σ} {idle : List Nat} {resources : Resources α}
    {i : Instruction α} {index : Nat} (hform : form? c resources i = some index) (verb : Verb) :
    turn c idle resources i ≠ .operator verb := by
  intro h
  rw [turn, hform] at h
  simp only at h
  split at h
  · cases h
  · split at h
    · split at h <;> cases h
    · cases h

/-- A form that is entered was idle and can be read. -/
theorem of_turn_enter {c : WalkContext α σ} {idle : List Nat} {resources own : Resources α}
    {i : Instruction α} {index : Nat} {form : Form α} {content : List (Instruction α)}
    (h : turn c idle resources i = .enter index form own content) :
    index ∈ idle ∧ c.model.catalog.forms[index]? = some form
      ∧ contentOf c form = some (.ok content)
      ∧ own = (form.resources.map c.model.catalog.resourcesAt).getD resources := by
  unfold turn at h
  split at h
  · split at h <;> cases h
  · split at h
    · cases h
    next hform =>
      split at h
      next hidle =>
        split at h
        · cases h
        · cases h
        next hcontent =>
          cases h
          exact ⟨hidle, hform, hcontent, rfl⟩
      · cases h

theorem mem_of_turn_enter {c : WalkContext α σ} {idle : List Nat} {resources own : Resources α}
    {i : Instruction α} {index : Nat} {form : Form α} {content : List (Instruction α)}
    (h : turn c idle resources i = .enter index form own content) : index ∈ idle :=
  (of_turn_enter h).1

/-- The content of a form has resources of its own, or those of where the form is drawn. -/
theorem own_of_turn_enter {c : WalkContext α σ} {idle : List Nat} {resources own : Resources α}
    {i : Instruction α} {index : Nat} {form : Form α} {content : List (Instruction α)}
    (h : turn c idle resources i = .enter index form own content) {R : Resources α → Prop}
    (hresources : R resources) (hforms : ∀ index, R (c.model.catalog.resourcesAt index)) :
    R own := by
  obtain ⟨-, -, -, rfl⟩ := of_turn_enter h
  cases form.resources with
  | none => exact hresources
  | some index => exact hforms index

theorem form?_of_turn_enter {c : WalkContext α σ} {idle : List Nat} {resources own : Resources α}
    {i : Instruction α} {index : Nat} {form : Form α} {content : List (Instruction α)}
    (h : turn c idle resources i = .enter index form own content) :
    form? c resources i = some index := by
  unfold turn at h
  split at h
  · split at h <;> cases h
  next hform =>
    split at h
    · cases h
    · split at h
      · split at h <;> cases h
        exact hform
      · cases h

/-- A form that is drawn is listed in the resources of where that is. -/
theorem object?_of_form? {c : WalkContext α σ} {resources : Resources α} {i : Instruction α}
    {index : Nat} (h : form? c resources i = some index) :
    ∃ name, resources.object? name = some (.form index) := by
  unfold form? at h
  split at h
  · split at h
    · split at h
      next hobject =>
        cases h
        obtain ⟨name, -, hname⟩ := Option.bind_eq_some_iff.mp hobject
        exact ⟨name, hname⟩
      · cases h
    · cases h
  · cases h

/-- Only one operator draws forms. -/
theorem ofName?_of_turn_unreadable {c : WalkContext α σ} {idle : List Nat}
    {resources : Resources α} {i : Instruction α} {form : Form α} {fault : Fault}
    (h : turn c idle resources i = .unreadable form fault) :
    Verb.ofName? i.operator = some .drawObject := by
  refine Decidable.byContradiction fun hne => ?_
  have hnone : form? c resources i = none := if_neg hne
  rw [turn, hnone] at h
  simp only at h
  split at h <;> cases h

theorem of_turn_unreadable {c : WalkContext α σ} {idle : List Nat} {resources : Resources α}
    {i : Instruction α} {form : Form α} {fault : Fault}
    (h : turn c idle resources i = .unreadable form fault) :
    ∃ index : Nat, c.model.catalog.forms[index]? = some form
      ∧ contentOf c form = some (.error fault) := by
  unfold turn at h
  split at h
  · split at h <;> cases h
  next index _ =>
    split at h
    · cases h
    next hform =>
      split at h
      · split at h
        · cases h
        next hcontent =>
          cases h
          exact ⟨index, hform, hcontent⟩
        · cases h
      · cases h

/-- What holds of a content follows from what holds of the forms that it enters, with one idle form
less, and of its rest. -/
@[elab_as_elim]
theorem walk_induction {c : WalkContext α σ}
    {motive : List Nat → Resources α → List (Instruction α) → Prop}
    (nil : ∀ idle resources, motive idle resources [])
    (cons : ∀ idle resources i rest,
      (∀ index form own content, turn c idle resources i = .enter index form own content →
        motive (idle.erase index) own content) →
      motive idle resources rest → motive idle resources (i :: rest)) :
    ∀ idle resources is, motive idle resources is
  | idle, resources, [] => nil idle resources
  | idle, resources, i :: rest =>
    cons idle resources i rest (fun _ _ own content _ => walk_induction nil cons _ own content)
      (walk_induction nil cons idle resources rest)
termination_by idle _ is => (idle.length, is.length)
decreasing_by
  -- The same measure as that of the walk.
  · have hidle := mem_of_turn_enter ‹_›
    have := List.length_erase_of_mem hidle
    have := List.length_pos_of_mem hidle
    exact Prod.Lex.left _ _ (by omega)
  · exact Prod.Lex.right _ (by simp)

omit [Scalar α] in
theorem run_skipMalformed (act : Act (Walker α σ) Unit) (w : Walker α σ) :
    (skipMalformed act).run w = match act.run w with
      | (.ok (), w') => (.ok (), w')
      | (.error e, w') => if e.isMalformed then (.ok (), w') else (.error e, w') := by
  rw [skipMalformed, Act.run_tryCatch]
  rcases act.run w with ⟨e | _, w'⟩
  · show Act.run (if e.isMalformed then pure () else throw e) w' = _
    rw [Act.run_ite]
    rfl
  · rfl

/-- A walker in the user space of a form. -/
def inside (form : Form α) (w : Walker α σ) : Walker α σ :=
  { w with graphics := { w.graphics with ctm := w.graphics.ctm.concatenate form.matrix } }

/-- A walker behind a form: `w` stood in front of it and `w'` is what has become of it inside. -/
def behind (w w' : Walker α σ) : Walker α σ :=
  { w' with graphics := w.graphics, textMatrix := w.textMatrix, lineMatrix := w.lineMatrix }

/-- Behind a form, only the stack and the listener are as the form has left them. -/
theorem run_withinForm (form : Form α) (act : Act (Walker α σ) Unit) (w : Walker α σ) :
    (withinForm form act).run w
      = ((act.run (w.inside form)).1, w.behind (act.run (w.inside form)).2) := by
  rw [withinForm, Act.run_bind_ok (Act.run_get w), change, Act.run_bind_ok (Act.run_modify _ w),
    Act.run_ensuring act _ (Act.run_modify _ _)]
  rfl

/-- A walk goes on from where an instruction ends, malformed or not. -/
theorem run_walk_cons_of_goesOn {c : WalkContext α σ} {idle : List Nat} {resources : Resources α}
    {i : Instruction α} {w : Walker α σ} (h : GoesOn ((carryOut c idle resources i).run w).1)
    (rest : List (Instruction α)) :
    (walk c idle resources (i :: rest)).run w
      = (walk c idle resources rest).run ((carryOut c idle resources i).run w).2 := by
  rw [walk_cons, Act.run_bind, run_skipMalformed]
  -- A malformed instruction counts as carried out: what it changed stays.
  rcases hrun : (carryOut c idle resources i).run w with ⟨e | _, w'⟩
  · rw [hrun] at h
    simp only [goesOn_error_iff.mp h, if_true]
  · rfl

/-- Any other fault ends the walk where it stands. -/
theorem run_walk_cons_of_not_goesOn {c : WalkContext α σ} {idle : List Nat}
    {resources : Resources α} {i : Instruction α} {w : Walker α σ}
    (h : ¬ GoesOn ((carryOut c idle resources i).run w).1) (rest : List (Instruction α)) :
    (walk c idle resources (i :: rest)).run w = (carryOut c idle resources i).run w := by
  rw [walk_cons, Act.run_bind, run_skipMalformed]
  rcases hrun : (carryOut c idle resources i).run w with ⟨e | _, w'⟩
  · rw [hrun] at h
    have he : e.isMalformed = false := Bool.eq_false_iff.mpr fun he => h (goesOn_error_iff.mpr he)
    simp only [he, Bool.false_eq_true, if_false]
  · rw [hrun] at h
    exact absurd (goesOn_ok _) h

theorem run_walk_cons_of_ok {c : WalkContext α σ} {idle : List Nat} {resources : Resources α}
    {i : Instruction α} {rest : List (Instruction α)} {w w' : Walker α σ}
    {answer : Except Fault Unit} (hrun : (carryOut c idle resources i).run w = (answer, w'))
    (hgoes : GoesOn answer) :
    (walk c idle resources (i :: rest)).run w = (walk c idle resources rest).run w' := by
  rw [run_walk_cons_of_goesOn (by rw [hrun]; exact hgoes), hrun]

theorem run_walk_cons_of_error {c : WalkContext α σ} {idle : List Nat} {resources : Resources α}
    {i : Instruction α} {rest : List (Instruction α)} {w w' : Walker α σ}
    {answer : Except Fault Unit} (hrun : (carryOut c idle resources i).run w = (answer, w'))
    (hfails : ¬ GoesOn answer) :
    (walk c idle resources (i :: rest)).run w = (answer, w') := by
  rw [run_walk_cons_of_not_goesOn (by rw [hrun]; exact hfails), hrun]

/-- No malformed operator ends a walk. -/
theorem not_isMalformed_of_walk {c : WalkContext α σ} {idle : List Nat} {resources : Resources α}
    {is : List (Instruction α)} {w w' : Walker α σ} {e : Fault}
    (h : (walk c idle resources is).run w = (.error e, w')) : e.isMalformed = false := by
  induction is generalizing w with
  | nil =>
    rw [walk_nil] at h
    cases h
  | cons i rest ih =>
    by_cases hgoes : GoesOn ((carryOut c idle resources i).run w).1
    · rw [run_walk_cons_of_goesOn hgoes] at h
      exact ih h
    · rw [run_walk_cons_of_not_goesOn hgoes] at h
      rw [h] at hgoes
      exact Bool.eq_false_iff.mpr fun he => hgoes (goesOn_error_iff.mpr he)

/-- So a walk that can be gone on from has come to its end. -/
theorem goesOn_walk_iff {c : WalkContext α σ} {idle : List Nat} {resources : Resources α}
    {is : List (Instruction α)} {w : Walker α σ} :
    GoesOn ((walk c idle resources is).run w).1 ↔ ((walk c idle resources is).run w).1 = .ok () := by
  rcases hrun : (walk c idle resources is).run w with ⟨e | _, w'⟩
  · have hfatal := not_isMalformed_of_walk hrun
    constructor
    · intro h
      rw [goesOn_error_iff.mp h] at hfatal
      cases hfatal
    · intro h
      cases h
  · exact ⟨fun _ => rfl, fun _ => goesOn_ok _⟩

theorem showItems_append (c : WalkContext α σ) (xs ys : List (Object α)) :
    showItems c (xs ++ ys) = showItems c xs >>= fun _ => showItems c ys := by
  induction xs with
  | nil => rw [showItems, pure_bind]; rfl
  | cons x xs ih => cases x <;> simp only [List.cons_append, showItems, ih, bind_assoc]

/-! ## What operators keep

An operator other than a save or a restore keeps every property that does not look at the graphics
state and the text matrices, if events keep it. -/

section

variable {c : WalkContext α σ} {P : Walker α σ → Prop} {R : Resources α → Prop}

/-- The property does not look at the graphics state and the text matrices, and what is sent to the
listener keeps it, as long as it comes with resources that have the property `R`. -/
structure SurvivesDrawing (c : WalkContext α σ) (P : Walker α σ → Prop)
    (R : Resources α → Prop := fun _ => True) : Prop where
  graphics : ∀ w graphics textMatrix lineMatrix, P w → P { w with graphics, textMatrix, lineMatrix }
  glyph : ∀ g, (send c (.glyph g)).Keeps P
  operator : ∀ op, (∀ r ∈ op.resources, R r) → (send c (.operator op)).Keeps P

omit [Scalar α] in
theorem keeps_change (h : SurvivesDrawing c P R) (f : Graphics α → Graphics α) :
    (change f).Keeps P := .modify fun w hw => h.graphics w _ _ _ hw

theorem keeps_nextLine (h : SurvivesDrawing c P R) (x y : α) : (nextLine x y).Keeps P :=
  .modify fun w hw => h.graphics w _ _ _ hw

theorem keeps_advance (h : SurvivesDrawing c P R) (x : α) : (advance x).Keeps P :=
  .modify fun w hw => h.graphics w _ _ _ hw

theorem keeps_one (operands : List (Object α)) : (one c operands).Keeps P := by
  refine .bind (.ofExcept _) fun values => ?_
  split
  · exact .pure _
  · exact .throw _

theorem keeps_two (operands : List (Object α)) : (two c operands).Keeps P := by
  refine .bind (.ofExcept _) fun values => ?_
  split
  · exact .pure _
  · exact .throw _

theorem keeps_six (operands : List (Object α)) : (six c operands).Keeps P := by
  refine .bind (.ofExcept _) fun values => ?_
  split
  · exact .pure _
  · exact .throw _

omit [Scalar α] in
theorem keeps_operand (operands : List (Object α)) (n : Nat) : (operand operands n).Keeps P := by
  unfold operand
  split
  · exact .pure _
  · exact .throw _

theorem keeps_textOperand (operands : List (Object α)) (n : Nat) :
    (textOperand c operands n).Keeps P :=
  .bind (keeps_operand _ _) fun _ => .ofExcept _

omit [Scalar α] in
theorem keeps_sendOperator (h : SurvivesDrawing c P R) {resources : Resources α}
    (hresources : R resources) (i : Instruction α) : (sendOperator c resources i).Keeps P := by
  refine .bind .get fun _ => h.operator _ fun r hr => ?_
  cases hr
  exact hresources

theorem keeps_showCodes (h : SurvivesDrawing c P R) (g : Graphics α)
    (decoder : Decoder α) (codes : List Bytes) : (showCodes c g decoder codes).Keeps P := by
  induction codes with
  | nil => exact .pure _
  | cons code codes ih =>
    rw [showCodes]
    refine .bind (.ofExcept _) fun s => ?_
    split
    · exact .bind .get fun _ => .bind (h.glyph _) fun _ => .bind (keeps_advance h _) fun _ => ih
    · exact .bind (keeps_advance h _) fun _ => ih

theorem keeps_showString (h : SurvivesDrawing c P R)
    (value : Object α) : (showString c value).Keeps P := by
  refine .bind .get fun w => ?_
  extract_lets g
  split
  · exact .pure _
  · exact .bind (.ofExcept _) fun _ => keeps_showCodes h _ _ _

theorem keeps_showItems (h : SurvivesDrawing c P R)
    (items : List (Object α)) : (showItems c items).Keeps P := by
  induction items with
  | nil => exact .pure _
  | cons item items ih =>
    unfold showItems
    split
    · exact .bind (keeps_showString h _) fun _ => ih
    · exact .bind (keeps_showString h _) fun _ => ih
    · exact .bind .get fun _ => .bind (.ofExcept _) fun _ => .bind (keeps_advance h _) fun _ => ih

theorem keeps_perform (h : SurvivesDrawing c P R) {resources : Resources α}
    (hresources : R resources) (i : Instruction α) {verb : Verb}
    (hstack : verb = .save ∨ verb = .restore → (perform c resources i verb).Keeps P) :
    (perform c resources i verb).Keeps P := by
  cases verb with
  | save => exact hstack (.inl rfl)
  | restore => exact hstack (.inr rfl)
  | concatenate => exact .bind (keeps_six _) fun _ => keeps_change h _
  | lineWidth | charSpacing | wordSpacing | scaling | leading | rise =>
    exact .bind (keeps_one _) fun _ => keeps_change h _
  | beginText => exact .modify fun w hw => h.graphics w _ _ _ hw
  | selectFont =>
    exact .bind (keeps_textOperand _ _) fun _ => .bind (keeps_change h _) fun _ =>
      .bind (keeps_operand _ _) fun _ => .bind (.ofExcept _) fun _ => keeps_change h _
  | moveText => exact .bind (keeps_two _) fun _ => keeps_nextLine h _ _
  | moveTextLeading =>
    exact .bind (keeps_two _) fun _ => .bind (keeps_change h _) fun _ => keeps_nextLine h _ _
  | textMatrix => exact .bind (keeps_six _) fun _ => .modify fun w hw => h.graphics w _ _ _ hw
  | nextLine => exact .bind .get fun _ => keeps_nextLine h _ _
  | «show» => exact .bind (keeps_operand _ _) fun _ => keeps_showString h _
  | showArray =>
    exact .bind (keeps_operand _ _) fun _ => .bind (.ofExcept _) fun _ => keeps_showItems h _
  | nextLineShow =>
    exact .bind .get fun _ => .bind (keeps_nextLine h _ _) fun _ =>
      .bind (keeps_operand _ _) fun _ => keeps_showString h _
  | spacedShow =>
    exact .bind (keeps_two _) fun _ => .bind (keeps_change h _) fun _ => .bind .get fun _ =>
      .bind (keeps_nextLine h _ _) fun _ => .bind (keeps_operand _ _) fun _ =>
        keeps_showString h _
  | path => exact keeps_sendOperator h hresources _
  | drawObject =>
    refine .bind (keeps_textOperand _ _) fun name => ?_
    split
    · exact keeps_sendOperator h hresources _
    · exact .pure _

end

/-! ## What listeners keep -/

/-- Whatever a walk tells the listener keeps the property of its state, as long as operators come
with resources that have the property `R`. -/
structure KeepsDrawing (l : Listener α σ) (P : σ → Prop)
    (R : Resources α → Prop := fun _ => True) : Prop where
  glyph : ∀ g, (l.receive (.glyph g)).Keeps P
  operator : ∀ op, (∀ r ∈ op.resources, R r) → (l.receive (.operator op)).Keeps P
  report : ∀ r s, P s → P (l.report r s)

section

variable {c : WalkContext α σ} {P : σ → Prop} {R : Resources α → Prop}

omit [Scalar α] in
theorem KeepsDrawing.survivesDrawing (h : KeepsDrawing c.listener P R) :
    SurvivesDrawing c (fun w => P w.listener) R where
  graphics _ _ _ _ hw := hw
  glyph g w hw := h.glyph g w.listener hw
  operator op hop w hw := h.operator op hop w.listener hw

theorem keeps_withinForm_listener (form : Form α) {act : Act (Walker α σ) Unit}
    (hact : act.Keeps fun w => P w.listener) :
    (withinForm form act).Keeps fun w => P w.listener :=
  .bind .get fun _ => .bind (.modify fun _ hw => hw) fun _ =>
    .ensuring hact (.modify fun _ hw => hw)

/-- A walk sends its operators with its own resources or with those of forms. -/
theorem keeps_walk_listener (h : KeepsDrawing c.listener P R)
    (hforms : ∀ index, R (c.model.catalog.resourcesAt index)) (idle : List Nat)
    (resources : Resources α) (is : List (Instruction α)) :
    R resources → (walk c idle resources is).Keeps fun w => P w.listener := by
  induction idle, resources, is using walk_induction (c := c) with
  | nil idle resources =>
    intro _
    rw [walk_nil]
    exact .pure _
  | cons idle resources i rest ihwithin ihrest =>
    intro hresources
    have hfirst : (carryOut c idle resources i).Keeps fun w => P w.listener := by
      unfold carryOut
      cases hturn : turn c idle resources i with
      | ignored => exact .pure _
      | operator verb =>
        refine keeps_perform h.survivesDrawing hresources i ?_
        rintro (rfl | rfl)
        · exact .modify fun _ hw => hw
        · refine .bind .get fun w => ?_
          split
          · exact .pure _
          · exact .modify fun _ hw => hw
      | enter index form own content =>
        exact keeps_withinForm_listener form
          (ihwithin index form own content hturn (own_of_turn_enter hturn hresources hforms))
      | unreadable form fault => exact keeps_withinForm_listener form (.throw _)
      | recursive form => exact .modify fun w hw => h.report _ _ hw
    rw [walk_cons]
    refine .bind (.tryCatch hfirst fun e => ?_) fun _ => ihrest hresources
    split
    · exact .pure _
    · exact .throw _

end

end Folio.Pdf.Walker
