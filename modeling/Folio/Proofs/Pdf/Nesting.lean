import Folio.Proofs.Pdf.Walk
import Mathlib.Data.Finset.Card
import Mathlib.Data.List.Nodup

/-!
# Forms within forms

Forms may draw each other in any way, so whoever walks through them has to know which ones are being
walked. The walk is given the others, the idle ones, and hands fewer of them on to the content of a
form. Here the forms that are being walked are part of the state instead (`Stand`): a form is put
among them when its content is entered and taken from them behind it, whether the content was walked
to its end or not. `Walks` says, rule by rule, what becomes of a content and which marks the forms
in it leave behind.

Every content can be walked in that way, with one outcome, which is that of the walk
(`exists_walks`, `Walks.unique`), so the rules never go round in circles. Behind a content the same
forms are being walked as in front of it (`Walks.active_eq`). What the marks say is read with a
stack (`Nested`): a form is entered only while it is not open, so there are never more open forms
than there are forms.
-/

namespace Folio.Pdf.Walker

open Act (GoesOn goesOn_ok goesOn_error_iff)

variable {α σ : Type}

/-- A walker and the forms that are being walked around it. -/
@[ext]
structure Stand (α σ : Type) where
  walker : Walker α σ
  active : Finset Nat

/-- What happens to a form on the way. -/
inductive Mark
  | entered (index : Nat)
  | left (index : Nat)
  /-- The form was drawn while it was being walked. -/
  | refused (index : Nat)

namespace Stand

variable [Scalar α]

/-- In front of the content of a form. -/
def enter (s : Stand α σ) (index : Nat) (form : Form α) : Stand α σ :=
  ⟨s.walker.inside form, insert index s.active⟩

/-- Behind a form: `s` stood in front of it and `u` is what has become of it inside. -/
def leave (s : Stand α σ) (index : Nat) (u : Stand α σ) : Stand α σ :=
  ⟨s.walker.behind u.walker, u.active.erase index⟩

/-- One report later. -/
def warned (s : Stand α σ) (c : WalkContext α σ) (form : Form α) : Stand α σ :=
  { s with walker :=
    { s.walker with listener := c.listener.report (recursionReport form.name) s.walker.listener } }

/-- Behind a form whose content has left the open forms as they were, they are those from in front
of it. -/
theorem active_leave {s u : Stand α σ} {index : Nat} {form : Form α}
    (hu : u.active = (s.enter index form).active) (hidle : index ∉ s.active) :
    (s.leave index u).active = s.active := by
  rw [leave, hu]
  exact Finset.erase_insert hidle

end Stand

variable [Scalar α]

/-- What an instruction that draws no form does. -/
def performOwn (c : WalkContext α σ) (resources : Resources α) (i : Instruction α) :
    Act (Walker α σ) Unit :=
  match Verb.ofName? i.operator with
  | some verb => perform c resources i verb
  | none => pure ()

/-- The resources with which the content of a form is walked. -/
def resourcesWithin (c : WalkContext α σ) (resources : Resources α) (form : Form α) :
    Resources α :=
  (form.resources.map c.model.catalog.resourcesAt).getD resources

/-- Walking through instructions from a stand gives the answer, leads to another stand and leaves
the marks. What fails as a malformed operator does is passed over. -/
inductive Walks (c : WalkContext α σ) : Resources α → List (Instruction α) → Stand α σ →
    Except Fault Unit → Stand α σ → List Mark → Prop
  | done {resources : Resources α} {s : Stand α σ} : Walks c resources [] s (.ok ()) s []
  | perform {resources : Resources α} {i : Instruction α} {rest : List (Instruction α)}
    {s t : Stand α σ} {answer : Except Fault Unit} {marks : List Mark}
    (hform : form? c resources i = none)
    (hgoes : GoesOn ((performOwn c resources i).run s.walker).1)
    (hrest : Walks c resources rest ⟨((performOwn c resources i).run s.walker).2, s.active⟩ answer t
      marks) :
    Walks c resources (i :: rest) s answer t marks
  | stop {resources : Resources α} {i : Instruction α} {rest : List (Instruction α)} {s : Stand α σ}
    (hform : form? c resources i = none)
    (hfails : ¬ GoesOn ((performOwn c resources i).run s.walker).1) :
    Walks c resources (i :: rest) s ((performOwn c resources i).run s.walker).1
      ⟨((performOwn c resources i).run s.walker).2, s.active⟩ []
  /-- A form that is being walked is reported and nothing else. -/
  | refuse {resources : Resources α} {i : Instruction α} {rest : List (Instruction α)}
    {s t : Stand α σ} {answer : Except Fault Unit} {marks : List Mark} {index : Nat} {form : Form α}
    (hform : form? c resources i = some index)
    (hget : c.model.catalog.forms[index]? = some form) (hactive : index ∈ s.active)
    (hrest : Walks c resources rest (s.warned c form) answer t marks) :
    Walks c resources (i :: rest) s answer t (.refused index :: marks)
  /-- There is nothing to walk. -/
  | pass {resources : Resources α} {i : Instruction α} {rest : List (Instruction α)}
    {s t : Stand α σ} {answer : Except Fault Unit} {marks : List Mark} {index : Nat}
    (hform : form? c resources i = some index)
    (hempty : ∀ form, c.model.catalog.forms[index]? = some form →
      index ∉ s.active ∧ contentOf c form = none)
    (hrest : Walks c resources rest s answer t marks) :
    Walks c resources (i :: rest) s answer t marks
  /-- The form cannot be read, which makes the operator a malformed one. -/
  | skip {resources : Resources α} {i : Instruction α} {rest : List (Instruction α)}
    {s t : Stand α σ} {answer : Except Fault Unit} {marks : List Mark} {index : Nat} {form : Form α}
    {fault : Fault}
    (hform : form? c resources i = some index)
    (hget : c.model.catalog.forms[index]? = some form) (hidle : index ∉ s.active)
    (hcontent : contentOf c form = some (.error fault))
    (hgoes : GoesOn (.error fault : Except Fault Unit))
    (hrest : Walks c resources rest (s.leave index (s.enter index form)) answer t marks) :
    Walks c resources (i :: rest) s answer t (.entered index :: .left index :: marks)
  | unreadable {resources : Resources α} {i : Instruction α} {rest : List (Instruction α)}
    {s : Stand α σ} {index : Nat} {form : Form α} {fault : Fault}
    (hform : form? c resources i = some index)
    (hget : c.model.catalog.forms[index]? = some form) (hidle : index ∉ s.active)
    (hcontent : contentOf c form = some (.error fault))
    (hfails : ¬ GoesOn (.error fault : Except Fault Unit)) :
    Walks c resources (i :: rest) s (.error fault)
      (s.leave index (s.enter index form)) [.entered index, .left index]
  | enter {resources : Resources α} {i : Instruction α} {rest content : List (Instruction α)}
    {s t u : Stand α σ} {within answer : Except Fault Unit} {inner marks : List Mark} {index : Nat}
    {form : Form α}
    (hform : form? c resources i = some index)
    (hget : c.model.catalog.forms[index]? = some form) (hidle : index ∉ s.active)
    (hcontent : contentOf c form = some (.ok content))
    (hwithin : Walks c (resourcesWithin c resources form) content (s.enter index form) within u
      inner)
    (hgoes : GoesOn within)
    (hrest : Walks c resources rest (s.leave index u) answer t marks) :
    Walks c resources (i :: rest) s answer t (.entered index :: (inner ++ .left index :: marks))
  /-- The content of the form cannot be walked to its end. -/
  | cut {resources : Resources α} {i : Instruction α} {rest content : List (Instruction α)}
    {s u : Stand α σ} {within : Except Fault Unit} {inner : List Mark} {index : Nat} {form : Form α}
    (hform : form? c resources i = some index)
    (hget : c.model.catalog.forms[index]? = some form) (hidle : index ∉ s.active)
    (hcontent : contentOf c form = some (.ok content))
    (hwithin : Walks c (resourcesWithin c resources form) content (s.enter index form) within u
      inner)
    (hfails : ¬ GoesOn within) :
    Walks c resources (i :: rest) s within (s.leave index u)
      (.entered index :: (inner ++ [.left index]))

variable {c : WalkContext α σ} {resources : Resources α} {is : List (Instruction α)}
  {s t : Stand α σ} {answer : Except Fault Unit} {marks : List Mark}

/-! ## Which forms are being walked -/

/-- Behind a content the same forms are being walked as in front of it, whatever has happened. -/
theorem Walks.active_eq (h : Walks c resources is s answer t marks) : t.active = s.active := by
  induction h with
  | done => rfl
  | perform _ _ _ ih => exact ih
  | stop _ _ => rfl
  | refuse _ _ _ _ ih => exact ih
  | pass _ _ _ ih => exact ih
  | skip _ _ hidle _ _ _ ih => exact ih.trans (Stand.active_leave rfl hidle)
  | unreadable _ _ hidle _ _ => exact Stand.active_leave rfl hidle
  | enter _ _ hidle _ _ _ _ ihwithin ihrest =>
    exact ihrest.trans (Stand.active_leave ihwithin hidle)
  | cut _ _ hidle _ _ _ ihwithin => exact Stand.active_leave ihwithin hidle

/-- The forms that are not being walked. -/
def idleBeside (c : WalkContext α σ) (active : Finset Nat) : List Nat :=
  (List.range c.model.catalog.forms.size).filter (· ∉ active)

omit [Scalar α] in
theorem mem_idleBeside {active : Finset Nat} {index : Nat} :
    index ∈ idleBeside c active ↔ index < c.model.catalog.forms.size ∧ index ∉ active := by
  rw [idleBeside, List.mem_filter, List.mem_range, decide_eq_true_iff]

omit [Scalar α] in
/-- In front of a page no form is being walked. -/
theorem idleBeside_empty : idleBeside c ∅ = List.range c.model.catalog.forms.size :=
  List.filter_eq_self.mpr fun _ _ => decide_eq_true (Finset.notMem_empty _)

omit [Scalar α] in
/-- A form that is entered is idle no more. -/
theorem erase_idleBeside (active : Finset Nat) (index : Nat) :
    (idleBeside c active).erase index = idleBeside c (insert index active) := by
  rw [idleBeside, idleBeside, (List.nodup_range.filter _).erase_eq_filter, List.filter_filter]
  refine List.filter_congr fun j _ => ?_
  rw [Bool.eq_iff_iff, Bool.and_eq_true, bne_iff_ne, decide_eq_true_iff, decide_eq_true_iff,
    Finset.mem_insert, not_or]

omit [Scalar α] in
theorem mem_idleBeside_of_getElem? {index : Nat} {form : Form α} {active : Finset Nat}
    (hget : c.model.catalog.forms[index]? = some form) :
    index ∈ idleBeside c active ↔ index ∉ active := by
  rw [mem_idleBeside]
  exact ⟨And.right, fun h => ⟨(Array.getElem?_eq_some_iff.mp hget).1, h⟩⟩

/-! ## What an instruction comes to

The forms that are being walked are those of a stand. -/

section

variable {i : Instruction α} {index : Nat} {form : Form α}

theorem carryOut_of_no_form {idle : List Nat} (hform : form? c resources i = none) :
    carryOut c idle resources i = performOwn c resources i := by
  rw [carryOut, turn, hform, performOwn]
  cases Verb.ofName? i.operator <;> rfl

theorem run_carryOut_of_active (hform : form? c resources i = some index)
    (hget : c.model.catalog.forms[index]? = some form) (hactive : index ∈ s.active) :
    (carryOut c (idleBeside c s.active) resources i).run s.walker
      = (.ok (), (s.warned c form).walker) := by
  have hbusy : index ∉ idleBeside c s.active :=
    fun h => (mem_idleBeside_of_getElem? hget).mp h hactive
  rw [carryOut, turn, hform]
  simp only [hget, if_neg hbusy]
  rfl

theorem run_carryOut_of_no_content (hform : form? c resources i = some index)
    (hempty : ∀ form, c.model.catalog.forms[index]? = some form →
      index ∉ s.active ∧ contentOf c form = none) :
    (carryOut c (idleBeside c s.active) resources i).run s.walker = (.ok (), s.walker) := by
  rw [carryOut, turn, hform]
  cases hget : c.model.catalog.forms[index]? with
  | none => simp only [hget, Act.run_pure]
  | some form =>
    obtain ⟨hidle, hcontent⟩ := hempty form hget
    simp only [hget, hcontent, if_pos ((mem_idleBeside_of_getElem? hget).mpr hidle), Act.run_pure]

theorem run_carryOut_of_unreadable {fault : Fault} (hform : form? c resources i = some index)
    (hget : c.model.catalog.forms[index]? = some form) (hidle : index ∉ s.active)
    (hcontent : contentOf c form = some (.error fault)) :
    (carryOut c (idleBeside c s.active) resources i).run s.walker
      = (.error fault, (s.leave index (s.enter index form)).walker) := by
  rw [carryOut, turn, hform]
  simp only [hget, hcontent, if_pos ((mem_idleBeside_of_getElem? hget).mpr hidle), run_withinForm,
    Act.run_throw]
  rfl

theorem turn_of_readable {idle : List Nat} {content : List (Instruction α)}
    (hform : form? c resources i = some index)
    (hget : c.model.catalog.forms[index]? = some form) (hidle : index ∈ idle)
    (hcontent : contentOf c form = some (.ok content)) :
    turn c idle resources i = .enter index form (resourcesWithin c resources form) content := by
  rw [turn, hform]
  simp only [hget, hcontent, if_pos hidle]
  rfl

/-- A form that is not being walked is walked from its first instruction to its last. -/
theorem run_carryOut_of_readable {content : List (Instruction α)}
    (hform : form? c resources i = some index)
    (hget : c.model.catalog.forms[index]? = some form) (hidle : index ∉ s.active)
    (hcontent : contentOf c form = some (.ok content)) {within : Except Fault Unit}
    {u : Walker α σ}
    (hwithin : (walk c (idleBeside c (insert index s.active)) (resourcesWithin c resources form)
      content).run (s.walker.inside form) = (within, u)) :
    (carryOut c (idleBeside c s.active) resources i).run s.walker
      = (within, s.walker.behind u) := by
  rw [carryOut, turn_of_readable hform hget ((mem_idleBeside_of_getElem? hget).mpr hidle) hcontent]
  rw [← erase_idleBeside] at hwithin
  simp only [run_withinForm, hwithin]

end

/-! ## The rules and the walk -/

/-- What the rules say of a content, the walk does. -/
theorem Walks.run_walk (h : Walks c resources is s answer t marks) :
    (walk c (idleBeside c s.active) resources is).run s.walker = (answer, t.walker) := by
  induction h with
  | done => rw [walk_nil, Act.run_pure]
  | perform hform hgoes _ ih =>
    rw [run_walk_cons_of_ok (by rw [carryOut_of_no_form hform]) hgoes]
    exact ih
  | stop hform hfails =>
    rw [run_walk_cons_of_error (by rw [carryOut_of_no_form hform]) hfails]
  | refuse hform hget hactive _ ih =>
    rw [run_walk_cons_of_ok (run_carryOut_of_active hform hget hactive) (goesOn_ok _)]
    exact ih
  | pass hform hempty _ ih =>
    rw [run_walk_cons_of_ok (run_carryOut_of_no_content hform hempty) (goesOn_ok _)]
    exact ih
  | @skip _ _ _ s _ _ _ index form _ hform hget hidle hcontent hgoes _ ih =>
    rw [run_walk_cons_of_ok (run_carryOut_of_unreadable hform hget hidle hcontent) hgoes]
    rw [Stand.active_leave (u := s.enter index form) rfl hidle] at ih
    exact ih
  | unreadable hform hget hidle hcontent hfails =>
    exact run_walk_cons_of_error (run_carryOut_of_unreadable hform hget hidle hcontent) hfails
  | enter hform hget hidle hcontent hwalks hgoes _ ihwithin ihrest =>
    rw [run_walk_cons_of_ok (run_carryOut_of_readable hform hget hidle hcontent ihwithin) hgoes]
    -- Behind the form the same forms are idle as in front of it.
    rw [Stand.active_leave hwalks.active_eq hidle] at ihrest
    exact ihrest
  | cut hform hget hidle hcontent _ hfails ihwithin =>
    exact run_walk_cons_of_error (run_carryOut_of_readable hform hget hidle hcontent ihwithin)
      hfails

/-- Every content can be walked by the rules, from every stand. -/
theorem exists_walks (idle : List Nat) (resources : Resources α) (is : List (Instruction α)) :
    ∀ s : Stand α σ, idle = idleBeside c s.active →
      ∃ answer t marks, Walks c resources is s answer t marks := by
  induction idle, resources, is using walk_induction (c := c) with
  | nil idle resources => exact fun s _ => ⟨_, _, _, .done⟩
  | cons idle resources i rest ihwithin ihrest =>
    intro s hs
    cases hform : form? c resources i with
    | none =>
      by_cases hgoes : GoesOn ((performOwn c resources i).run s.walker).1
      · obtain ⟨answer, t, marks, hrest⟩ := ihrest
          ⟨((performOwn c resources i).run s.walker).2, s.active⟩ hs
        exact ⟨answer, t, marks, .perform hform hgoes hrest⟩
      · exact ⟨_, _, _, .stop hform hgoes⟩
    | some index =>
      obtain ⟨answer, t, marks, hpassed⟩ := ihrest s hs
      cases hget : c.model.catalog.forms[index]? with
      | none =>
        refine ⟨answer, t, marks, .pass hform (fun form h => ?_) hpassed⟩
        rw [hget] at h
        cases h
      | some form =>
        by_cases hactive : index ∈ s.active
        · obtain ⟨answer, t, marks, hrest⟩ := ihrest (s.warned c form) hs
          exact ⟨answer, t, _, .refuse hform hget hactive hrest⟩
        · cases hcontent : contentOf c form with
          | none =>
            refine ⟨answer, t, marks, .pass hform (fun other h => ?_) hpassed⟩
            rw [hget] at h
            cases h
            exact ⟨hactive, hcontent⟩
          | some content =>
            cases content with
            | error fault =>
              by_cases hgoes : GoesOn (.error fault : Except Fault Unit)
              · obtain ⟨answer, t, marks, hrest⟩ := ihrest (s.leave index (s.enter index form))
                  (hs.trans (congrArg _ (Stand.active_leave rfl hactive).symm))
                exact ⟨answer, t, _, .skip hform hget hactive hcontent hgoes hrest⟩
              · exact ⟨_, _, _, .unreadable hform hget hactive hcontent hgoes⟩
            | ok content =>
              have hidle : index ∈ idle := hs ▸ (mem_idleBeside_of_getElem? hget).mpr hactive
              obtain ⟨within, u, inner, hwithin⟩ := ihwithin index form _ content
                (turn_of_readable hform hget hidle hcontent) (s.enter index form)
                (hs ▸ erase_idleBeside s.active index)
              by_cases hgoes : GoesOn within
              · obtain ⟨answer, t, marks, hrest⟩ := ihrest (s.leave index u)
                  (hs.trans (congrArg _ (Stand.active_leave hwithin.active_eq hactive).symm))
                exact ⟨answer, t, _, .enter hform hget hactive hcontent hwithin hgoes hrest⟩
              · exact ⟨_, _, _, .cut hform hget hactive hcontent hwithin hgoes⟩

/-! ## Marks -/

/-- The open forms behind a mark, the innermost one first. -/
def Mark.pass (stack : List Nat) : Mark → List Nat
  | .entered index => index :: stack
  | .left _ => stack.tail
  | .refused _ => stack

/-- The forms that are open behind the marks. -/
def opened (marks : List Mark) : List Nat := marks.foldl Mark.pass []

/-- The marks fit those open forms, within others that are being walked: a form is entered when it
is neither open nor being walked, refused when it is, and left when it is the innermost one. -/
def Nested (c : WalkContext α σ) (active : Finset Nat) : List Nat → List Mark → Prop
  | _, [] => True
  | stack, .entered index :: marks =>
    (index < c.model.catalog.forms.size ∧ index ∉ active ∧ index ∉ stack)
      ∧ Nested c active (index :: stack) marks
  | stack, .left index :: marks => stack.head? = some index ∧ Nested c active stack.tail marks
  | stack, .refused index :: marks => (index ∈ active ∨ index ∈ stack) ∧ Nested c active stack marks

/-- The open forms differ from each other and from those others. -/
structure Apart (c : WalkContext α σ) (active : Finset Nat) (stack : List Nat) : Prop where
  nodup : stack.Nodup
  fresh : ∀ index ∈ stack, index < c.model.catalog.forms.size ∧ index ∉ active

omit [Scalar α] in
theorem Apart.length_le {active : Finset Nat} {stack : List Nat} (h : Apart c active stack) :
    stack.length ≤ c.model.catalog.forms.size := by
  have hsubset : stack ⊆ List.range c.model.catalog.forms.size :=
    fun index hindex => List.mem_range.mpr (h.fresh index hindex).1
  have hlength := (h.nodup.subperm hsubset).length_le
  rwa [List.length_range] at hlength

omit [Scalar α] in
theorem Apart.pass {active : Finset Nat} {stack : List Nat} (h : Apart c active stack) {mark : Mark}
    {marks : List Mark} (hmarks : Nested c active stack (mark :: marks)) :
    Apart c active (mark.pass stack) ∧ Nested c active (mark.pass stack) marks := by
  cases mark with
  | entered index =>
    obtain ⟨⟨hindex, hactive, hstack⟩, hrest⟩ := hmarks
    exact ⟨⟨List.nodup_cons.mpr ⟨hstack, h.nodup⟩,
      List.forall_mem_cons.mpr ⟨⟨hindex, hactive⟩, h.fresh⟩⟩, hrest⟩
  | left index =>
    exact ⟨⟨h.nodup.tail, fun j hj => h.fresh j (List.mem_of_mem_tail hj)⟩, hmarks.2⟩
  | refused index => exact ⟨h, hmarks.2⟩

omit [Scalar α] in
/-- The same holds between any two marks. -/
theorem Apart.foldl_pass {active : Finset Nat} {after : List Mark} (before : List Mark) :
    ∀ {stack : List Nat}, Apart c active stack → Nested c active stack (before ++ after) →
      Apart c active (before.foldl Mark.pass stack)
        ∧ Nested c active (before.foldl Mark.pass stack) after := by
  induction before with
  | nil => exact fun h hmarks => ⟨h, hmarks⟩
  | cons mark before ih =>
    intro stack h hmarks
    obtain ⟨hpassed, hrest⟩ := h.pass hmarks
    exact ih hpassed hrest

/-- What the stand knows of the forms that are being walked is what the stack and the forms around
it say. -/
theorem mem_active_enter {active : Finset Nat} {stack : List Nat}
    (hstack : ∀ j, j ∈ s.active ↔ j ∈ active ∨ j ∈ stack) (index : Nat) (form : Form α) :
    ∀ j, j ∈ (s.enter index form).active ↔ j ∈ active ∨ j ∈ index :: stack := by
  intro j
  rw [Stand.enter, Finset.mem_insert, hstack, List.mem_cons]
  exact or_left_comm

omit [Scalar α] in
/-- A form that is not being walked may be entered, and whatever fits inside, it is left again. -/
theorem nested_enter {active : Finset Nat} {stack : List Nat}
    (hstack : ∀ j, j ∈ s.active ↔ j ∈ active ∨ j ∈ stack) {index : Nat} {form : Form α}
    (hget : c.model.catalog.forms[index]? = some form) (hidle : index ∉ s.active)
    {inner later : List Mark}
    (hinner : ∀ later, Nested c active (index :: stack) later →
      Nested c active (index :: stack) (inner ++ later)) (hlater : Nested c active stack later) :
    Nested c active stack (.entered index :: (inner ++ .left index :: later)) := by
  rw [hstack, not_or] at hidle
  exact ⟨⟨(Array.getElem?_eq_some_iff.mp hget).1, hidle⟩, hinner _ ⟨rfl, hlater⟩⟩

/-- The marks of a content fit into what is around it, and leave the open forms as they were. -/
theorem Walks.nested {active : Finset Nat} (h : Walks c resources is s answer t marks) :
    ∀ {stack : List Nat}, (∀ j, j ∈ s.active ↔ j ∈ active ∨ j ∈ stack) →
      ∀ later, Nested c active stack later → Nested c active stack (marks ++ later) := by
  induction h with
  | done => exact fun _ _ hlater => hlater
  | perform _ _ _ ih => exact ih
  | stop _ _ => exact fun _ _ hlater => hlater
  | refuse _ _ hactive _ ih =>
    exact fun hstack later hlater => ⟨(hstack _).mp hactive, ih hstack later hlater⟩
  | pass _ _ _ ih => exact ih
  | skip _ hget hidle _ _ _ ih =>
    intro stack hstack later hlater
    have hbehind := ih (fun j => (Stand.active_leave rfl hidle).symm ▸ hstack j) later hlater
    show Nested c active stack (.entered _ :: ([] ++ .left _ :: (_ ++ later)))
    exact nested_enter hstack hget hidle (fun _ h => h) hbehind
  | unreadable _ hget hidle _ _ =>
    intro stack hstack later hlater
    show Nested c active stack (.entered _ :: ([] ++ .left _ :: later))
    exact nested_enter hstack hget hidle (fun _ h => h) hlater
  | enter _ hget hidle _ hwithin _ _ ihwithin ihrest =>
    intro stack hstack later hlater
    have hactive := Stand.active_leave hwithin.active_eq hidle
    have hbehind := ihrest (fun j => hactive.symm ▸ hstack j) later hlater
    rw [List.cons_append, List.append_assoc, List.cons_append]
    exact nested_enter hstack hget hidle (ihwithin (mem_active_enter hstack _ _)) hbehind
  | cut _ hget hidle _ _ _ ihwithin =>
    intro stack hstack later hlater
    rw [List.cons_append, List.append_assoc]
    exact nested_enter hstack hget hidle (ihwithin (mem_active_enter hstack _ _)) hlater

/-- Behind a content no form is open that was not before it. -/
theorem Walks.opened_eq_nil (h : Walks c resources is s answer t marks) : opened marks = [] := by
  have hpassed : ∀ stack : List Nat, marks.foldl Mark.pass stack = stack := by
    induction h with
    | done => exact fun _ => rfl
    | perform _ _ _ ih => exact ih
    | stop _ _ => exact fun _ => rfl
    | refuse _ _ _ _ ih => exact ih
    | pass _ _ _ ih => exact ih
    | skip _ _ _ _ _ _ ih => exact ih
    | unreadable _ _ _ _ _ => exact fun _ => rfl
    | enter _ _ _ _ _ _ _ ihwithin ihrest =>
      intro stack
      rw [List.foldl_cons, List.foldl_append, Mark.pass, ihwithin]
      exact ihrest stack
    | cut _ _ _ _ _ _ ihwithin =>
      intro stack
      rw [List.foldl_cons, List.foldl_append, Mark.pass, ihwithin]
      rfl
  exact hpassed []

/-- Forms that draw each other, in whatever way, are walked to an end. Every content can be walked
by the rules, and what the rules say of it is what the walk does. Behind it the forms that are being
walked are those from before it, even if it fails. A form is entered only while it is not being
walked, so that no more forms are open than there are, and it is left before the forms around it. A
form that is being walked is reported once where it is drawn, and the walk goes on behind it; any
other is walked in full wherever it is drawn, also where it has been drawn before. -/
theorem forms_terminate (c : WalkContext α σ) (resources : Resources α) (is : List (Instruction α))
    (s : Stand α σ) :
    (∃ answer t marks, Walks c resources is s answer t marks)
      ∧ (∀ answer t marks, Walks c resources is s answer t marks →
        (walk c (idleBeside c s.active) resources is).run s.walker = (answer, t.walker)
          ∧ t.active = s.active
          ∧ opened marks = []
          ∧ (∀ before after, marks = before ++ after → (opened before).Nodup
            ∧ (opened before).length ≤ c.model.catalog.forms.size)
          ∧ (∀ before index after, marks = before ++ .entered index :: after →
            index ∉ s.active ∧ index ∉ opened before)
          ∧ (∀ before index after, marks = before ++ .left index :: after →
            (opened before).head? = some index)
          ∧ (∀ before index after, marks = before ++ .refused index :: after →
            index ∈ s.active ∨ index ∈ opened before))
      ∧ (s.active = ∅ → idleBeside c s.active = List.range c.model.catalog.forms.size)
      ∧ (∀ before i after w index form, is = before ++ i :: after →
        (walk c (idleBeside c s.active) resources before).run s.walker = (.ok (), w) →
        form? c resources i = some index → c.model.catalog.forms[index]? = some form →
          (index ∈ s.active →
            (walk c (idleBeside c s.active) resources is).run s.walker
              = (walk c (idleBeside c s.active) resources after).run
                { w with listener := c.listener.report (recursionReport form.name) w.listener })
          ∧ (index ∉ s.active → ∀ content, contentOf c form = some (.ok content) →
            (walk c (idleBeside c s.active) resources (before ++ [i])).run s.walker
              = (withinForm form (walk c (idleBeside c (insert index s.active))
                  (resourcesWithin c resources form) content)).run w)) := by
  refine ⟨exists_walks _ resources is s rfl, fun answer t marks h => ?_,
    fun h => h ▸ idleBeside_empty, ?_⟩
  · have hnested : Nested c s.active [] (marks ++ []) :=
      h.nested (fun j => (or_iff_left List.not_mem_nil).symm) [] trivial
    rw [List.append_nil] at hnested
    have hpassed : ∀ {before after : List Mark}, marks = before ++ after →
        Apart c s.active (opened before) ∧ Nested c s.active (opened before) after := by
      rintro before after rfl
      exact Apart.foldl_pass before ⟨List.nodup_nil, fun _ h => absurd h List.not_mem_nil⟩ hnested
    refine ⟨h.run_walk, h.active_eq, h.opened_eq_nil, fun before after hmarks => ?_,
      fun before index after hmarks => ?_, fun before index after hmarks => ?_,
      fun before index after hmarks => ?_⟩
    · exact ⟨(hpassed hmarks).1.nodup, (hpassed hmarks).1.length_le⟩
    · exact (hpassed hmarks).2.1.2
    · exact (hpassed hmarks).2.1
    · exact (hpassed hmarks).2.1
  · rintro before i after w index form rfl hbefore hform hget
    refine ⟨fun hactive => ?_, fun hidle content hcontent => ?_⟩
    · rw [walk_append, Act.run_bind_ok hbefore]
      exact run_walk_cons_of_ok (run_carryOut_of_active (s := ⟨w, s.active⟩) hform hget hactive)
        (goesOn_ok _)
    · rw [walk_append, Act.run_bind_ok hbefore, run_withinForm]
      rcases hwithin : (walk c (idleBeside c (insert index s.active))
        (resourcesWithin c resources form) content).run (w.inside form) with ⟨within, u⟩
      have hrun := run_carryOut_of_readable (s := ⟨w, s.active⟩) hform hget hidle hcontent hwithin
      by_cases hgoes : GoesOn within
      · -- A walk that can be gone on from has come to its end.
        have hended : within = .ok () := by
          have h := (congrArg (fun r => GoesOn r.1) hwithin).mpr hgoes
          exact (congrArg Prod.fst hwithin).symm.trans (goesOn_walk_iff.mp h)
        rw [run_walk_cons_of_ok hrun hgoes, walk_nil, Act.run_pure, hended]
      · exact run_walk_cons_of_error hrun hgoes

end Folio.Pdf.Walker
