import Folio.Proofs.Pdf.Fatal

/-!
# Content that a walk gets through

Values that are tame, which all are but references and whole numbers beyond all coordinates, fail at
worst as malformed operands do. Content of such values, with forms and encodings that fail at worst
like that and pictures that are not too large, is walked through to its end from every state
(`walk_returns`).
-/

namespace Folio

open Act (GoesOn goesOn_ok goesOn_error_iff)
open Text (lit)

variable {α : Type} [Scalar α]

namespace Pdf

/-! ## Tame values -/

/-- The value is neither a reference nor a whole number beyond all coordinates. -/
def Object.IsTame : Object α → Prop
  | .whole n => (Scalar.ofInt? n : Option α).isSome = true
  | .reference _ => False
  | _ => True

/-- The operands and the items of those that are arrays are tame. -/
def Instruction.IsTame (i : Instruction α) : Prop :=
  ∀ o ∈ i.operands, o.IsTame ∧ ∀ item ∈ o.items?.getD [], item.IsTame

theorem goesOn_ofWhole {n : Int} (h : (Scalar.ofInt? n : Option α).isSome = true) :
    GoesOn (Scalar.ofWhole n : Except Fault α) := by
  obtain ⟨x, hx⟩ := Option.isSome_iff_exists.mp h
  rw [Scalar.ofWhole, hx]
  exact goesOn_ok x

namespace Graph

variable {graph : Graph α} {o : Object α}

theorem goesOn_numberOr (h : o.IsTame) (default : α) : GoesOn (graph.numberOr default o) := by
  -- A default stands in for every fault that is left.
  have hdefault : ∀ x : Except Fault α, GoesOn x → GoesOn (Object.orDefault default x) := by
    intro x hx
    unfold Object.orDefault
    split
    · exact goesOn_ok _
    · exact goesOn_ok _
    · exact hx
  refine hdefault _ ?_
  cases o with
  | null | array | node => exact goesOn_error_iff.mpr rfl
  | truth b => cases b <;> exact goesOn_ok _
  | whole n => exact goesOn_ofWhole h
  | real x => exact goesOn_ok x
  | reference => exact h.elim
  | text t source =>
    rw [number, Object.number]
    cases Decimal.Numeral.read? t with
    | some n => exact goesOn_ok _
    | none => exact goesOn_error_iff.mpr rfl
  | bytes b =>
    rw [number, Object.number]
    cases Decimal.Numeral.readBytes? b with
    | some n => exact goesOn_ok _
    | none => exact goesOn_error_iff.mpr rfl

theorem goesOn_text (h : o.IsTame) : GoesOn (graph.text o) := by
  cases o with
  | reference => exact h.elim
  | _ => exact goesOn_ok _

theorem goesOn_mapM_numberOr {os : List (Object α)} (h : ∀ o ∈ os, o.IsTame) (default : α) :
    GoesOn (os.mapM (graph.numberOr default)) := by
  induction os with
  | nil => exact goesOn_ok _
  | cons o os ih =>
    rw [List.mapM_cons, Act.goesOn_bind_iff]
    refine ⟨goesOn_numberOr (h o List.mem_cons_self) default, fun x _ => ?_⟩
    rw [Act.goesOn_bind_iff]
    exact ⟨ih fun o ho => h o (List.mem_cons_of_mem _ ho), fun xs _ => goesOn_ok _⟩

end Graph

end Pdf

/-! ## Pictures and paths -/

/-- No picture is larger than coordinates go. -/
def Resources.IsTame (resources : Resources α) : Prop :=
  ∀ name picture raster, resources.object? name = some (.picture picture) →
    picture.decoded = .raster raster →
      (Scalar.ofInt? raster.width : Option α).isSome = true
        ∧ (Scalar.ofInt? raster.height : Option α).isSome = true

theorem Resources.isTame_empty : (Resources.empty : Resources α).IsTame :=
  fun _ _ _ hobject => by cases hobject

theorem Placer.goesOn_measure {raster : Raster}
    (hwidth : (Scalar.ofInt? raster.width : Option α).isSome = true)
    (hheight : (Scalar.ofInt? raster.height : Option α).isSome = true) :
    GoesOn (measure α raster) := by
  unfold measure
  split
  · exact goesOn_ok _
  · rw [Act.goesOn_bind_iff]
    refine ⟨Pdf.goesOn_ofWhole hwidth, fun width _ => ?_⟩
    rw [Act.goesOn_bind_iff]
    exact ⟨Pdf.goesOn_ofWhole hheight, fun height _ => goesOn_ok _⟩

namespace Layout

variable {op : Operator α}

theorem goesOn_numbers? (h : ∀ o ∈ op.operands, o.IsTame) (count : Nat) :
    GoesOn (numbers? op count) := by
  unfold numbers?
  split
  · exact goesOn_ok _
  · rw [Act.goesOn_map_iff]
    exact Pdf.Graph.goesOn_mapM_numberOr (fun o ho => h o (List.mem_of_mem_take ho)) 0

/-- A picture that an operator names is one of its resources. -/
theorem object?_of_picture? {resources : Resources α} {name : Text} {picture : PictureResource}
    (hresources : op.resources = some resources)
    (h : picture? op = .ok (some (name, picture))) :
    ∃ key, resources.object? key = some (.picture picture) := by
  unfold picture? at h
  rw [hresources] at h
  split at h
  next operand rest found hoperands hfound =>
    cases hfound
    cases htext : op.graph.text operand with
    | error e =>
      rw [htext] at h
      cases h
    | ok text =>
      rw [htext] at h
      simp only [bind, Except.bind] at h
      cases hnamed : named? resources text with
      | none =>
        rw [hnamed] at h
        cases h
      | some object =>
        rw [hnamed] at h
        cases object with
        | form index => cases h
        | picture found =>
          cases h
          unfold named? at hnamed
          split at hnamed
          next hobject =>
            cases hnamed
            exact ⟨_, hobject⟩
          · exact ⟨_, hnamed⟩
  · cases h

theorem goesOn_picture? (h : ∀ o ∈ op.operands, o.IsTame) : GoesOn (picture? op) := by
  unfold picture?
  split
  next operand rest resources hoperands _ =>
    have hoperand : operand ∈ op.operands := by
      rw [hoperands]
      exact List.mem_cons_self
    rw [Act.goesOn_bind_iff]
    refine ⟨Pdf.Graph.goesOn_text (h operand hoperand), fun name _ => ?_⟩
    split <;> exact goesOn_ok _
  · exact goesOn_ok _

/-- What layout asks of tame operands and pictures goes on. -/
theorem goesOn_asked {resources : Resources α} (hresources : op.resources = some resources)
    (htame : resources.IsTame) (h : ∀ o ∈ op.operands, o.IsTame) : GoesOn (asked op) := by
  unfold asked
  split
  · rw [Act.goesOn_map_iff]
    exact goesOn_numbers? h _
  · split
    · have hpicture := goesOn_picture? h
      cases hfound : picture? op with
      | error e =>
        rw [hfound] at hpicture
        exact goesOn_error_iff.mpr (goesOn_error_iff.mp hpicture)
      | ok found =>
        cases found with
        | none => exact goesOn_ok _
        | some found =>
          obtain ⟨name, picture⟩ := found
          obtain ⟨key, hobject⟩ := object?_of_picture? hresources hfound
          simp only
          cases hdecoded : picture.decoded with
          | raster raster =>
            obtain ⟨hwidth, hheight⟩ := htame key picture raster hobject hdecoded
            simp only
            rw [Act.goesOn_map_iff]
            exact Placer.goesOn_measure hwidth hheight
          | nothing => exact goesOn_ok _
          | failed cause => exact goesOn_ok _
    · exact goesOn_ok _

end Layout

namespace Pdf

/-- Every form of the document has tame content, or none for the cause of a malformed operator. All
resources are tame, and codes that cannot be read are malformed. -/
structure WalkContext.IsTame (c : WalkContext α (Press α)) : Prop where
  readable : ∀ form ∈ c.model.catalog.forms, ∀ fault,
    Walker.contentOf c form = some (.error fault) → fault.isMalformed = true
  content : ∀ form ∈ c.model.catalog.forms, ∀ content, Walker.contentOf c form = some (.ok content) →
    ∀ i ∈ content, i.IsTame
  resources : ∀ index, (c.model.catalog.resourcesAt index).IsTame
  decoders : ∀ font decoder, c.model.decoder? font = some decoder →
    ∀ code, GoesOn (decoder.text code)

namespace Walker

variable {c : WalkContext α (Press α)} {w : Walker α (Press α)} {o : Object α}

/-! ## Operators -/

theorem goesOn_stringBytes {graph : Graph α} (h : o.IsTame) : GoesOn (stringBytes graph o) := by
  have htext : GoesOn (graph.text o >>= fun t => pure t.latin1) :=
    (Act.goesOn_bind_iff _ _).mpr ⟨Graph.goesOn_text h, fun _ _ => goesOn_ok _⟩
  cases o with
  | bytes b => exact goesOn_ok _
  | reference => exact h.elim
  | text t source =>
    cases source with
    | some b => exact goesOn_ok _
    | none => exact htext
  | _ => exact htext

theorem not_showingFails (hc : c.IsTame) (h : o.IsTame) : ¬ ShowingFails c w o := by
  rintro (⟨-, hbytes⟩ | ⟨hfont, -, -, -, hcode⟩)
  · exact hbytes (goesOn_stringBytes h)
  · obtain ⟨font, -, hdecoder⟩ := Option.bind_eq_some_iff.mp hfont
    exact hcode (hc.decoders font _ hdecoder _)

theorem not_itemFails (hc : c.IsTame) (h : o.IsTame) : ¬ ItemFails c w o := by
  unfold ItemFails
  split
  · exact not_showingFails hc h
  · exact not_showingFails hc h
  · exact not_not.mpr (Graph.goesOn_numberOr h 0)

omit [Scalar α] in
theorem goesOn_operandAt_bind {β : Type} {operands : List (Object α)} {n : Nat}
    {f : Object α → Except Fault β} (h : ∀ o ∈ operands, GoesOn (f o)) :
    GoesOn (operandAt operands n >>= f) := by
  unfold operandAt
  cases hoperand : operands[n]? with
  | none => exact goesOn_error_iff.mpr rfl
  | some o => exact h o (List.mem_of_getElem? hoperand)

/-- What a tame value gives item by item is tame. -/
theorem itemsOf_isTame [Scalar.Lawful α] {graph : Graph α} (h : o.IsTame)
    (hitems : ∀ item ∈ o.items?.getD [], item.IsTame) :
    GoesOn (itemsOf graph o) ∧ ∀ items, itemsOf graph o = .ok items → ∀ item ∈ items, item.IsTame := by
  unfold itemsOf
  cases o with
  | null | truth | whole | real => exact ⟨goesOn_error_iff.mpr rfl, fun _ hok => by cases hok⟩
  | reference => exact h.elim
  | array items =>
    refine ⟨goesOn_ok _, ?_⟩
    rintro _ ⟨⟩
    exact hitems
  | text t source =>
    refine ⟨goesOn_ok _, ?_⟩
    rintro _ ⟨⟩ item hitem
    obtain ⟨_, _, rfl⟩ := List.mem_map.mp hitem
    trivial
  | bytes b =>
    refine ⟨goesOn_ok _, ?_⟩
    rintro _ ⟨⟩ item hitem
    obtain ⟨n, _, rfl⟩ := List.mem_map.mp hitem
    exact Scalar.isSome_ofInt?_natCast ((Nat.le_of_lt n.toNat_lt).trans (by decide))
  | node index =>
    refine ⟨goesOn_ok _, ?_⟩
    rintro _ ⟨⟩ item hitem
    obtain ⟨_, _, rfl⟩ := List.mem_map.mp hitem
    trivial

section

variable {resources : Resources α} {i : Instruction α}

theorem shownItems_isTame [Scalar.Lawful α] (hi : i.IsTame) :
    GoesOn (shownItems c i.operands)
      ∧ ∀ items, shownItems c i.operands = .ok items → ∀ item ∈ items, item.IsTame := by
  unfold shownItems
  refine ⟨goesOn_operandAt_bind fun o ho => (itemsOf_isTame (hi o ho).1 (hi o ho).2).1, ?_⟩
  intro items h
  unfold operandAt at h
  cases hoperand : i.operands[0]? with
  | none =>
    rw [hoperand] at h
    cases h
  | some o =>
    rw [hoperand] at h
    have ho := hi o (List.mem_of_getElem? hoperand)
    exact (itemsOf_isTame ho.1 ho.2).2 items h

theorem goesOn_askedSent (hresources : resources.IsTame) (hi : i.IsTame) :
    GoesOn (askedSent c resources i w) := by
  unfold askedSent
  split
  · exact Layout.goesOn_asked rfl hresources fun o ho => (hi o ho).1
  · exact goesOn_ok _

theorem goesOn_numbers (hi : i.IsTame) (count : Nat) : GoesOn (numbers c i.operands count) := by
  unfold numbers
  split
  · exact goesOn_error_iff.mpr rfl
  · exact Graph.goesOn_mapM_numberOr (fun o ho => (hi o (List.mem_of_mem_take ho)).1) 0

/-- What a verb asks of tame operands goes on. -/
theorem goesOn_asked [Scalar.Lawful α] (hresources : resources.IsTame) (hi : i.IsTame)
    (verb : Verb) : GoesOn (asked c resources i w verb) := by
  have hoperand : ∀ o ∈ i.operands, o.IsTame := fun o ho => (hi o ho).1
  cases verb with
  | save | restore | beginText | nextLine | «show» | nextLineShow => exact goesOn_ok _
  | concatenate | textMatrix | lineWidth | charSpacing | wordSpacing | scaling | leading | rise
  | moveText | moveTextLeading | spacedShow =>
    rw [asked, Act.goesOn_map_iff]
    exact goesOn_numbers hi _
  | selectFont =>
    refine goesOn_operandAt_bind fun o ho => ?_
    refine (Act.goesOn_bind_iff _ _).mpr ⟨Graph.goesOn_text (hoperand o ho), fun _ _ => ?_⟩
    refine goesOn_operandAt_bind fun o ho => ?_
    exact (Act.goesOn_bind_iff _ _).mpr
      ⟨Graph.goesOn_numberOr (hoperand o ho) 0, fun _ _ => goesOn_ok _⟩
  | showArray =>
    rw [asked, Act.goesOn_map_iff]
    exact (shownItems_isTame hi).1
  | path => exact goesOn_askedSent hresources hi
  | drawObject =>
    refine goesOn_operandAt_bind fun o ho => ?_
    refine (Act.goesOn_bind_iff _ _).mpr ⟨Graph.goesOn_text (hoperand o ho), fun name _ => ?_⟩
    split
    · exact goesOn_askedSent hresources hi
    · exact goesOn_ok _

end

/-! ## Walks -/

/-- Tame content stays tame within the forms that it enters. -/
theorem Reaches.isTame {idle : List Nat} {resources : Resources α} {is : List (Instruction α)}
    {v : Visit α (Press α)} (h : Reaches c idle resources is w v) (hc : c.IsTame)
    (hresources : resources.IsTame) (his : ∀ i ∈ is, i.IsTame) :
    v.resources.IsTame ∧ v.instruction.IsTame := by
  induction h with
  | here => exact ⟨hresources, his _ List.mem_cons_self⟩
  | @within _ resources own _ _ content _ _ _ form hturn _ ih =>
    obtain ⟨-, hform, hcontent, hown⟩ := of_turn_enter hturn
    -- A form without resources of its own has those of where it is drawn.
    have htame : own.IsTame := by
      rw [hown]
      cases form.resources with
      | none => exact hresources
      | some index => exact hc.resources index
    exact ih htame (hc.content form (Array.mem_of_getElem? hform) content hcontent)
  | later _ _ ih => exact ih hresources fun i hi => his i (List.mem_cons_of_mem _ hi)

/-- Nothing that tame content comes to is fatal. -/
theorem Visit.not_fatal_of_isTame [Scalar.Lawful α] (hc : c.IsTame) {v : Visit α (Press α)}
    (hresources : v.resources.IsTame) (hi : v.instruction.IsTame) : ¬ v.Fatal c := by
  unfold Visit.Fatal
  cases hturn : turn c v.idle v.resources v.instruction with
  | unreadable form fault =>
    obtain ⟨index, hform, hcontent⟩ := of_turn_unreadable hturn
    simp only
    rw [Bool.not_eq_false]
    exact hc.readable form (Array.mem_of_getElem? hform) fault hcontent
  | operator verb =>
    rintro (hasked | ⟨-, hvalue, -, hfails⟩ | ⟨-, hitems, -, hitem⟩)
    · exact hasked (goesOn_asked hresources hi verb)
    · exact not_showingFails hc (hi _ (List.mem_of_getElem? hvalue)).1 hfails
    · refine not_itemFails hc ((shownItems_isTame hi).2 _ hitems _ ?_) hitem
      exact List.mem_append_right _ List.mem_cons_self
  | _ => exact not_false

/-- A walk that returns has come to every instruction, each from the state that the ones before it
have left. -/
theorem reaches_of_walk_eq_ok {idle : List Nat} {resources : Resources α}
    (i : Instruction α) (after before : List (Instruction α)) : ∀ w : Walker α (Press α),
    ((walk c idle resources (before ++ i :: after)).run w).1 = .ok () →
      Reaches c idle resources (before ++ i :: after) w
        ⟨idle, resources, i, ((walk c idle resources before).run w).2⟩ := by
  induction before with
  | nil =>
    intro w _
    rw [walk_nil]
    exact .here
  | cons j before ih =>
    intro w hok
    by_cases hgoes : GoesOn ((carryOut c idle resources j).run w).1
    · rw [List.cons_append, run_walk_cons_of_goesOn hgoes] at hok
      rw [run_walk_cons_of_goesOn hgoes]
      exact .later hgoes (ih _ hok)
    · rw [List.cons_append, run_walk_cons_of_not_goesOn hgoes] at hok
      exact absurd (hok ▸ goesOn_ok _) hgoes

/-- A walk returns normally exactly if it comes to no operator that fails for good and to no form
whose content fails for good; tame content has neither. A walk that returns has come to every
instruction, whatever is wrong with those before it. -/
theorem walk_returns [Scalar.Lawful α] (hc : c.listener = Press.listener) (hw : w.Steady)
    (idle : List Nat) (resources : Resources α) (is : List (Instruction α)) :
    (((walk c idle resources is).run w).1 = .ok ()
        ↔ ∀ v, Reaches c idle resources is w v → ¬ v.Fatal c)
      ∧ (c.IsTame → resources.IsTame → (∀ i ∈ is, i.IsTame) →
        ((walk c idle resources is).run w).1 = .ok ())
      ∧ (((walk c idle resources is).run w).1 = .ok () →
        ∀ before i after, is = before ++ i :: after →
          Reaches c idle resources is w
            ⟨idle, resources, i, ((walk c idle resources before).run w).2⟩) := by
  have hiff := walk_eq_ok_iff hc idle resources is w hw
  refine ⟨hiff, fun htame hresources his => hiff.mpr fun v hv => ?_, ?_⟩
  · obtain ⟨hresources', hi⟩ := hv.isTame htame hresources his
    exact Visit.not_fatal_of_isTame htame hresources' hi
  · rintro hok before i after rfl
    exact reaches_of_walk_eq_ok i after before w hok

/-- A document with one form, whose content cannot be read for that cause. -/
def unreadableForm (fault : Fault) : WalkContext ℚ (Press ℚ) where
  graph :=
    { nodes := #[{ entries := [], isStream := true, content := .error fault }], objects := [] }
  model := { catalog := ⟨#[], #[⟨lit "Fm", .identity, none, some 0⟩]⟩ }
  page := .identity
  listener := Press.listener

/-- A line width that is no number, and an object that may be a form. -/
def widthAndObject : List (Instruction ℚ) :=
  [⟨lit "w", [.ofText (lit "wide")]⟩, ⟨lit "Do", [.ofText (lit "/Fm")]⟩]

/-- A walk at the start of a document. -/
def fresh : Walker ℚ (Press ℚ) := start { layout := .start .standard .memory {} }

theorem turn_drawUnreadable (fault : Fault) :
    turn (unreadableForm fault) [0] ⟨[], [(lit "/Fm", .form 0)]⟩
        ⟨lit "Do", [.ofText (lit "/Fm")]⟩
      = .unreadable ⟨lit "Fm", .identity, none, some 0⟩ fault := rfl

theorem isTame_unreadableForm {fault : Fault} (h : fault.isMalformed = true) :
    (unreadableForm fault).IsTame where
  readable form hform fault' hcontent := by
    obtain rfl : form = ⟨lit "Fm", .identity, none, some 0⟩ := by
      simpa [unreadableForm] using hform
    cases hcontent
    exact h
  content form hform content hcontent := by
    obtain rfl : form = ⟨lit "Fm", .identity, none, some 0⟩ := by
      simpa [unreadableForm] using hform
    cases hcontent
  resources _ := Resources.isTame_empty
  decoders font decoder hdecoder := by cases hdecoder

/-- A form that breaks off ends the walk; a malformed one does not, nor does a width that is no
number. -/
theorem walk_returns_unreadableForms : fresh.Steady
    ∧ ((walk (unreadableForm (.unreadable (lit "cut short"))) [0]
      ⟨[], [(lit "/Fm", .form 0)]⟩ widthAndObject).run fresh).1 ≠ .ok ()
    ∧ ((walk (unreadableForm (.badValue (lit "no filter"))) [0]
      ⟨[], [(lit "/Fm", .form 0)]⟩ widthAndObject).run fresh).1 = .ok () := by
  have hfresh : fresh.Steady :=
    ⟨Options.isUsual_standard, Options.isUsual_standard, fun _ _ => rfl⟩
  refine ⟨hfresh, fun hok => ?_, ?_⟩
  · obtain ⟨hiff, -, hreaches⟩ := walk_returns
      (c := unreadableForm (.unreadable (lit "cut short"))) rfl hfresh [0]
      ⟨[], [(lit "/Fm", .form 0)]⟩ widthAndObject
    have hvisit := hreaches hok [⟨lit "w", [.ofText (lit "wide")]⟩] _ [] rfl
    refine hiff.mp hok _ hvisit ?_
    rw [Visit.Fatal, turn_drawUnreadable]
    rfl
  · obtain ⟨-, htame, -⟩ := walk_returns (c := unreadableForm (.badValue (lit "no filter"))) rfl
      hfresh [0] ⟨[], [(lit "/Fm", .form 0)]⟩ widthAndObject
    refine htame (isTame_unreadableForm rfl) ?_ ?_
    · intro name picture raster hobject
      have hforms : (⟨[], [(lit "/Fm", .form 0)]⟩ : Resources ℚ).object? name = none
          ∨ (⟨[], [(lit "/Fm", .form 0)]⟩ : Resources ℚ).object? name = some (.form 0) := by
        unfold Resources.object?
        simp only [List.lookup]
        split
        · exact .inr rfl
        · exact .inl rfl
      obtain hnone | hform := hforms
      · rw [hnone] at hobject
        cases hobject
      · rw [hform] at hobject
        cases hobject
    · intro i hi o ho
      rcases List.mem_cons.mp hi with rfl | hi
      · obtain rfl := List.mem_singleton.mp ho
        exact ⟨trivial, fun _ hitem => by cases hitem⟩
      · obtain rfl := List.mem_singleton.mp hi
        obtain rfl := List.mem_singleton.mp ho
        exact ⟨trivial, fun _ hitem => by cases hitem⟩

end Walker

end Pdf

end Folio
