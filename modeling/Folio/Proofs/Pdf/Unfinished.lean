import Folio.Proofs.Pdf.Decoding
import Folio.Proofs.Pdf.Filling

/-!
# What a failed call leaves behind

Resources are registered before they are filled, so that forms may lead back to where they are
listed, and nobody takes them back if filling them fails. A call that fails leaves its dictionary
registered with what was listed by then (`Unfinished`), and whoever asks for the dictionary again is
given that, without a failure. A font is registered before its decoder is made, so that a font whose
decoder cannot be made stays as well, and from then on every dictionary may list it.

That is all there is to it: after any calls, whichever of them have failed, every dictionary that is
registered is filled or was left unfinished (`Brought`), and a font lacks its decoder exactly if the
decoder cannot be made (`Decoded`). As long as no call fails nothing is missing.
-/

namespace Folio

namespace Pdf.ResourceModel

open Text (lit)

variable {α : Type}

/-! ## How far a call has come -/

/-- The entries before one that stands for something. -/
def StopsAt (find : Object α → Option Nat) (entries front : List (Text × Object α)) : Prop :=
  ∃ name value back node, entries = front ++ (name, value) :: back ∧ find value = some node

/-- The entries that have been gone through: all of them, or those before the one that failed. -/
def Reaches (find : Object α → Option Nat) (entries front : List (Text × Object α)) :
    Except Fault Unit → Prop
  | .ok _ => front = entries
  | .error _ => StopsAt find entries front

theorem Reaches.cons {find : Object α → Option Nat} {entries front : List (Text × Object α)}
    {answer : Except Fault Unit} (h : Reaches find entries front answer)
    (entry : Text × Object α) : Reaches find (entry :: entries) (entry :: front) answer := by
  cases answer with
  | ok => exact congrArg (entry :: ·) h
  | error e =>
    obtain ⟨name, value, back, node, rfl, hnode⟩ := h
    exact ⟨name, value, back, node, rfl, hnode⟩

theorem reaches_of_error {find : Object α → Option Nat} {value : Object α} {node : Nat}
    (h : find value = some node) (name : Text) (back : List (Text × Object α)) (e : Fault) :
    Reaches find ((name, value) :: back) [] (.error e) := ⟨name, value, back, node, rfl, h⟩

variable [Scalar α]

/-- The resources of a dictionary stop short: at one of its fonts, and then they list those before
it and nothing else, or at one of its external objects, and then they list all of its fonts and the
pictures and forms before it. -/
inductive Unfinished (graph : Graph α) (model : ResourceModel α) (node index : Nat) : Prop
  | atFont {front : List (Text × Object α)}
    (hstops : StopsAt graph.node? (entriesOf graph node "/Font") front)
    (hfonts : Lists model.fonts (named graph.node? front) (model.catalog.resourcesAt index).fonts)
    (hobjects : (model.catalog.resourcesAt index).objects = [])
  | atObject {front : List (Text × Object α)}
    (hfonts : Lists model.fonts (named graph.node? (entriesOf graph node "/Font"))
      (model.catalog.resourcesAt index).fonts)
    (hstops : StopsAt graph.stream? (entriesOf graph node "/XObject") front)
    (hobjects : Lists model.objects (named (drawn? graph) front)
      (model.catalog.resourcesAt index).objects)

/-- Every dictionary that is registered is filled or was left unfinished, except for those that are
still `pending`, and only pictures and forms are registered as external objects. -/
structure Brought (graph : Graph α) (pending : List Nat) (model : ResourceModel α) : Prop where
  indices : (model.dictionaries.map (·.2)).Nodup
  indices_lt : ∀ e ∈ model.dictionaries, e.2 < model.catalog.resources.size
  brought : ∀ e ∈ model.dictionaries, e.2 ∉ pending →
    Filled graph model e.1 e.2 ∨ Unfinished graph model e.1 e.2
  drawn : ∀ e ∈ model.objects, isDrawn graph e.1 = true

section

variable {graph : Graph α} {first later : ResourceModel α} {pending : List Nat}

theorem Unfinished.of_eq {node index : Nat} (h : Unfinished graph first node index)
    (hfonts : first.fonts <+: later.fonts) (hobjects : first.objects <+: later.objects)
    (hsame : later.catalog.resourcesAt index = first.catalog.resourcesAt index) :
    Unfinished graph later node index := by
  cases h with
  | atFont hstops hlisted hnone =>
    exact .atFont hstops (hsame ▸ hlisted.mono hfonts) (hsame ▸ hnone)
  | atObject hlisted hstops hdrawn =>
    exact .atObject (hsame ▸ hlisted.mono hfonts) hstops (hsame ▸ hdrawn.mono hobjects)

/-! ## Steps -/

/-- What is registered stays as it has been brought, as long as no dictionary is registered and the
resources of those that are not pending are left alone. -/
theorem Brought.of_eq (h : Brought graph pending first)
    (hdictionaries : later.dictionaries = first.dictionaries)
    (hsize : first.catalog.resources.size ≤ later.catalog.resources.size)
    (hfonts : first.fonts <+: later.fonts) (hobjects : first.objects <+: later.objects)
    (hsame : ∀ i < first.catalog.resources.size, i ∉ pending →
      later.catalog.resourcesAt i = first.catalog.resourcesAt i)
    (hdrawn : ∀ e ∈ later.objects, e ∉ first.objects → isDrawn graph e.1 = true) :
    Brought graph pending later where
  indices := hdictionaries ▸ h.indices
  indices_lt e he := Nat.lt_of_lt_of_le (h.indices_lt e (hdictionaries ▸ he)) hsize
  brought e he hclosed := by
    rw [hdictionaries] at he
    have hat := hsame e.2 (h.indices_lt e he) hclosed
    exact (h.brought e he hclosed).imp (·.of_eq hfonts hobjects hat) (·.of_eq hfonts hobjects hat)
  drawn e he := by
    by_cases hold : e ∈ first.objects
    · exact h.drawn e hold
    · exact hdrawn e he hold

/-- A step that leaves the dictionaries alone and registers no external object. -/
theorem Brought.of_extends (h : Brought graph pending first) (hextends : Extends first later)
    (hdictionaries : later.dictionaries = first.dictionaries)
    (hobjects : later.objects = first.objects) : Brought graph pending later :=
  h.of_eq hdictionaries hextends.size_resources_le hextends.fonts hextends.objects
    (fun _ hi _ => hextends.resourcesAt_eq hi) fun _ he hold => absurd (hobjects ▸ he) hold

theorem keeps_brought_font (graph : Graph α) (name : Text) (node : Nat) :
    (font graph name node).Keeps (Brought graph pending) := by
  intro model h
  have hlasts := extends_font graph name node model (.refl model)
  rcases hrun : (font graph name node).run model with ⟨answer, later⟩
  rw [hrun] at hlasts
  obtain ⟨-, hdictionaries, hobjects⟩ := (fontStep_of_run hrun).aside
  exact h.of_extends hlasts hdictionaries hobjects

/-- Resources that are pending may be changed. -/
theorem keeps_brought_changeResources {index : Nat} (hpending : index ∈ pending)
    (f : Resources α → Resources α) : (changeResources index f).Keeps (Brought graph pending) := by
  refine .modify fun model h => h.of_eq rfl (Nat.le_of_eq Array.size_modify.symm)
    (List.prefix_refl _) (List.prefix_refl _) (fun i _ hclosed => ?_)
    fun e he hold => absurd he hold
  exact resourcesAt_modify_of_ne (fun heq : index = i => hclosed (heq ▸ hpending)) f

theorem keeps_brought_addFonts (graph : Graph α) {index : Nat} (hpending : index ∈ pending)
    (entries : List (Text × Object α)) :
    (addFonts graph index entries).Keeps (Brought graph pending) := by
  induction entries with
  | nil => exact .pure _
  | cons entry rest ih =>
    obtain ⟨name, value⟩ := entry
    rw [addFonts]
    cases graph.node? value with
    | none => exact ih
    | some node =>
      exact .bind (keeps_brought_font graph name node) fun _ =>
        .bind (keeps_brought_changeResources hpending _) fun _ => ih

/-- A stream may be registered once it is known to be a picture or a form. -/
theorem keeps_brought_register {stream : Nat} (hdrawn : isDrawn graph stream = true)
    (object : ExternalObject) :
    (register stream object : Act (ResourceModel α) Unit).Keeps (Brought graph pending) := by
  refine .modify fun model h => h.of_eq rfl (Nat.le_refl _) (List.prefix_refl _)
    (List.prefix_append _ _) (fun _ _ _ => rfl) fun e he hold => ?_
  rcases List.mem_append.mp he with he | he
  · exact absurd he hold
  · rw [List.mem_singleton.mp he]
    exact hdrawn

/-- An external object is registered as a picture or a form, whatever becomes of the resources of
the form. -/
theorem keeps_brought_object {resources : Object α → Act (ResourceModel α) Nat}
    (hresources : ∀ value, (resources value).Keeps (Brought graph pending)) (key : Text)
    (stream : Nat) : (object graph resources key stream).Keeps (Brought graph pending) := by
  have hnewForm : ∀ name matrix, (newForm name matrix stream).Keeps (Brought graph pending) :=
    fun name matrix model h =>
      h.of_extends ((extends_newForm name matrix stream).keeps model (.refl model)) rfl rfl
  have hsetForm : ∀ form index, (setFormResources form index : Act (ResourceModel α) Unit).Keeps
      (Brought graph pending) := fun form index => .modify fun _ h =>
    h.of_eq rfl (Nat.le_refl _) (List.prefix_refl _) (List.prefix_refl _) (fun _ _ _ => rfl)
      fun e he hold => absurd he hold
  refine .bind .get fun model => ?_
  split
  · exact .pure _
  · refine Act.Yields.keeps (.bind (.ofExcept fun _ hsubtype => hsubtype)
      fun subtype hsubtype => .of_keeps ?_)
    split
    next hpicture =>
      have hdrawn := isDrawn_of_subtype (.inl rfl) (hpicture ▸ hsubtype)
      exact .bind .get fun _ => .bind (.ofExcept _) fun _ =>
        .bind (keeps_brought_register hdrawn _) fun _ => .pure _
    next =>
      split
      next hform =>
        have hdrawn := isDrawn_of_subtype (.inr rfl) (hform ▸ hsubtype)
        refine .bind (.ofExcept _) fun _ => .bind (hnewForm _ _) fun _ =>
          .bind (keeps_brought_register hdrawn _) fun _ => ?_
        split
        · exact .bind (hresources _) fun _ => .bind (hsetForm _ _) fun _ => .pure _
        · exact .pure _
      next => exact .pure _

theorem keeps_brought_addObjects {resources : Object α → Act (ResourceModel α) Nat}
    (hresources : ∀ value, (resources value).Keeps (Brought graph pending)) {index : Nat}
    (hpending : index ∈ pending) (entries : List (Text × Object α)) :
    (addObjects graph resources index entries).Keeps (Brought graph pending) := by
  induction entries with
  | nil => exact .pure _
  | cons entry rest ih =>
    obtain ⟨name, value⟩ := entry
    rw [addObjects]
    cases graph.stream? value with
    | none => exact ih
    | some stream =>
      refine .bind (keeps_brought_object hresources name stream) fun found => ?_
      cases found with
      | none => exact ih
      | some object => exact .bind (keeps_brought_changeResources hpending _) fun _ => ih

/-- What is answered for a stream is what is registered for it then, if it is a picture or a form at
all. -/
theorem Brought.run_object (h : Brought graph pending first)
    {resources : Object α → Act (ResourceModel α) Nat}
    (hextends : ∀ first value, (resources value).Keeps (Extends first)) {key : Text} {stream : Nat}
    {found : Option ExternalObject}
    (hrun : (object graph resources key stream).run first = (.ok found, later)) :
    found = none ∧ isDrawn graph stream = false
      ∨ ∃ object, found = some object ∧ isDrawn graph stream = true
        ∧ (stream, object) ∈ later.objects := by
  cases hlookup : first.objects.lookup stream with
  | some known =>
    rw [ResourceModel.object, Act.run_bind_ok (Act.run_get first)] at hrun
    rw [hlookup] at hrun
    cases hrun
    have hknown := Catalog.mem_of_lookup hlookup
    exact .inr ⟨known, rfl, h.drawn _ hknown, hknown⟩
  | none =>
    cases makes_of_run_object hlookup hrun with
    | other hother => exact .inl ⟨rfl, hother⟩
    | picture hsubtype =>
      exact .inr ⟨_, rfl, isDrawn_of_subtype (.inl rfl) hsubtype,
        List.mem_append_right _ (List.mem_singleton_self _)⟩
    | plainForm hsubtype =>
      exact .inr ⟨_, rfl, isDrawn_of_subtype (.inr rfl) hsubtype,
        List.mem_append_right _ (List.mem_singleton_self _)⟩
    | @form matrix index model hsubtype hentry hresources =>
      have hlasts := hextends (first.withForm (bareName key) matrix stream)
        (graph.entry stream "/Resources") _ (.refl _)
      rw [hresources] at hlasts
      exact .inr ⟨_, rfl, isDrawn_of_subtype (.inr rfl) hsubtype, hlasts.objects.subset
        (List.mem_append_right _ (List.mem_singleton_self _))⟩

/-! ## What is listed -/

omit [Scalar α] in
theorem run_changeResources (index : Nat) (f : Resources α → Resources α)
    (model : ResourceModel α) : (changeResources index f).run model
      = (.ok (), ((changeResources index f).run model).2) := rfl

/-- Filling in fonts lists those of the entries it has come to, behind those listed before. -/
theorem run_addFonts {index : Nat} (entries : List (Text × Object α)) :
    ∀ {first later : ResourceModel α} {answer : Except Fault Unit},
      index < first.catalog.resources.size →
      (addFonts graph index entries).run first = (answer, later) →
      first.fonts <+: later.fonts ∧ index < later.catalog.resources.size
        ∧ ∃ front listed, Reaches graph.node? entries front answer
          ∧ Lists later.fonts (named graph.node? front) listed
          ∧ later.catalog.resourcesAt index = { first.catalog.resourcesAt index with
            fonts := (first.catalog.resourcesAt index).fonts ++ listed } := by
  induction entries with
  | nil =>
    intro first later answer hindex hrun
    cases hrun
    exact ⟨List.prefix_refl _, hindex, [], [], rfl, .nil, by rw [List.append_nil]; rfl⟩
  | cons entry rest ih =>
    intro first later answer hindex hrun
    obtain ⟨name, value⟩ := entry
    rw [addFonts] at hrun
    cases hvalue : graph.node? value with
    | none =>
      rw [hvalue] at hrun
      obtain ⟨hfonts, hlater, front, listed, hreaches, hlists, hat⟩ := ih hindex hrun
      exact ⟨hfonts, hlater, (name, value) :: front, listed, hreaches.cons _,
        named_cons_of_none hvalue name front ▸ hlists, hat⟩
    | some found =>
      simp only [hvalue] at hrun
      have hfirst : first.fonts <+: ((font graph name found).run first).2.fonts :=
        (extends_font graph name found first (.refl first)).fonts
      rcases hfont : (font graph name found).run first with ⟨e | f, model⟩ <;>
        rw [hfont] at hfirst <;> have hstep := fontStep_of_run hfont <;>
        obtain ⟨hcatalog, -, -⟩ := hstep.aside
      · -- It ends at this entry.
        rw [Act.run_bind_error hfont] at hrun
        cases hrun
        exact ⟨hfirst, hcatalog ▸ hindex, [], [], reaches_of_error hvalue name rest e, .nil, by
          rw [List.append_nil, hcatalog]⟩
      · rw [Act.run_bind_ok hfont, Act.run_bind_ok (run_changeResources _ _ model)] at hrun
        have hindex' : index < model.catalog.resources.size := hcatalog ▸ hindex
        obtain ⟨hmore, hlater, front, listed, hreaches, hlists, hat⟩ :=
          ih (Nat.lt_of_lt_of_eq hindex' Array.size_modify.symm) hrun
        refine ⟨hfirst.trans hmore, hlater, (name, value) :: front, (name, f) :: listed,
          hreaches.cons _, ?_, ?_⟩
        · rw [named_cons_of_some hvalue]
          exact .cons ⟨rfl, hmore.subset hstep.mem_fonts⟩ hlists
        · rw [hat, resourcesAt_changeResources hindex', hcatalog]
          simp only [List.append_assoc, List.singleton_append]

/-- Filling in external objects lists the pictures and forms among the entries it has come to,
behind those listed before. -/
theorem run_addObjects {resources : Object α → Act (ResourceModel α) Nat}
    (hextends : ∀ first value, (resources value).Keeps (Extends first))
    (hresources : ∀ value, (resources value).Keeps (Brought graph pending)) {index : Nat}
    (hpending : index ∈ pending) (entries : List (Text × Object α)) :
    ∀ {first later : ResourceModel α} {answer : Except Fault Unit}, Brought graph pending first →
      index < first.catalog.resources.size →
      (addObjects graph resources index entries).run first = (answer, later) →
      first.fonts <+: later.fonts ∧ first.objects <+: later.objects
        ∧ ∃ front listed, Reaches graph.stream? entries front answer
          ∧ Lists later.objects (named (drawn? graph) front) listed
          ∧ later.catalog.resourcesAt index = { first.catalog.resourcesAt index with
            objects := (first.catalog.resourcesAt index).objects ++ listed } := by
  induction entries with
  | nil =>
    intro first later answer _ _ hrun
    cases hrun
    exact ⟨List.prefix_refl _, List.prefix_refl _, [], [], rfl, .nil,
      by rw [List.append_nil]; rfl⟩
  | cons entry rest ih =>
    intro first later answer h hindex hrun
    obtain ⟨name, value⟩ := entry
    rw [addObjects] at hrun
    cases hvalue : graph.stream? value with
    | none =>
      rw [hvalue] at hrun
      obtain ⟨hfonts, hobjects, front, listed, hreaches, hlists, hat⟩ := ih h hindex hrun
      have hother : drawn? graph value = none := by
        rw [drawn?, hvalue]
        rfl
      exact ⟨hfonts, hobjects, (name, value) :: front, listed, hreaches.cons _,
        named_cons_of_none hother name front ▸ hlists, hat⟩
    | some stream =>
      simp only [hvalue] at hrun
      have hlasts := extends_object graph (hextends first) name stream first (.refl first)
      have hkept := keeps_brought_object hresources name stream first h
      have hat := hlasts.resourcesAt_eq hindex
      have hindex' := Nat.lt_of_lt_of_le hindex hlasts.size_resources_le
      rcases hobject : (object graph resources name stream).run first with ⟨e | found, model⟩ <;>
        rw [hobject] at hlasts hkept hat hindex'
      · -- It ends at this entry.
        rw [Act.run_bind_error hobject] at hrun
        cases hrun
        exact ⟨hlasts.fonts, hlasts.objects, [], [], reaches_of_error hvalue name rest e, .nil, by
          rw [List.append_nil, hat]⟩
      · rw [Act.run_bind_ok hobject] at hrun
        rcases h.run_object hextends hobject with ⟨rfl, hother⟩ | ⟨object, rfl, hdrawn, hregistered⟩
        · obtain ⟨hfonts, hobjects, front, listed, hreaches, hlists, hlater⟩ :=
            ih hkept hindex' hrun
          have hother : drawn? graph value = none := by
            rw [drawn?, hvalue, Option.filter_some, hother]
            rfl
          exact ⟨hlasts.fonts.trans hfonts, hlasts.objects.trans hobjects, (name, value) :: front,
            listed, hreaches.cons _, named_cons_of_none hother name front ▸ hlists, hat ▸ hlater⟩
        · replace hrun := (Act.run_bind_ok (run_changeResources _ _ model)).symm.trans hrun
          obtain ⟨hfonts, hobjects, front, listed, hreaches, hlists, hlater⟩ :=
            ih (keeps_brought_changeResources hpending _ model hkept)
              (Nat.lt_of_lt_of_eq hindex' Array.size_modify.symm) hrun
          refine ⟨hlasts.fonts.trans hfonts, hlasts.objects.trans hobjects, (name, value) :: front,
            (name, object) :: listed, hreaches.cons _, ?_, ?_⟩
          · rw [named_cons_of_some (by rw [drawn?, hvalue, Option.filter_some, if_pos hdrawn])]
            exact .cons ⟨rfl, hobjects.subset hregistered⟩ hlists
          · rw [hlater, resourcesAt_changeResources hindex', hat]
            simp only [List.append_assoc, List.singleton_append]

/-! ## Filling -/

theorem lookup_of_longer {β : Type} {register register' : List (Nat × β)} {node : Nat} {b : β}
    (hfirst : register <+: register') (h : register.lookup node = some b) :
    register'.lookup node = some b := by
  obtain ⟨more, rfl⟩ := hfirst
  rw [List.lookup_append, h]
  rfl

theorem Brought.registered (h : Brought graph pending first) (node : Nat) :
    Brought graph (first.catalog.resources.size :: pending) (first.registered node) := by
  have hextends := extends_registered first node
  have hsize : (first.registered node).catalog.resources.size
      = first.catalog.resources.size + 1 := Array.size_push _
  refine ⟨nodup_map_concat h.indices fun hmem => ?_,
    List.forall_mem_append.mpr ⟨fun e he => ?_, List.forall_mem_singleton.mpr ?_⟩,
    List.forall_mem_append.mpr ⟨fun e he hclosed => ?_, List.forall_mem_singleton.mpr ?_⟩, h.drawn⟩
  · obtain ⟨e, he, hindex⟩ := List.mem_map.mp hmem
    exact absurd (h.indices_lt e he) (hindex ▸ Nat.lt_irrefl _)
  · rw [hsize]
    exact Nat.lt_succ_of_lt (h.indices_lt e he)
  · rw [hsize]
    exact Nat.lt_succ_self _
  · have hat := hextends.resourcesAt_eq (h.indices_lt e he)
    exact (h.brought e he fun hmem => hclosed (List.mem_cons_of_mem _ hmem)).imp
      (·.of_eq hextends.fonts hextends.objects hat) (·.of_eq hextends.fonts hextends.objects hat)
  · exact fun hclosed => absurd List.mem_cons_self hclosed

/-- Once the resources of a dictionary are filled or left unfinished they are pending no longer. -/
theorem Brought.close {node index : Nat} (h : Brought graph (index :: pending) first)
    (hnode : (node, index) ∈ first.dictionaries)
    (hbrought : Filled graph first node index ∨ Unfinished graph first node index) :
    Brought graph pending first := by
  refine { h with brought := fun e he hclosed => ?_ }
  by_cases heq : e.2 = index
  · -- No other dictionary has these resources.
    cases List.inj_on_of_nodup_map h.indices he hnode heq
    exact hbrought
  · exact h.brought e he (List.not_mem_cons_of_ne_of_not_mem heq hclosed)

/-- The resources of a dictionary that has just been registered are filled in the end, or they are
left unfinished. -/
theorem Brought.run_fill (h : Brought graph pending first)
    {resources : Object α → Act (ResourceModel α) Nat}
    (hextends : ∀ first value, (resources value).Keeps (Extends first))
    (hresources : ∀ pending value, (resources value).Keeps (Brought graph pending)) {node : Nat}
    {answer : Except Fault Nat}
    (hrun : (addFonts graph first.catalog.resources.size (entriesOf graph node "/Font") >>= fun _ =>
      addObjects graph resources first.catalog.resources.size (entriesOf graph node "/XObject") >>=
        fun _ => pure first.catalog.resources.size).run (first.registered node) = (answer, later)) :
    Brought graph (first.catalog.resources.size :: pending) later
      ∧ (first.registered node).dictionaries <+: later.dictionaries
      ∧ match answer with
        | .ok _ => Filled graph later node first.catalog.resources.size
        | .error _ => Unfinished graph later node first.catalog.resources.size := by
  have hlasts : Extends { dictionaries := (first.registered node).dictionaries } later := by
    have hkeeps := Act.Keeps.bind
      (extends_addFonts graph (Nat.zero_le first.catalog.resources.size)
        (entriesOf graph node "/Font"))
      (fun _ => .bind (extends_addObjects graph (hextends _)
        (Nat.zero_le first.catalog.resources.size) (entriesOf graph node "/XObject")) fun _ =>
          .pure first.catalog.resources.size) _ (.of_dictionaries (first.registered node))
    rwa [hrun] at hkeeps
  have hregistered := h.registered node
  have hindex : first.catalog.resources.size < (first.registered node).catalog.resources.size :=
    Nat.lt_of_lt_of_eq (Nat.lt_succ_self _) (Array.size_push _).symm
  have hstart : (first.registered node).catalog.resourcesAt first.catalog.resources.size = .empty :=
    resourcesAt_push_size first.catalog
  have hmodel := keeps_brought_addFonts graph List.mem_cons_self (entriesOf graph node "/Font") _
    hregistered
  rcases hfonts : (addFonts graph first.catalog.resources.size (entriesOf graph node "/Font")).run
    (first.registered node) with ⟨fontsAnswer, model⟩
  rw [hfonts] at hmodel
  obtain ⟨-, hindex', front, fonts, hreaches, hlistsFonts, hatFonts⟩ :=
    run_addFonts _ hindex hfonts
  rw [hstart] at hatFonts
  cases fontsAnswer with
  | error e =>
    rw [Act.run_bind_error hfonts] at hrun
    cases hrun
    exact ⟨hmodel, hlasts.dictionaries, .atFont hreaches (hatFonts ▸ hlistsFonts) (hatFonts ▸ rfl)⟩
  | ok =>
    obtain rfl : front = _ := hreaches
    rw [Act.run_bind_ok hfonts] at hrun
    have hlater := keeps_brought_addObjects (hresources _) List.mem_cons_self
      (entriesOf graph node "/XObject") _ hmodel
    rcases hobjects : (addObjects graph resources first.catalog.resources.size
      (entriesOf graph node "/XObject")).run model with ⟨objectsAnswer, filled⟩
    rw [hobjects] at hlater
    obtain ⟨hmore, -, front, objects, hreaches, hlistsObjects, hatObjects⟩ :=
      run_addObjects hextends (hresources _) List.mem_cons_self _ hmodel hindex' hobjects
    rw [hatFonts] at hatObjects
    have hlistsFonts' := hlistsFonts.mono hmore
    cases objectsAnswer with
    | error e =>
      rw [Act.run_bind_error hobjects] at hrun
      cases hrun
      exact ⟨hlater, hlasts.dictionaries,
        .atObject (hatObjects ▸ hlistsFonts') hreaches (hatObjects ▸ hlistsObjects)⟩
    | ok =>
      obtain rfl : front = _ := hreaches
      rw [Act.run_bind_ok hobjects] at hrun
      cases hrun
      exact ⟨hlater, hlasts.dictionaries, hatObjects ▸ hlistsFonts', hatObjects ▸ hlistsObjects⟩

/-- Every call leaves what is registered filled or unfinished, whether it succeeds or fails. -/
theorem keeps_brought_buildWithin (graph : Graph α) (depth : Nat) :
    ∀ (pending : List Nat) (value : Object α),
      (buildWithin graph depth value).Keeps (Brought graph pending) := by
  have hnew : ∀ pending, (newResources : Act (ResourceModel α) Nat).Keeps (Brought graph pending) :=
    fun pending model h => h.of_extends (extends_newResources model (.refl model)).1 rfl rfl
  induction depth with
  | zero => exact fun pending _ => hnew pending
  | succ depth ih =>
    intro pending value first h
    cases hvalue : graph.node? value with
    | none =>
      rw [run_buildWithin_of_other hvalue]
      exact hnew pending first h
    | some node =>
      cases hlookup : first.dictionaries.lookup node with
      | some index =>
        rw [run_buildWithin_of_known hvalue hlookup]
        exact h
      | none =>
        rcases hrun : (buildWithin graph (depth + 1) value).run first with ⟨answer, later⟩
        rw [run_buildWithin_of_new hvalue hlookup] at hrun
        obtain ⟨hlater, hkept, hbrought⟩ :=
          h.run_fill (fun _ => extends_buildWithin graph depth) ih hrun
        have hnode : (node, first.catalog.resources.size) ∈ later.dictionaries :=
          hkept.subset (List.mem_append_right _ (List.mem_singleton_self _))
        cases answer with
        | error e => exact hlater.close hnode (.inr hbrought)
        | ok index => exact hlater.close hnode (.inl hbrought)

/-- A call that fails leaves its dictionary registered and the resources unfinished. -/
theorem Brought.unfinished (h : Brought graph pending first) {depth : Nat} {value : Object α}
    {e : Fault} (hrun : (buildWithin graph depth value).run first = (.error e, later)) :
    ∃ node index, graph.node? value = some node ∧ later.dictionaries.lookup node = some index
      ∧ index < later.catalog.resources.size ∧ Unfinished graph later node index := by
  cases depth with
  | zero => cases hrun
  | succ depth =>
    cases hvalue : graph.node? value with
    | none =>
      rw [run_buildWithin_of_other hvalue] at hrun
      cases hrun
    | some node =>
      cases hlookup : first.dictionaries.lookup node with
      | some index =>
        rw [run_buildWithin_of_known hvalue hlookup] at hrun
        cases hrun
      | none =>
        rw [run_buildWithin_of_new hvalue hlookup] at hrun
        obtain ⟨hlater, hkept, hbrought⟩ := h.run_fill (fun _ => extends_buildWithin graph depth)
          (keeps_brought_buildWithin graph depth) hrun
        have hnode : (first.registered node).dictionaries.lookup node
            = some first.catalog.resources.size := by
          rw [ResourceModel.registered, List.lookup_append, hlookup, Option.none_or,
            List.lookup_cons_self]
        have hnode' := lookup_of_longer hkept hnode
        exact ⟨node, first.catalog.resources.size, rfl, hnode',
          hlater.indices_lt _ (Catalog.mem_of_lookup hnode'), hbrought⟩

/-! ## Any number of calls -/

/-- What has been built after the calls, whichever of them have failed. -/
def afterCalls (graph : Graph α) (calls : List (Object α)) (model : ResourceModel α) :
    ResourceModel α := calls.foldl (fun model value => ((build graph value).run model).2) model

theorem holds_afterCalls {P : ResourceModel α → Prop} (hcall : ∀ value, (build graph value).Keeps P)
    (calls : List (Object α)) : ∀ {model}, P model → P (afterCalls graph calls model) := by
  induction calls with
  | nil => exact id
  | cons value rest ih => exact fun h => ih (hcall value _ h)

theorem eq_afterCalls_of_mapM {calls : List (Object α)} :
    ∀ {first later : ResourceModel α} {indices : List Nat},
      (calls.mapM (build graph)).run first = (.ok indices, later) →
      later = afterCalls graph calls first := by
  induction calls with
  | nil =>
    intro first later indices hrun
    rw [List.mapM_nil] at hrun
    cases hrun
    rfl
  | cons value rest ih =>
    intro first later indices hrun
    rw [List.mapM_cons] at hrun
    obtain ⟨index, model, hvalue, hrun⟩ := Act.run_bind_eq_ok hrun
    obtain ⟨others, model', hrest, hrun⟩ := Act.run_bind_eq_ok hrun
    cases hrun
    rw [ih hrest, afterCalls, afterCalls, List.foldl_cons, hvalue]
    rfl

theorem brought_start (graph : Graph α) : Brought graph [] {} where
  indices := List.nodup_nil
  indices_lt _ he := absurd he List.not_mem_nil
  brought _ he := absurd he List.not_mem_nil
  drawn _ he := absurd he List.not_mem_nil

theorem brought_afterCalls (graph : Graph α) (calls : List (Object α)) :
    Brought graph [] (afterCalls graph calls {}) :=
  holds_afterCalls (keeps_brought_buildWithin graph _ []) calls (brought_start graph)

theorem decoded_afterCalls (graph : Graph α) (calls : List (Object α)) :
    Decoded graph (afterCalls graph calls {}) :=
  holds_afterCalls (fun value => ((fontsLead_decoded graph).leads_buildWithin _ value).keeps) calls
    (decoded_start graph)

theorem shares_afterCalls (graph : Graph α) (calls : List (Object α)) :
    Shares [] (afterCalls graph calls {}) := holds_afterCalls (keeps_build graph) calls shares_start

end

/-- Whatever resources have been asked for, and whichever of the calls have failed: every dictionary
that is registered is filled or was left unfinished. A call that fails leaves its dictionary
unfinished for good, and from then on everyone who asks for that dictionary is given what there is,
without a failure. A font that is listed anywhere has the decoder that can be made for its node, and
none exactly if there is no such decoder. As long as all calls succeed nothing is missing. -/
theorem unfinished_build (graph : Graph α) {calls : List (Object α)} {model : ResourceModel α}
    (hmodel : afterCalls graph calls {} = model) :
    (∀ node index, (node, index) ∈ model.dictionaries →
        Filled graph model node index ∨ Unfinished graph model node index)
      ∧ (∀ value e, ((build graph value).run model).1 = .error e → ∃ node index,
        graph.node? value = some node
          ∧ ∀ more later, afterCalls graph (value :: more) model = later →
            Unfinished graph later node index
              ∧ ∀ same, graph.node? same = some node →
                (build graph same).run later = (.ok index, later))
      ∧ (∀ i, ∀ listed ∈ (model.catalog.resourcesAt i).fonts, ∃ node,
        (node, listed.2) ∈ model.fonts
          ∧ model.decoder? listed.2 = (decoderOf graph node listed.2).toOption)
      ∧ ∀ indices, ((calls.mapM (build graph)).run {}).1 = .ok indices →
        (∀ node index, (node, index) ∈ model.dictionaries → Filled graph model node index)
          ∧ ∀ e ∈ model.fonts, (model.decoder? e.2).isSome := by
  subst hmodel
  have hbrought := brought_afterCalls graph calls
  have hdecoded := decoded_afterCalls graph calls
  refine ⟨fun node index hnode => hbrought.brought _ hnode List.not_mem_nil,
    fun value e hfailed => ?_, fun i listed hlisted => ?_, fun indices hindices => ?_⟩
  · obtain ⟨node, index, hnode, hlookup, hlt, hunfinished⟩ :=
      hbrought.unfinished (Prod.ext hfailed rfl)
    refine ⟨node, index, hnode, ?_⟩
    rintro more _ rfl
    have hlasts : Extends _ (afterCalls graph (value :: more) (afterCalls graph calls {})) :=
      holds_afterCalls (fun value => extends_buildWithin graph _ value) more (.refl _)
    refine ⟨hunfinished.of_eq hlasts.fonts hlasts.objects (hlasts.resourcesAt_eq hlt),
      fun same hsame => ?_⟩
    exact run_buildWithin_of_known hsame (lookup_of_longer hlasts.dictionaries hlookup) _
  · obtain ⟨e, he, hfont⟩ :=
      List.mem_map.mp ((shares_afterCalls graph calls).listed i listed hlisted)
    rw [← hfont]
    exact ⟨e.1, he, hdecoded.decoder e he⟩
  · have hrun : (calls.mapM (build graph)).run {} = (.ok indices, afterCalls graph calls {}) := by
      have hrun : (calls.mapM (build graph)).run {} = (.ok indices, _) := Prod.ext hindices rfl
      rwa [eq_afterCalls_of_mapM hrun] at hrun
    refine ⟨fun node index hnode => ?_, fun e he => ?_⟩
    · exact (building_mapM_build (building_start graph) hrun).1.filled _ hnode List.not_mem_nil
    · rw [hdecoded.decoder e he]
      exact decodable_of_mapM hrun e he

/-- A dictionary with two fonts, of which the second has a first code that leads nowhere, and
another dictionary with that font. -/
def lameGraph : Graph ℚ where
  nodes := #[
    { entries := [(lit "/Font", .node 1)] },
    { entries := [(lit "/F1", .node 2), (lit "/F2", .node 3)] },
    { entries := [] },
    { entries := [(lit "/Widths", .array [.whole 500]), (lit "/FirstChar", .reference 9)] },
    { entries := [(lit "/Font", .node 5)] },
    { entries := [(lit "/F", .node 3)] }]
  objects := []

/-- The first dictionary fails and is answered the next time, with what was listed by then. The
second one is answered with a font that has no decoder. -/
theorem unfinished_build_lame :
    ((build lameGraph (.node 0)).run {}).1 = .error (.missingObject 9)
      ∧ ∃ later index, afterCalls lameGraph [.node 0, .node 4] {} = later
        ∧ Unfinished lameGraph later 0 index
        ∧ (build lameGraph (.node 0)).run later = (.ok index, later)
        ∧ ∃ listed ∈ (later.catalog.resourcesAt 1).fonts, later.decoder? listed.2 = none := by
  have hfailed : ((build lameGraph (.node 0)).run {}).1 = .error (.missingObject 9) := rfl
  obtain ⟨-, hfailures, -⟩ := unfinished_build lameGraph (rfl : afterCalls lameGraph [] {} = {})
  obtain ⟨node, index, hnode, hlater⟩ := hfailures _ _ hfailed
  cases hnode
  obtain ⟨hunfinished, hsame⟩ := hlater [.node 4] _ rfl
  exact ⟨hfailed, _, index, rfl, hunfinished, hsame _ rfl, _, List.mem_singleton_self _, rfl⟩

end Pdf.ResourceModel

end Folio
