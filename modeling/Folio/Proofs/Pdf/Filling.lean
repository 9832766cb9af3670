import Folio.Proofs.Pdf.Extending
import Folio.Proofs.Scalar.Rational
import Mathlib.Data.List.Forall2

/-!
# What has been built

However the objects of a document refer to each other, building their resources gives each
dictionary, font and stream one model, and what is built is complete: the resources of a dictionary
list exactly its fonts and its pictures and forms (`Filled`), and a form has the resources that its
own entry leads to (`OwnResources`).

Resources are registered before they are filled, and forms before they have resources, so while
something is being built a part of what is registered does not look like this yet. `Building` says
that everything does except for the resources that are `pending` and the forms that are `opened`,
and that no two entries of a register are confused. Each step keeps this with its own resources
pending or its own form open, whatever else is, and ends by taking them off (`Building.fill`,
`Building.close`); the calls within a call are steps of the same kind, for which there is less to go
(`BuildsWithin`).
-/

namespace Folio

namespace Pdf.ResourceModel

open Text (lit)

variable {α β : Type}

/-! ## What dictionaries list -/

/-- The names among the entries whose values stand for something, and for what. -/
def named (find : Object α → Option Nat) (entries : List (Text × Object α)) : List (Text × Nat) :=
  entries.filterMap fun e => (find e.2).map fun node => (e.1, node)

theorem named_cons_of_none {find : Object α → Option Nat} {value : Object α}
    (h : find value = none) (name : Text) (entries : List (Text × Object α)) :
    named find ((name, value) :: entries) = named find entries := by
  rw [named, List.filterMap_cons_none (by rw [h]; rfl)]
  rfl

theorem named_cons_of_some {find : Object α → Option Nat} {value : Object α} {node : Nat}
    (h : find value = some node) (name : Text) (entries : List (Text × Object α)) :
    named find ((name, value) :: entries) = (name, node) :: named find entries := by
  rw [named, List.filterMap_cons_some (by rw [h]; rfl)]
  rfl

/-- Under the names is listed what the register has for the nodes. -/
def Lists (register : List (Nat × β)) (names : List (Text × Nat)) (listed : List (Text × β)) :
    Prop :=
  List.Forall₂ (fun n e => e.1 = n.1 ∧ (n.2, e.2) ∈ register) names listed

theorem Lists.mono {register register' : List (Nat × β)} {names : List (Text × Nat)}
    {listed : List (Text × β)} (h : Lists register names listed)
    (hsubset : register <+: register') : Lists register' names listed :=
  List.Forall₂.imp (fun _ _ he => ⟨he.1, hsubset.subset he.2⟩) h

variable [Scalar α]

/-- The stream is a picture or a form. -/
def isDrawn (graph : Graph α) (stream : Nat) : Bool :=
  match graph.name? (graph.entry stream "/Subtype") with
  | .ok (some kind) => kind = lit "Image" || kind = lit "Form"
  | _ => false

theorem isDrawn_of_subtype {graph : Graph α} {stream : Nat} {kind : String}
    (hkind : kind = "Image" ∨ kind = "Form")
    (hsubtype : graph.name? (graph.entry stream "/Subtype") = .ok (some (lit kind))) :
    isDrawn graph stream = true := by
  rcases hkind with rfl | rfl <;> rw [isDrawn, hsubtype] <;> decide

/-- The picture or form that a value stands for. -/
def drawn? (graph : Graph α) (value : Object α) : Option Nat :=
  (graph.stream? value).filter (isDrawn graph)

/-- The resources of a dictionary are filled: they list its fonts and its pictures and forms, each
as it is registered. -/
structure Filled (graph : Graph α) (model : ResourceModel α) (node index : Nat) : Prop where
  fonts : Lists model.fonts (named graph.node? (entriesOf graph node "/Font"))
    (model.catalog.resourcesAt index).fonts
  objects : Lists model.objects (named (drawn? graph) (entriesOf graph node "/XObject"))
    (model.catalog.resourcesAt index).objects

/-- The resources of a value are those of its dictionary; what is no dictionary has empty ones that
no dictionary has. -/
def Answers (graph : Graph α) (model : ResourceModel α) (value : Object α) (index : Nat) : Prop :=
  match graph.node? value with
  | some node => (node, index) ∈ model.dictionaries
  | none => index < model.catalog.resources.size ∧ index ∉ model.dictionaries.map (·.2)
    ∧ model.catalog.resourcesAt index = .empty

/-- The resources of a form are those of its own entry, and without such an entry it has none. -/
def OwnResources (graph : Graph α) (model : ResourceModel α) (stream : Nat) :
    Option Nat → Prop
  | some index => graph.hasEntry stream "/Resources" = true
    ∧ Answers graph model (graph.entry stream "/Resources") index
  | none => graph.hasEntry stream "/Resources" = false

/-- The external object of a stream is what the stream says it is. The forms that are `opened`
need not have their own resources yet. -/
def Stands (graph : Graph α) (opened : List Nat) (model : ResourceModel α) (stream : Nat) :
    ExternalObject → Prop
  | .picture p => graph.name? (graph.entry stream "/Subtype") = .ok (some (lit "Image"))
    ∧ ∃ name, picture graph p.key name stream = .ok p
  | .form index => graph.name? (graph.entry stream "/Subtype") = .ok (some (lit "Form"))
    ∧ ∃ form, model.catalog.forms[index]? = some form ∧ form.content = some stream
      ∧ (index ∉ opened → OwnResources graph model stream form.resources)

/-! ## Registers -/

/-- What tells an external object from others: the key of a picture, the index of a form. -/
def identity : ExternalObject → Nat ⊕ Nat
  | .picture p => .inl p.key
  | .form index => .inr index

/-- The identity is one of those that have been given out. -/
def Given (model : ResourceModel α) : Nat ⊕ Nat → Prop
  | .inl key => key < model.objects.length
  | .inr index => index < model.catalog.forms.size

omit [Scalar α] in
theorem Given.mono {model model' : ResourceModel α} {n : Nat ⊕ Nat} (h : Given model n)
    (hobjects : model.objects.length ≤ model'.objects.length)
    (hforms : model.catalog.forms.size ≤ model'.catalog.forms.size) : Given model' n := by
  cases n with
  | inl key => exact Nat.lt_of_lt_of_le h hobjects
  | inr index => exact Nat.lt_of_lt_of_le h hforms

/-- Every node is registered once, under an index or key of its own. -/
structure Registers (model : ResourceModel α) : Prop where
  dictionaries : (model.dictionaries.map (·.1)).Nodup
  indices : (model.dictionaries.map (·.2)).Nodup
  indices_lt : ∀ e ∈ model.dictionaries, e.2 < model.catalog.resources.size
  fonts : (model.fonts.map (·.1)).Nodup
  keys : model.fonts.map (·.2.key) = List.range model.fonts.length
  objects : (model.objects.map (·.1)).Nodup
  identities : (model.objects.map (identity ·.2)).Nodup
  given : ∀ e ∈ model.objects, Given model (identity e.2)

/-- Whatever is registered is built, except for the resources that are still `pending` and the forms
that are still `opened`. -/
structure Building (graph : Graph α) (pending opened : List Nat) (model : ResourceModel α) : Prop
    extends Registers model where
  filled : ∀ e ∈ model.dictionaries, e.2 ∉ pending → Filled graph model e.1 e.2
  stands : ∀ e ∈ model.objects, Stands graph opened model e.1 e.2

section

variable {graph : Graph α} {first later : ResourceModel α}

/-! ## What lasts -/

theorem Filled.of_eq {node index : Nat} (h : Filled graph first node index)
    (hfonts : first.fonts <+: later.fonts) (hobjects : first.objects <+: later.objects)
    (hsame : later.catalog.resourcesAt index = first.catalog.resourcesAt index) :
    Filled graph later node index where
  fonts := hsame ▸ h.fonts.mono hfonts
  objects := hsame ▸ h.objects.mono hobjects

omit [Scalar α] in
theorem Answers.extend {value : Object α} {index : Nat} (h : Answers graph first value index)
    (hextends : Extends first later) : Answers graph later value index := by
  unfold Answers at h ⊢
  cases hnode : graph.node? value with
  | some node =>
    rw [hnode] at h
    exact hextends.dictionaries.subset h
  | none =>
    rw [hnode] at h
    obtain ⟨hlt, hnew, hempty⟩ := h
    refine ⟨Nat.lt_of_lt_of_le hlt hextends.size_resources_le, fun hmem => ?_, ?_⟩
    · obtain ⟨e, he, rfl⟩ := List.mem_map.mp hmem
      rcases hextends.fresh e he with he | he
      · exact hnew (List.mem_map_of_mem he)
      · exact absurd hlt (Nat.not_lt.mpr he)
    · rw [hextends.resourcesAt_eq hlt]
      exact hempty

omit [Scalar α] in
theorem OwnResources.imp {stream : Nat} {resources : Option Nat}
    (h : OwnResources graph first stream resources)
    (hanswers : ∀ {value index}, Answers graph first value index →
      Answers graph later value index) : OwnResources graph later stream resources := by
  cases resources with
  | none => exact h
  | some index => exact h.imp_right hanswers

theorem Stands.imp {opened : List Nat} {stream : Nat} {object : ExternalObject}
    (h : Stands graph opened first stream object)
    (hforms : ∀ (i : Nat) form, first.catalog.forms[i]? = some form →
      later.catalog.forms[i]? = some form)
    (hanswers : ∀ {value index}, Answers graph first value index →
      Answers graph later value index) : Stands graph opened later stream object := by
  cases object with
  | picture p => exact h
  | form index =>
    obtain ⟨hsubtype, form, hform, hcontent, hown⟩ := h
    exact ⟨hsubtype, form, hforms index form hform, hcontent,
      fun hclosed => (hown hclosed).imp hanswers⟩

/-- A form may count as open whatever has become of it. -/
theorem Stands.mono {opened opened' : List Nat} {stream : Nat} {object : ExternalObject}
    (h : Stands graph opened first stream object) (hsubset : opened ⊆ opened') :
    Stands graph opened' first stream object := by
  cases object with
  | picture p => exact h
  | form index =>
    obtain ⟨hsubtype, form, hform, hcontent, hown⟩ := h
    exact ⟨hsubtype, form, hform, hcontent, fun hclosed => hown fun hmem => hclosed (hsubset hmem)⟩

variable {pending opened : List Nat}

/-! ## Steps -/

/-- Whatever was built before stands as it did, as long as the registers are still sound and what is
new in them stands as well. -/
theorem Building.extend (h : Building graph pending opened first) (hextends : Extends first later)
    (hregisters : Registers later)
    (hfilled : ∀ e ∈ later.dictionaries, e ∉ first.dictionaries → e.2 ∉ pending →
      Filled graph later e.1 e.2)
    (hstands : ∀ e ∈ later.objects, e ∉ first.objects → Stands graph opened later e.1 e.2) :
    Building graph pending opened later where
  toRegisters := hregisters
  filled e he hclosed := by
    by_cases hold : e ∈ first.dictionaries
    · exact (h.filled e hold hclosed).of_eq hextends.fonts hextends.objects
        (hextends.resourcesAt_eq (h.indices_lt e hold))
    · exact hfilled e he hold hclosed
  stands e he := by
    by_cases hold : e ∈ first.objects
    · exact (h.stands e hold).imp
        (fun i form hform => (hextends.forms i (Array.getElem?_eq_some_iff.mp hform).1).trans hform)
        fun hanswers => hanswers.extend hextends
    · exact hstands e he hold

omit [Scalar α] in
theorem nodup_map_concat {γ δ : Type} {g : γ → δ} {xs : List γ} (h : (xs.map g).Nodup) {x : γ}
    (hnew : g x ∉ xs.map g) : ((xs ++ [x]).map g).Nodup := by
  rw [List.map_append, List.map_singleton, ← List.concat_eq_append]
  exact h.concat hnew

/-- A dictionary that is registered has resources that are still to be filled. -/
theorem Building.registered (h : Building graph pending opened first) {node : Nat}
    (hnew : node ∉ first.dictionaries.map (·.1)) :
    Building graph (first.catalog.resources.size :: pending) opened (first.registered node) := by
  have hpending : Building graph (first.catalog.resources.size :: pending) opened first :=
    { h with filled := fun e he hclosed => h.filled e he fun hmem =>
        hclosed (List.mem_cons_of_mem _ hmem) }
  have hsize : (first.registered node).catalog.resources.size
      = first.catalog.resources.size + 1 := Array.size_push _
  refine hpending.extend (extends_registered first node) ?_ (fun e he hold hclosed => ?_)
    fun e he hold => absurd he hold
  · refine { h with
      dictionaries := nodup_map_concat h.dictionaries hnew
      indices := nodup_map_concat h.indices fun hmem => ?_
      indices_lt := List.forall_mem_append.mpr ⟨fun e he => ?_, ?_⟩ }
    · obtain ⟨e, he, hindex⟩ := List.mem_map.mp hmem
      exact absurd (h.indices_lt e he) (hindex ▸ Nat.lt_irrefl _)
    · rw [hsize]
      exact Nat.lt_succ_of_lt (h.indices_lt e he)
    · rw [List.forall_mem_singleton, hsize]
      exact Nat.lt_succ_self _
  · rcases List.mem_append.mp he with he | he
    · exact absurd he hold
    · rw [List.mem_singleton.mp he] at hclosed
      exact absurd List.mem_cons_self hclosed

omit [Scalar α] in
theorem resourcesAt_modify_of_ne {catalog : Catalog α} {index i : Nat} (hne : index ≠ i)
    (f : Resources α → Resources α) :
    ({ catalog with resources := catalog.resources.modify index f } : Catalog α).resourcesAt i
      = catalog.resourcesAt i := by
  simp only [Catalog.resourcesAt, Array.getD_eq_getD_getElem?, Array.getElem?_modify, if_neg hne]

omit [Scalar α] in
theorem resourcesAt_changeResources {model : ResourceModel α} {index : Nat}
    (hindex : index < model.catalog.resources.size) (f : Resources α → Resources α) :
    ((changeResources index f).run model).2.catalog.resourcesAt index
      = f (model.catalog.resourcesAt index) := by
  simp only [changeResources, Act.run_modify, Catalog.resourcesAt, Array.getD_eq_getD_getElem?,
    Array.getElem?_modify, if_pos, Array.getElem?_eq_getElem hindex]
  rfl

/-- Resources of a dictionary that are still to be filled may be changed. -/
theorem Building.changeResources (h : Building graph pending opened first) {node index : Nat}
    (hnode : (node, index) ∈ first.dictionaries) (hpending : index ∈ pending)
    (f : Resources α → Resources α) :
    Building graph pending opened ((changeResources index f).run first).2 := by
  have hanswers : ∀ {value i}, Answers graph first value i →
      Answers graph ((ResourceModel.changeResources index f).run first).2 value i := by
    intro value i hi
    unfold Answers at hi ⊢
    cases hvalue : graph.node? value with
    | some node =>
      rw [hvalue] at hi
      exact hi
    | none =>
      rw [hvalue] at hi
      obtain ⟨hlt, hnew, hempty⟩ := hi
      have hne : index ≠ i := fun heq => hnew (List.mem_map.mpr ⟨_, hnode, heq⟩)
      refine ⟨?_, hnew, (resourcesAt_modify_of_ne hne f).trans hempty⟩
      exact Nat.lt_of_lt_of_eq hlt (Array.size_modify).symm
  refine { h with
    indices_lt := fun e he => Nat.lt_of_lt_of_eq (h.indices_lt e he) (Array.size_modify).symm
    filled := fun e he hclosed => ?_
    stands := fun e he => ?_ }
  · have hne : index ≠ e.2 := fun heq => hclosed (heq ▸ hpending)
    exact (h.filled e he hclosed).of_eq (List.prefix_refl _) (List.prefix_refl _)
      (resourcesAt_modify_of_ne hne f)
  · exact (h.stands e he).imp (fun _ _ hform => hform) hanswers

/-- The font of a node is the one registered for it, and nothing else is touched. -/
theorem Building.font (h : Building graph pending opened first) {name : Text} {node : Nat}
    {f : Font α} (hrun : (font graph name node).run first = (.ok f, later)) :
    Building graph pending opened later ∧ (node, f) ∈ later.fonts
      ∧ first.fonts <+: later.fonts ∧ later.catalog = first.catalog
      ∧ later.dictionaries = first.dictionaries := by
  cases fontStep_of_run hrun with
  | known hknown => exact ⟨h, hknown, List.prefix_refl _, rfl, rfl⟩
  | decoded hnew hkey =>
    have hprefix : first.fonts <+: first.fonts ++ [(node, f)] := List.prefix_append _ _
    refine ⟨h.extend { Extends.refl first with
        fonts := hprefix
        decoders := List.prefix_append _ _ } ?_ (fun e he hold => absurd he hold)
      fun e he hold => absurd he hold, List.mem_append_right _ (List.mem_singleton_self _), hprefix,
      rfl, rfl⟩
    refine { h with
      fonts := nodup_map_concat h.fonts (notMem_of_lookup_eq_none hnew)
      keys := ?_ }
    rw [List.map_append, h.keys, List.length_append, List.length_singleton, List.range_succ,
      List.map_singleton, hkey]

/-- Filling in fonts lists those of the entries behind those listed before. -/
theorem Building.addFonts {node index : Nat} (hpending : index ∈ pending)
    (entries : List (Text × Object α)) :
    ∀ {first later : ResourceModel α}, Building graph pending opened first →
      (node, index) ∈ first.dictionaries →
      (addFonts graph index entries).run first = (.ok (), later) →
      Building graph pending opened later ∧ later.dictionaries = first.dictionaries
        ∧ first.fonts <+: later.fonts
        ∧ ∃ listed, Lists later.fonts (named graph.node? entries) listed
          ∧ later.catalog.resourcesAt index = { first.catalog.resourcesAt index with
            fonts := (first.catalog.resourcesAt index).fonts ++ listed } := by
  induction entries with
  | nil =>
    intro first later h _ hrun
    cases hrun
    exact ⟨h, rfl, List.prefix_refl _, [], .nil, by rw [List.append_nil]; rfl⟩
  | cons entry rest ih =>
    intro first later h hnode hrun
    obtain ⟨name, value⟩ := entry
    rw [ResourceModel.addFonts] at hrun
    cases hvalue : graph.node? value with
    | none =>
      rw [named_cons_of_none hvalue]
      rw [hvalue] at hrun
      exact ih h hnode hrun
    | some found =>
      rw [named_cons_of_some hvalue]
      simp only [hvalue] at hrun
      obtain ⟨f, model, hfont, hrun⟩ := Act.run_bind_eq_ok hrun
      obtain ⟨hmodel, hregistered, hfonts, hcatalog, hdictionaries⟩ := h.font hfont
      obtain ⟨⟨⟩, filled, hchange, hrun⟩ := Act.run_bind_eq_ok hrun
      obtain rfl : _ = filled := congrArg Prod.snd hchange
      have hnode' : (node, index) ∈ model.dictionaries := hdictionaries ▸ hnode
      obtain ⟨hlater, hsame, hmore, listed, hlists, hat⟩ :=
        ih (hmodel.changeResources hnode' hpending _) hnode' hrun
      refine ⟨hlater, hsame.trans hdictionaries, hfonts.trans hmore, (name, f) :: listed,
        .cons ⟨rfl, hmore.subset hregistered⟩ hlists, ?_⟩
      rw [hat, resourcesAt_changeResources (hmodel.indices_lt _ hnode'), hcatalog]
      simp only [List.append_assoc, List.singleton_append]

omit [Scalar α] in
/-- A stream that is not registered may be registered under an identity that is then given out. -/
theorem Registers.concat (h : Registers first) {stream : Nat} {object : ExternalObject}
    (hnew : stream ∉ first.objects.map (·.1)) (hfresh : ¬ Given first (identity object))
    (hdictionaries : later.dictionaries = first.dictionaries)
    (hsize : later.catalog.resources.size = first.catalog.resources.size)
    (hfonts : later.fonts = first.fonts)
    (hobjects : later.objects = first.objects ++ [(stream, object)])
    (hforms : first.catalog.forms.size ≤ later.catalog.forms.size)
    (hgiven : Given later (identity object)) : Registers later where
  dictionaries := hdictionaries ▸ h.dictionaries
  indices := hdictionaries ▸ h.indices
  indices_lt := by
    rw [hdictionaries, hsize]
    exact h.indices_lt
  fonts := hfonts ▸ h.fonts
  keys := hfonts ▸ h.keys
  objects := hobjects ▸ nodup_map_concat h.objects hnew
  identities := by
    rw [hobjects]
    refine nodup_map_concat h.identities fun hmem => ?_
    obtain ⟨e, he, hsame⟩ := List.mem_map.mp hmem
    exact hfresh (hsame ▸ h.given e he)
  given := by
    have hlonger : first.objects.length ≤ later.objects.length := by
      rw [hobjects, List.length_append]
      exact Nat.le_add_right _ _
    rw [hobjects]
    exact List.forall_mem_append.mpr ⟨fun e he => (h.given e he).mono hlonger hforms,
      List.forall_mem_singleton.mpr hgiven⟩

/-- A stream that is not registered may be registered as the picture that it is. -/
theorem Building.picture (h : Building graph pending opened first) {stream : Nat}
    (hnew : stream ∉ first.objects.map (·.1)) {p : PictureResource}
    (hkey : p.key = first.objects.length)
    (hstands : Stands graph opened first stream (.picture p)) :
    Building graph pending opened
      { first with objects := first.objects ++ [(stream, .picture p)] } := by
  have hfresh : ¬ Given first (identity (.picture p)) := Nat.not_lt.mpr (Nat.le_of_eq hkey.symm)
  refine h.extend { Extends.refl first with objects := List.prefix_append _ _ }
    (h.concat hnew hfresh rfl rfl rfl rfl (Nat.le_refl _) ?_) (fun e he hold => absurd he hold)
    fun e he hold => ?_
  · show p.key < (first.objects ++ [(stream, ExternalObject.picture p)]).length
    rw [hkey, List.length_append, List.length_singleton]
    exact Nat.lt_succ_self _
  · rcases List.mem_append.mp he with he | he
    · exact absurd he hold
    · rw [List.mem_singleton.mp he]
      exact hstands

/-- The model with a new form, registered for a stream. -/
def withForm (model : ResourceModel α) (name : Text) (matrix : Affine α) (stream : Nat) :
    ResourceModel α :=
  { model with
    catalog := { model.catalog with
      forms := model.catalog.forms.push ⟨name, matrix, none, some stream⟩ }
    objects := model.objects ++ [(stream, .form model.catalog.forms.size)] }

omit [Scalar α] in
theorem extends_withForm (model : ResourceModel α) (name : Text) (matrix : Affine α)
    (stream : Nat) : Extends model (model.withForm name matrix stream) :=
  { Extends.refl model with
    objects := List.prefix_append _ _
    forms := fun _ hi => (Array.getElem?_push_lt hi).trans (Array.getElem?_eq_getElem hi).symm }

/-- A stream that is not registered may be registered as the form that it is, and the form is open
then. -/
theorem Building.withForm (h : Building graph pending opened first) {stream : Nat}
    (hnew : stream ∉ first.objects.map (·.1))
    (hsubtype : graph.name? (graph.entry stream "/Subtype") = .ok (some (lit "Form")))
    (name : Text) (matrix : Affine α) :
    Building graph pending (first.catalog.forms.size :: opened)
      (first.withForm name matrix stream) := by
  have hopened : Building graph pending (first.catalog.forms.size :: opened) first :=
    { h with stands := fun e he => (h.stands e he).mono (List.subset_cons_self _ _) }
  have hsize : (first.withForm name matrix stream).catalog.forms.size
      = first.catalog.forms.size + 1 := Array.size_push _
  refine hopened.extend (extends_withForm first name matrix stream)
    (h.concat hnew (Nat.lt_irrefl _) rfl rfl rfl rfl (by omega) ?_)
    (fun e he hold => absurd he hold) fun e he hold => ?_
  · exact Nat.lt_of_lt_of_eq (Nat.lt_succ_self _) hsize.symm
  · rcases List.mem_append.mp he with he | he
    · exact absurd he hold
    · rw [List.mem_singleton.mp he]
      exact ⟨hsubtype, _, Array.getElem?_push_size, rfl,
        fun hclosed => absurd List.mem_cons_self hclosed⟩

/-- A form whose resources are what its own entry says is open no longer. -/
theorem Building.close {index : Nat} (h : Building graph pending (index :: opened) first)
    {stream : Nat} (hstream : (stream, .form index) ∈ first.objects)
    (hown : ∀ form, first.catalog.forms[index]? = some form →
      OwnResources graph first stream form.resources) :
    Building graph pending opened first := by
  refine { h with stands := fun e he => ?_ }
  have hstands := h.stands e he
  obtain ⟨node, object⟩ := e
  cases object with
  | picture p => exact hstands
  | form i =>
    obtain ⟨hsubtype, form, hform, hcontent, hclosed⟩ := hstands
    refine ⟨hsubtype, form, hform, hcontent, fun hi => ?_⟩
    by_cases heq : i = index
    · -- No other stream has this form.
      subst heq
      cases List.inj_on_of_nodup_map h.identities he hstream rfl
      exact hown form hform
    · exact hclosed (List.not_mem_cons_of_ne_of_not_mem heq hi)

/-- An open form may be given resources. -/
theorem Building.setFormResources {form : Nat} (h : Building graph pending (form :: opened) first)
    (index : Nat) :
    Building graph pending (form :: opened) ((setFormResources form index).run first).2 := by
  refine { h with
    given := fun e he => (h.given e he).mono (Nat.le_refl _) (Nat.le_of_eq Array.size_modify.symm)
    filled := fun e he hclosed =>
      (h.filled e he hclosed).of_eq (List.prefix_refl _) (List.prefix_refl _) rfl
    stands := fun e he => ?_ }
  have hstands := h.stands e he
  obtain ⟨node, object⟩ := e
  cases object with
  | picture p => exact hstands
  | form i =>
    obtain ⟨hsubtype, f, hform, hcontent, hclosed⟩ := hstands
    by_cases heq : form = i
    · have hgiven : some { f with resources := some index }
          = (first.catalog.forms.modify form fun f => { f with resources := some index })[i]? := by
        rw [Array.getElem?_modify, if_pos heq, hform]
        rfl
      exact ⟨hsubtype, _, hgiven.symm, hcontent,
        fun hmem => absurd (heq ▸ List.mem_cons_self) hmem⟩
    · have hkept : some f
          = (first.catalog.forms.modify form fun f => { f with resources := some index })[i]? := by
        rw [Array.getElem?_modify, if_neg heq, hform]
      exact ⟨hsubtype, f, hkept.symm, hcontent, fun hi => (hclosed hi).imp fun h => h⟩

/-- Whoever builds resources builds all that is registered on the way, as long as there is at most
that much to go. -/
def BuildsWithin (graph : Graph α) (left : Nat) (resources : Object α → Act (ResourceModel α) Nat) :
    Prop :=
  ∀ {pending opened : List Nat} {first later : ResourceModel α} {value : Object α} {index : Nat},
    (unbuilt graph first).length ≤ left → Building graph pending opened first →
      (resources value).run first = (.ok index, later) →
      Building graph pending opened later ∧ Answers graph later value index

theorem isDrawn_of_stands {model : ResourceModel α} {stream : Nat} {object : ExternalObject}
    (h : Stands graph opened model stream object) : isDrawn graph stream = true := by
  cases object with
  | picture p => exact isDrawn_of_subtype (.inl rfl) h.1
  | form index => exact isDrawn_of_subtype (.inr rfl) h.1

theorem key_of_picture {key stream : Nat} {name : Text} {p : PictureResource}
    (h : picture graph key name stream = .ok p) : p.key = key := by
  unfold picture at h
  simp only [bind, Except.bind, pure, Except.pure] at h
  repeat' split at h
  all_goals first | (cases h; rfl) | cases h

/-- What comes of a stream that is not registered yet, if nothing fails. -/
inductive Makes (graph : Graph α) (resources : Object α → Act (ResourceModel α) Nat) (key : Text)
    (stream : Nat) (first : ResourceModel α) : Option ExternalObject → ResourceModel α → Prop
  | other (hother : isDrawn graph stream = false) :
    Makes graph resources key stream first none first
  | picture {p : PictureResource}
    (hsubtype : graph.name? (graph.entry stream "/Subtype") = .ok (some (lit "Image")))
    (hpicture : picture graph first.objects.length (bareName key) stream = .ok p) :
    Makes graph resources key stream first (some (.picture p))
      { first with objects := first.objects ++ [(stream, .picture p)] }
  | plainForm {matrix : Affine α}
    (hsubtype : graph.name? (graph.entry stream "/Subtype") = .ok (some (lit "Form")))
    (hentry : graph.hasEntry stream "/Resources" = false) :
    Makes graph resources key stream first (some (.form first.catalog.forms.size))
      (first.withForm (bareName key) matrix stream)
  | form {matrix : Affine α} {index : Nat} {model : ResourceModel α}
    (hsubtype : graph.name? (graph.entry stream "/Subtype") = .ok (some (lit "Form")))
    (hentry : graph.hasEntry stream "/Resources" = true)
    (hresources : (resources (graph.entry stream "/Resources")).run
      (first.withForm (bareName key) matrix stream) = (.ok index, model)) :
    Makes graph resources key stream first (some (.form first.catalog.forms.size))
      ((ResourceModel.setFormResources first.catalog.forms.size index).run model).2

theorem makes_of_run_object {resources : Object α → Act (ResourceModel α) Nat} {key : Text}
    {stream : Nat} {found : Option ExternalObject}
    (hlookup : first.objects.lookup stream = none)
    (hrun : (object graph resources key stream).run first = (.ok found, later)) :
    Makes graph resources key stream first found later := by
  rw [ResourceModel.object, Act.run_bind_ok (Act.run_get first)] at hrun
  simp only [hlookup, newObject] at hrun
  obtain ⟨subtype, hsubtype, hrun⟩ := Act.run_ofExcept_bind_eq_ok hrun
  split at hrun
  next hpicture =>
    subst hpicture
    rw [Act.run_bind_ok (Act.run_get first)] at hrun
    obtain ⟨p, hp, hrun⟩ := Act.run_ofExcept_bind_eq_ok hrun
    cases hrun
    exact .picture hsubtype hp
  next hno =>
    split at hrun
    next hform =>
      subst hform
      obtain ⟨matrix, -, hrun⟩ := Act.run_ofExcept_bind_eq_ok hrun
      cases hentry : graph.hasEntry stream "/Resources" with
      | false =>
        simp only [hentry] at hrun
        cases hrun
        exact .plainForm hsubtype hentry
      | true =>
        simp only [hentry] at hrun
        replace hrun : (resources (graph.entry stream "/Resources") >>= fun index =>
          ResourceModel.setFormResources first.catalog.forms.size index >>= fun _ =>
            pure (some (.form first.catalog.forms.size))).run
              (first.withForm (bareName key) matrix stream) = (.ok found, later) := hrun
        obtain ⟨index, model, hresources, hrun⟩ := Act.run_bind_eq_ok hrun
        cases hrun
        exact .form hsubtype hentry hresources
    next hother =>
      cases hrun
      refine .other ?_
      rw [isDrawn, hsubtype]
      cases subtype with
      | none => rfl
      | some kind =>
        simp only [Option.some.injEq] at hno hother
        simp only [hno, hother, decide_false, Bool.or_false]

/-- The external object of a stream is the one registered for it, if the stream is a picture or a
form. -/
theorem Building.object {left : Nat} {resources : Object α → Act (ResourceModel α) Nat}
    (hbuilds : BuildsWithin graph left resources)
    (hextends : ∀ first value, (resources value).Keeps (Extends first))
    (h : Building graph pending opened first) (hleft : (unbuilt graph first).length ≤ left)
    {key : Text} {stream : Nat} {found : Option ExternalObject}
    (hrun : (object graph resources key stream).run first = (.ok found, later)) :
    Building graph pending opened later
      ∧ (∀ object, found = some object →
        isDrawn graph stream = true ∧ (stream, object) ∈ later.objects)
      ∧ (found = none → isDrawn graph stream = false) := by
  have hlisted : ∀ {model : ResourceModel α} {object : ExternalObject},
      Building graph pending opened model → (stream, object) ∈ model.objects →
      ∀ object', some object = some object' →
        isDrawn graph stream = true ∧ (stream, object') ∈ model.objects := by
    rintro model object hmodel hobject _ ⟨⟩
    exact ⟨isDrawn_of_stands (hmodel.stands _ hobject), hobject⟩
  cases hlookup : first.objects.lookup stream with
  | some known =>
    rw [ResourceModel.object, Act.run_bind_ok (Act.run_get first)] at hrun
    rw [hlookup] at hrun
    cases hrun
    exact ⟨h, hlisted h (Catalog.mem_of_lookup hlookup), fun hnone => by cases hnone⟩
  | none =>
    have hnew := notMem_of_lookup_eq_none hlookup
    cases makes_of_run_object hlookup hrun with
    | other hother => exact ⟨h, fun _ hsome => (by cases hsome), fun _ => hother⟩
    | picture hsubtype hp =>
      have hkey := key_of_picture hp
      have hlater := h.picture hnew hkey ⟨hsubtype, _, hkey ▸ hp⟩
      exact ⟨hlater, hlisted hlater (List.mem_append_right _ (List.mem_singleton_self _)),
        fun hnone => by cases hnone⟩
    | @plainForm matrix hsubtype hentry =>
      have hstream : (stream, .form first.catalog.forms.size)
          ∈ (first.withForm (bareName key) matrix stream).objects :=
        List.mem_append_right _ (List.mem_singleton_self _)
      have hlater := (h.withForm hnew hsubtype (bareName key) matrix).close hstream
        fun form hform => by
          cases Array.getElem?_push_size.symm.trans hform
          exact hentry
      exact ⟨hlater, hlisted hlater hstream, fun hnone => by cases hnone⟩
    | @form matrix index model hsubtype hentry hresources =>
      have hmodel := h.withForm hnew hsubtype (bareName key) matrix
      have hstream : (stream, .form first.catalog.forms.size)
          ∈ (first.withForm (bareName key) matrix stream).objects :=
        List.mem_append_right _ (List.mem_singleton_self _)
      have hleft' :
          (unbuilt graph (first.withForm (bareName key) matrix stream)).length ≤ left := hleft
      obtain ⟨hbuilt, hanswers⟩ := hbuilds hleft' hmodel hresources
      have hlasts := hextends (first.withForm (bareName key) matrix stream)
        (graph.entry stream "/Resources") _ (.refl _)
      rw [hresources] at hlasts
      have hstream' := hlasts.objects.subset hstream
      have hlater := (hbuilt.setFormResources index).close hstream' fun form hform => by
        obtain ⟨form, -, rfl⟩ := Option.map_eq_some_iff.mp
          ((Array.getElem?_modify.trans (if_pos rfl)).symm.trans hform)
        exact ⟨hentry, hanswers⟩
      exact ⟨hlater, hlisted hlater hstream', fun hnone => by cases hnone⟩

/-- Filling in external objects lists the pictures and forms among the entries behind those listed
before. -/
theorem Building.addObjects {left : Nat} {resources : Object α → Act (ResourceModel α) Nat}
    (hextends : ∀ first value, (resources value).Keeps (Extends first)) {node index : Nat}
    (hpending : index ∈ pending) (entries : List (Text × Object α)) :
    ∀ {first later : ResourceModel α}, Building graph pending opened first →
      (entries = [] ∨ BuildsWithin graph left resources ∧ (unbuilt graph first).length ≤ left) →
      (node, index) ∈ first.dictionaries →
      (addObjects graph resources index entries).run first = (.ok (), later) →
      Building graph pending opened later ∧ first.dictionaries <+: later.dictionaries
        ∧ first.fonts <+: later.fonts ∧ first.objects <+: later.objects
        ∧ ∃ listed, Lists later.objects (named (drawn? graph) entries) listed
          ∧ later.catalog.resourcesAt index = { first.catalog.resourcesAt index with
            objects := (first.catalog.resourcesAt index).objects ++ listed } := by
  induction entries with
  | nil =>
    intro first later h _ _ hrun
    cases hrun
    exact ⟨h, List.prefix_refl _, List.prefix_refl _, List.prefix_refl _, [], .nil,
      by rw [List.append_nil]; rfl⟩
  | cons entry rest ih =>
    intro first later h hempty hnode hrun
    obtain ⟨hbuilds, hleft⟩ := hempty.resolve_left (List.cons_ne_nil _ _)
    obtain ⟨name, value⟩ := entry
    rw [ResourceModel.addObjects] at hrun
    cases hvalue : graph.stream? value with
    | none =>
      rw [named_cons_of_none (by rw [drawn?, hvalue]; rfl)]
      rw [hvalue] at hrun
      exact ih h (.inr ⟨hbuilds, hleft⟩) hnode hrun
    | some stream =>
      simp only [hvalue] at hrun
      obtain ⟨found, model, hobject, hrun⟩ := Act.run_bind_eq_ok hrun
      obtain ⟨hmodel, hsome, hnone⟩ := h.object hbuilds hextends hleft hobject
      have hlasts := extends_object graph (hextends first) name stream first (.refl first)
      rw [hobject] at hlasts
      have hnode' := hlasts.dictionaries.subset hnode
      have hleft' := Nat.le_trans (hlasts.length_unbuilt_le graph) hleft
      have hat := hlasts.resourcesAt_eq (h.indices_lt _ hnode)
      cases found with
      | none =>
        have hother : drawn? graph value = none := by
          rw [drawn?, hvalue, Option.filter_some, hnone rfl]
          rfl
        rw [named_cons_of_none hother]
        obtain ⟨hlater, hdictionaries, hfonts, hobjects, listed, hlists, hfilled⟩ :=
          ih hmodel (.inr ⟨hbuilds, hleft'⟩) hnode' hrun
        exact ⟨hlater, hlasts.dictionaries.trans hdictionaries, hlasts.fonts.trans hfonts,
          hlasts.objects.trans hobjects, listed, hlists, hat ▸ hfilled⟩
      | some object =>
        obtain ⟨hdrawn, hregistered⟩ := hsome object rfl
        rw [named_cons_of_some (by rw [drawn?, hvalue, Option.filter_some, if_pos hdrawn])]
        obtain ⟨⟨⟩, filled, hchange, hrun⟩ := Act.run_bind_eq_ok hrun
        obtain rfl : _ = filled := congrArg Prod.snd hchange
        obtain ⟨hlater, hdictionaries, hfonts, hobjects, listed, hlists, hfilled⟩ :=
          ih (hmodel.changeResources hnode' hpending _) (.inr ⟨hbuilds, hleft'⟩) hnode' hrun
        refine ⟨hlater, hlasts.dictionaries.trans hdictionaries, hlasts.fonts.trans hfonts,
          hlasts.objects.trans hobjects, (name, object) :: listed,
          .cons ⟨rfl, hobjects.subset hregistered⟩ hlists, ?_⟩
        rw [hfilled, resourcesAt_changeResources (hmodel.indices_lt _ hnode'), hat]
        simp only [List.append_assoc, List.singleton_append]

/-- Resources that list what their dictionary does are pending no longer. -/
theorem Building.fill {node index : Nat} (h : Building graph (index :: pending) opened first)
    (hnode : (node, index) ∈ first.dictionaries) (hfilled : Filled graph first node index) :
    Building graph pending opened first := by
  refine { h with filled := fun e he hclosed => ?_ }
  by_cases heq : e.2 = index
  · -- No other dictionary has these resources.
    cases List.inj_on_of_nodup_map h.indices he hnode heq
    exact hfilled
  · exact h.filled e he (List.not_mem_cons_of_ne_of_not_mem heq hclosed)

omit [Scalar α] in
theorem resourcesAt_push_size (catalog : Catalog α) :
    ({ catalog with resources := catalog.resources.push .empty } : Catalog α).resourcesAt
      catalog.resources.size = .empty := by
  simp only [Catalog.resourcesAt, Array.getD_eq_getD_getElem?, Array.getElem?_push_size]
  rfl

/-- What is no dictionary is given resources of which no dictionary knows. -/
theorem Building.newResources (h : Building graph pending opened first) {index : Nat}
    (hrun : newResources.run first = (.ok index, later)) :
    Building graph pending opened later ∧ index < later.catalog.resources.size
      ∧ index ∉ later.dictionaries.map (·.2) ∧ later.catalog.resourcesAt index = .empty := by
  have hlasts : Extends first (ResourceModel.newResources.run first).2 :=
    (extends_newResources first (.refl first)).1
  rw [hrun] at hlasts
  cases hrun
  have hsize : (first.catalog.resources.push Resources.empty).size
      = first.catalog.resources.size + 1 := Array.size_push _
  refine ⟨h.extend hlasts { h with indices_lt := fun e he => ?_ } (fun e he hold => absurd he hold)
    fun e he hold => absurd he hold, ?_, fun hmem => ?_, resourcesAt_push_size first.catalog⟩
  · exact Nat.lt_of_lt_of_le (h.indices_lt e he) hlasts.size_resources_le
  · exact Nat.lt_of_lt_of_eq (Nat.lt_succ_self _) hsize.symm
  · obtain ⟨e, he, heq⟩ := List.mem_map.mp hmem
    exact absurd (h.indices_lt e he) (heq ▸ Nat.lt_irrefl _)

/-- A value's resources are built with all that they lead to. -/
theorem buildsWithin_buildWithin (graph : Graph α) (depth : Nat) :
    ∀ left < depth, BuildsWithin graph left (buildWithin graph depth) := by
  induction depth with
  | zero => exact fun left h => absurd h (Nat.not_lt_zero _)
  | succ depth ih =>
    intro left hleft pending opened first later value index hfirst h hrun
    cases hvalue : graph.node? value with
    | none =>
      rw [run_buildWithin_of_other hvalue] at hrun
      obtain ⟨hlater, hanswers⟩ := h.newResources hrun
      refine ⟨hlater, ?_⟩
      rw [Answers, hvalue]
      exact hanswers
    | some node =>
      rw [Answers, hvalue]
      cases hlookup : first.dictionaries.lookup node with
      | some known =>
        rw [run_buildWithin_of_known hvalue hlookup] at hrun
        cases hrun
        exact ⟨h, Catalog.mem_of_lookup hlookup⟩
      | none =>
        rw [run_buildWithin_of_new hvalue hlookup] at hrun
        have hnew := notMem_of_lookup_eq_none hlookup
        have hnode : (node, first.catalog.resources.size) ∈ (first.registered node).dictionaries :=
          List.mem_append_right _ (List.mem_singleton_self _)
        obtain ⟨⟨⟩, model, hfonts, hrun⟩ := Act.run_bind_eq_ok hrun
        obtain ⟨⟨⟩, model', hobjects, hrun⟩ := Act.run_bind_eq_ok hrun
        cases hrun
        obtain ⟨hmodel, hsame, -, fonts, hlistsFonts, hatFonts⟩ :=
          (h.registered hnew).addFonts List.mem_cons_self _ hnode hfonts
        have hunbuilt : unbuilt graph model = unbuilt graph (first.registered node) := by
          rw [unbuilt, unbuilt, hsame]
        have hempty : entriesOf graph node "/XObject" = []
            ∨ BuildsWithin graph (unbuilt graph model).length (buildWithin graph depth)
              ∧ (unbuilt graph model).length ≤ (unbuilt graph model).length := by
          by_cases hrange : node < graph.nodes.size
          · have hless := length_unbuilt_lt hrange hnew
            exact .inr ⟨ih _ (by rw [hunbuilt]; omega), Nat.le_refl _⟩
          · exact .inl (entriesOf_of_size_le (Nat.le_of_not_lt hrange) _)
        obtain ⟨hlater, hkept, hmore, -, objects, hlistsObjects, hatObjects⟩ :=
          hmodel.addObjects (fun _ => extends_buildWithin graph depth) List.mem_cons_self _ hempty
            (hsame ▸ hnode) hobjects
        have hnode' := hkept.subset (hsame ▸ hnode)
        have hstart : (first.registered node).catalog.resourcesAt first.catalog.resources.size
            = .empty := resourcesAt_push_size first.catalog
        rw [hatFonts, hstart] at hatObjects
        refine ⟨hlater.fill hnode' ⟨?_, ?_⟩, hnode'⟩
        · rw [hatObjects]
          exact hlistsFonts.mono hmore
        · rw [hatObjects]
          exact hlistsObjects

theorem building_start (graph : Graph α) : Building graph [] [] {} where
  dictionaries := List.nodup_nil
  indices := List.nodup_nil
  indices_lt _ he := absurd he List.not_mem_nil
  fonts := List.nodup_nil
  keys := rfl
  objects := List.nodup_nil
  identities := List.nodup_nil
  given _ he := absurd he List.not_mem_nil
  filled _ he := absurd he List.not_mem_nil
  stands _ he := absurd he List.not_mem_nil

theorem building_build (h : Building graph [] [] first) {value : Object α} {index : Nat}
    (hrun : (build graph value).run first = (.ok index, later)) :
    Building graph [] [] later ∧ Answers graph later value index := by
  exact buildsWithin_buildWithin graph _ graph.nodes.size (Nat.lt_succ_self _)
    (length_unbuilt_le_size graph first) h hrun

/-- What there was before any number of calls stays as it is, and if the last of them fails as
well. -/
theorem extends_mapM_build (graph : Graph α) (values : List (Object α)) :
    (values.mapM (build graph)).Keeps (Extends first) := by
  induction values with
  | nil => exact .pure _
  | cons value rest ih =>
    rw [List.mapM_cons]
    exact .bind (extends_buildWithin graph _ value) fun _ => .bind ih fun _ => .pure _

/-- After any number of calls that succeed, each has its answer. -/
theorem building_mapM_build {values : List (Object α)} :
    ∀ {first later : ResourceModel α} {indices : List Nat}, Building graph [] [] first →
      (values.mapM (build graph)).run first = (.ok indices, later) →
      Building graph [] [] later ∧ List.Forall₂ (Answers graph later) values indices := by
  induction values with
  | nil =>
    intro first later indices h hrun
    rw [List.mapM_nil] at hrun
    cases hrun
    exact ⟨h, .nil⟩
  | cons value rest ih =>
    intro first later indices h hrun
    rw [List.mapM_cons] at hrun
    obtain ⟨index, model, hvalue, hrun⟩ := Act.run_bind_eq_ok hrun
    obtain ⟨others, model', hrest, hrun⟩ := Act.run_bind_eq_ok hrun
    cases hrun
    obtain ⟨hmodel, hanswers⟩ := building_build h hvalue
    have hlasts := extends_mapM_build graph rest model (.refl model)
    rw [hrest] at hlasts
    obtain ⟨hlater, hothers⟩ := ih hmodel hrest
    exact ⟨hlater, .cons (hanswers.extend hlasts) hothers⟩

/-- Each dictionary, font and stream has a model of its own, and no two have the same. Resources and
forms are told apart by their indices, fonts and pictures by their keys. -/
structure OneEach (model : ResourceModel α) : Prop where
  resources : ∀ e ∈ model.dictionaries, ∀ e' ∈ model.dictionaries, e.1 = e'.1 ↔ e.2 = e'.2
  fonts : ∀ e ∈ model.fonts, ∀ e' ∈ model.fonts,
    (e.1 = e'.1 → e.2 = e'.2) ∧ (e.2.key = e'.2.key → e.1 = e'.1)
  objects : ∀ e ∈ model.objects, ∀ e' ∈ model.objects,
    (e.1 = e'.1 → e.2 = e'.2) ∧ (identity e.2 = identity e'.2 → e.1 = e'.1)

omit [Scalar α] in
theorem Registers.oneEach (h : Registers first) : OneEach first where
  resources e he e' he' :=
    ⟨fun heq => congrArg Prod.snd (List.inj_on_of_nodup_map h.dictionaries he he' heq),
      fun heq => congrArg Prod.fst (List.inj_on_of_nodup_map h.indices he he' heq)⟩
  fonts e he e' he' := by
    have hkeys : (first.fonts.map (·.2.key)).Nodup := by
      rw [h.keys]
      exact List.nodup_range
    exact ⟨fun heq => congrArg Prod.snd (List.inj_on_of_nodup_map h.fonts he he' heq),
      fun heq => congrArg Prod.fst (List.inj_on_of_nodup_map hkeys he he' heq)⟩
  objects e he e' he' :=
    ⟨fun heq => congrArg Prod.snd (List.inj_on_of_nodup_map h.objects he he' heq),
      fun heq => congrArg Prod.fst (List.inj_on_of_nodup_map h.identities he he' heq)⟩

end

/-- However the objects of a document refer to each other, and whatever resources have been asked
for: each dictionary, font and stream has one model and keeps it, what a call answers are the
resources of its dictionary, the resources of a dictionary list exactly its fonts and its pictures
and forms, a picture is what its own stream says, and a form has the resources of its own entry. How
deep the building goes decides nothing, so that it ends by itself, and what there is after the calls
stays as it is whatever is asked for then. -/
theorem resources_shared (graph : Graph α) (values : List (Object α)) {indices : List Nat}
    {model : ResourceModel α}
    (hrun : (values.mapM (build graph)).run {} = (.ok indices, model)) :
    (∀ depth value, graph.nodes.size < depth →
        buildWithin graph depth value = build graph value)
      ∧ OneEach model
      ∧ List.Forall₂ (Answers graph model) values indices
      ∧ (∀ node index, (node, index) ∈ model.dictionaries → Filled graph model node index)
      ∧ (∀ stream p, (stream, .picture p) ∈ model.objects →
        graph.name? (graph.entry stream "/Subtype") = .ok (some (lit "Image"))
          ∧ ∃ name, picture graph p.key name stream = .ok p)
      ∧ (∀ stream index, (stream, .form index) ∈ model.objects →
        graph.name? (graph.entry stream "/Subtype") = .ok (some (lit "Form"))
          ∧ ∃ form, model.catalog.forms[index]? = some form ∧ form.content = some stream
            ∧ OwnResources graph model stream form.resources)
      ∧ ∀ more : List (Object α), Extends model ((more.mapM (build graph)).run model).2 := by
  obtain ⟨hbuilding, hanswers⟩ := building_mapM_build (building_start graph) hrun
  refine ⟨fun depth value hdepth => buildWithin_eq_build graph hdepth value,
    hbuilding.oneEach, hanswers, fun node index hnode => ?_, fun stream p hstream => ?_,
    fun stream index hstream => ?_, fun more => extends_mapM_build graph more model (.refl model)⟩
  · exact hbuilding.filled _ hnode List.not_mem_nil
  · exact hbuilding.stands _ hstream
  · obtain ⟨hsubtype, form, hform, hcontent, hown⟩ := hbuilding.stands _ hstream
    exact ⟨hsubtype, form, hform, hcontent, hown List.not_mem_nil⟩

/-- Resources with a font, a form that has the same resources again, and two streams with the same
picture in them, one of which is listed twice. -/
def loopGraph : Graph ℚ where
  nodes := #[
    { entries := [(lit "/Font", .node 1), (lit "/XObject", .node 2)] },
    { entries := [(lit "/F", .node 3)] },
    { entries := [(lit "/Fm", .node 4), (lit "/A", .node 5), (lit "/B", .node 6),
        (lit "/C", .node 5)] },
    { entries := [] },
    { entries := [(lit "/Subtype", .ofText (lit "/Form")), (lit "/Resources", .reference 1)]
      isStream := true },
    { entries := [(lit "/Subtype", .ofText (lit "/Image"))], isStream := true },
    { entries := [(lit "/Subtype", .ofText (lit "/Image"))], isStream := true }]
  objects := [(1, .node 0)]

/-- Asked for twice, the resources are the same, and their form leads back to them. Pictures that
look alike are two if they come from two streams. -/
theorem resources_shared_loop : ∃ model p q,
    ([Object.reference 1, .node 0].mapM (build loopGraph)).run {} = (.ok [0, 0], model)
      ∧ model.objects = [(4, .form 0), (5, .picture p), (6, .picture q)]
      ∧ OneEach model ∧ Filled loopGraph model 0 0
      ∧ (∃ form, model.catalog.forms[0]? = some form
        ∧ OwnResources loopGraph model 4 form.resources)
      ∧ p.key ≠ q.key ∧ (∃ name, picture loopGraph p.key name 5 = .ok p)
      ∧ ∃ name, picture loopGraph q.key name 6 = .ok q := by
  have hrun : ([Object.reference 1, .node 0].mapM (build loopGraph)).run {}
      = (.ok [0, 0], (([Object.reference 1, .node 0].mapM (build loopGraph)).run {}).2) :=
    Prod.ext rfl rfl
  generalize hmodel : (([Object.reference 1, .node 0].mapM (build loopGraph)).run {}).2 = model
    at hrun
  obtain ⟨p, q, hobjects⟩ : ∃ p q,
      model.objects = [(4, .form 0), (5, .picture p), (6, .picture q)] := by
    rw [← hmodel]
    exact ⟨_, _, rfl⟩
  have hnode : (0, 0) ∈ model.dictionaries := by
    rw [← hmodel]
    exact List.mem_singleton_self _
  have hlisted : (4, .form 0) ∈ model.objects ∧ (5, .picture p) ∈ model.objects
      ∧ (6, .picture q) ∈ model.objects := by
    rw [hobjects]
    exact ⟨List.mem_cons_self, List.mem_cons_of_mem _ List.mem_cons_self,
      List.mem_cons_of_mem _ (List.mem_cons_of_mem _ List.mem_cons_self)⟩
  obtain ⟨hfm, hp, hq⟩ := hlisted
  obtain ⟨-, heach, -, hfilled, hpictures, hforms, -⟩ := resources_shared loopGraph _ hrun
  obtain ⟨-, form, hform, -, hown⟩ := hforms 4 0 hfm
  refine ⟨model, p, q, hrun, hobjects, heach, hfilled 0 0 hnode, ⟨form, hform, hown⟩, fun hkey => ?_,
    (hpictures 5 p hp).2, (hpictures 6 q hq).2⟩
  -- With one key they would come from one stream.
  cases (heach.objects _ hp _ hq).2 (congrArg Sum.inl hkey)

end Pdf.ResourceModel

end Folio
