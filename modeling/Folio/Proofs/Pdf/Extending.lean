import Folio.Proofs.Pdf.Sharing

/-!
# Models only grow

Whatever is built and however it ends, what has been built before stays as it is: the registers get
longer at their ends, and resources and forms that were there are not touched any more (`Extends`,
`extends_buildWithin`). For resources are filled by the call that has made them, and a form gets
resources of its own from the call that has made the form.

The building of resources counts how deep it is, but the count never decides anything. Every call
within a call registers one more dictionary, so there are fewer left that are not registered
(`unbuilt`), and with none of them left there is nothing to go into (`buildWithin_eq_build`).
-/

namespace Folio.Pdf.ResourceModel

variable {α : Type}

/-- What is in the first model is in the later one, and there it is the same. -/
structure Extends (first later : ResourceModel α) : Prop where
  dictionaries : first.dictionaries <+: later.dictionaries
  /-- Dictionaries that are new have new resources. -/
  fresh : ∀ e ∈ later.dictionaries, e ∈ first.dictionaries ∨ first.catalog.resources.size ≤ e.2
  fonts : first.fonts <+: later.fonts
  decoders : first.decoders <+: later.decoders
  objects : first.objects <+: later.objects
  resources : ∀ i < first.catalog.resources.size,
    later.catalog.resources[i]? = first.catalog.resources[i]?
  forms : ∀ i < first.catalog.forms.size, later.catalog.forms[i]? = first.catalog.forms[i]?

theorem size_le_of_getElem? {β : Type} {xs ys : Array β} (h : ∀ i < xs.size, ys[i]? = xs[i]?) :
    xs.size ≤ ys.size := by
  by_contra hlt
  have hsame := h ys.size (by omega)
  rw [Array.getElem?_eq_none (Nat.le_refl _), Array.getElem?_eq_getElem (by omega)] at hsame
  cases hsame

namespace Extends

variable {first model later : ResourceModel α}

theorem refl (model : ResourceModel α) : Extends model model :=
  ⟨List.prefix_refl _, fun _ he => .inl he, List.prefix_refl _, List.prefix_refl _,
    List.prefix_refl _, fun _ _ => rfl, fun _ _ => rfl⟩

/-- To follow the dictionaries alone, it is enough to begin with them. -/
theorem of_dictionaries (model : ResourceModel α) :
    Extends { dictionaries := model.dictionaries } model :=
  ⟨List.prefix_refl _, fun _ he => .inl he, List.nil_prefix, List.nil_prefix, List.nil_prefix,
    fun _ h => absurd h (Nat.not_lt_zero _), fun _ h => absurd h (Nat.not_lt_zero _)⟩

theorem size_resources_le (h : Extends first later) :
    first.catalog.resources.size ≤ later.catalog.resources.size := size_le_of_getElem? h.resources

theorem size_forms_le (h : Extends first later) :
    first.catalog.forms.size ≤ later.catalog.forms.size := size_le_of_getElem? h.forms

theorem resourcesAt_eq (h : Extends first later) {i : Nat}
    (hi : i < first.catalog.resources.size) :
    later.catalog.resourcesAt i = first.catalog.resourcesAt i := by
  simp only [Catalog.resourcesAt, Array.getD_eq_getD_getElem?, h.resources i hi]

end Extends

/-! ## Steps -/

section

variable {first : ResourceModel α}

theorem extends_newResources :
    (newResources : Act (ResourceModel α) Nat).Yields (Extends first)
      fun index => first.catalog.resources.size ≤ index := by
  intro model h
  refine ⟨{ h with resources := fun i hi => ?_ }, ?_⟩
  · exact (Array.getElem?_push_lt (Nat.lt_of_lt_of_le hi h.size_resources_le)).trans (by
      rw [← Array.getElem?_eq_getElem, h.resources i hi])
  · rintro index ⟨⟩
    exact h.size_resources_le

/-- Resources that are new may be changed. -/
theorem extends_changeResources {index : Nat} (hnew : first.catalog.resources.size ≤ index)
    (f : Resources α → Resources α) : (changeResources index f).Keeps (Extends first) := by
  refine .modify fun model h => { h with resources := fun i hi => ?_ }
  exact (Array.getElem?_modify.trans (if_neg (by omega))).trans (h.resources i hi)

theorem extends_registerDictionary (node : Nat) {index : Nat}
    (hnew : first.catalog.resources.size ≤ index) :
    (modify fun model => { model with dictionaries := model.dictionaries ++ [(node, index)] } :
      Act (ResourceModel α) Unit).Keeps (Extends first) := by
  refine .modify fun model h => { h with
    dictionaries := h.dictionaries.trans (List.prefix_append _ _)
    fresh := List.forall_mem_append.mpr ⟨h.fresh, List.forall_mem_singleton.mpr (.inr hnew)⟩ }

theorem extends_newForm (name : Text) (matrix : Affine α) (stream : Nat) :
    (newForm name matrix stream).Yields (Extends first)
      fun form => first.catalog.forms.size ≤ form := by
  intro model h
  refine ⟨{ h with forms := fun i hi => ?_ }, ?_⟩
  · exact (Array.getElem?_push_lt (Nat.lt_of_lt_of_le hi h.size_forms_le)).trans (by
      rw [← Array.getElem?_eq_getElem, h.forms i hi])
  · rintro form ⟨⟩
    exact h.size_forms_le

/-- A form that is new may be given resources. -/
theorem extends_setFormResources {form : Nat} (hnew : first.catalog.forms.size ≤ form)
    (index : Nat) :
    (setFormResources form index : Act (ResourceModel α) Unit).Keeps (Extends first) := by
  refine .modify fun model h => { h with forms := fun i hi => ?_ }
  exact (Array.getElem?_modify.trans (if_neg (by omega))).trans (h.forms i hi)

theorem extends_register (stream : Nat) (object : ExternalObject) :
    (register stream object : Act (ResourceModel α) Unit).Keeps (Extends first) :=
  .modify fun _ h => { h with objects := h.objects.trans (List.prefix_append _ _) }

variable [Scalar α]

theorem extends_font (graph : Graph α) (name : Text) (node : Nat) :
    (font graph name node).Keeps (Extends first) := by
  refine .bind .get fun model => ?_
  split
  · exact .pure _
  · refine .bind (.ofExcept _) fun _ => .bind (.ofExcept _) fun _ => .bind (.modify ?_) fun _ =>
      .bind (.ofExcept _) fun _ => .bind (.modify ?_) fun _ => .pure _
    · exact fun _ h => { h with fonts := h.fonts.trans (List.prefix_append _ _) }
    · exact fun _ h => { h with decoders := h.decoders.trans (List.prefix_append _ _) }

theorem extends_addFonts (graph : Graph α) {index : Nat}
    (hnew : first.catalog.resources.size ≤ index) (entries : List (Text × Object α)) :
    (addFonts graph index entries).Keeps (Extends first) := by
  induction entries with
  | nil => exact .pure _
  | cons entry rest ih =>
    obtain ⟨name, value⟩ := entry
    rw [addFonts]
    cases graph.node? value with
    | none => exact ih
    | some node =>
      exact .bind (extends_font graph name node) fun _ =>
        .bind (extends_changeResources hnew _) fun _ => ih

theorem extends_object (graph : Graph α) {resources : Object α → Act (ResourceModel α) Nat}
    (hresources : ∀ value, (resources value).Keeps (Extends first)) (key : Text) (stream : Nat) :
    (object graph resources key stream).Keeps (Extends first) := by
  refine .bind .get fun model => ?_
  split
  · exact .pure _
  · refine .bind (.ofExcept _) fun subtype => ?_
    split
    · exact .bind .get fun _ => .bind (.ofExcept _) fun _ => .bind (extends_register _ _) fun _ =>
        .pure _
    · split
      · refine .bind (.ofExcept _) fun _ => Act.Yields.keeps (.bind (extends_newForm _ _ _)
          fun form hnew => .of_keeps (.bind (extends_register _ _) fun _ => ?_))
        split
        · exact .bind (hresources _) fun _ =>
            .bind (extends_setFormResources hnew _) fun _ => .pure _
        · exact .pure _
      · exact .pure _

theorem extends_addObjects (graph : Graph α) {resources : Object α → Act (ResourceModel α) Nat}
    (hresources : ∀ value, (resources value).Keeps (Extends first)) {index : Nat}
    (hnew : first.catalog.resources.size ≤ index) (entries : List (Text × Object α)) :
    (addObjects graph resources index entries).Keeps (Extends first) := by
  induction entries with
  | nil => exact .pure _
  | cons entry rest ih =>
    obtain ⟨name, value⟩ := entry
    rw [addObjects]
    cases graph.stream? value with
    | none => exact ih
    | some stream =>
      refine .bind (extends_object graph hresources name stream) fun found => ?_
      cases found with
      | none => exact ih
      | some object => exact .bind (extends_changeResources hnew _) fun _ => ih

/-- Whatever is built and however it ends, what there was stays as it is. -/
theorem extends_buildWithin (graph : Graph α) (depth : Nat) :
    ∀ value, (buildWithin graph depth value).Keeps (Extends first) := by
  induction depth with
  | zero => exact fun _ => extends_newResources.keeps
  | succ depth ih =>
    intro value
    rw [buildWithin]
    split
    · exact extends_newResources.keeps
    · refine .bind .get fun model => ?_
      split
      · exact .pure _
      · exact Act.Yields.keeps (.bind extends_newResources fun index hnew => .of_keeps
          (.bind (extends_registerDictionary _ hnew) fun _ =>
            .bind (extends_addFonts graph hnew _) fun _ =>
              .bind (extends_addObjects graph ih hnew _) fun _ => .pure _))

end

/-! ## How deep it goes -/

/-- The dictionaries that are not registered. -/
def unbuilt (graph : Graph α) (model : ResourceModel α) : List Nat :=
  (List.range graph.nodes.size).filter fun node => node ∉ model.dictionaries.map (·.1)

theorem length_unbuilt_le_size (graph : Graph α) (model : ResourceModel α) :
    (unbuilt graph model).length ≤ graph.nodes.size := by
  have h := List.length_filter_le (fun node => decide (node ∉ model.dictionaries.map (·.1)))
    (List.range graph.nodes.size)
  rwa [List.length_range] at h

theorem Extends.length_unbuilt_le {first later : ResourceModel α} (h : Extends first later)
    (graph : Graph α) : (unbuilt graph later).length ≤ (unbuilt graph first).length := by
  refine (List.monotone_filter_right _ fun node hnode => ?_).length_le
  rw [decide_eq_true_iff] at hnode ⊢
  exact fun hmem => hnode ((h.dictionaries.map (·.1)).subset hmem)

/-- The model in which a dictionary has been registered, with resources that are still empty. -/
def registered (model : ResourceModel α) (node : Nat) : ResourceModel α :=
  { model with
    catalog := { model.catalog with resources := model.catalog.resources.push .empty }
    dictionaries := model.dictionaries ++ [(node, model.catalog.resources.size)] }

theorem extends_registered (model : ResourceModel α) (node : Nat) :
    Extends model (model.registered node) where
  dictionaries := List.prefix_append _ _
  fresh := List.forall_mem_append.mpr
    ⟨fun _ he => .inl he, List.forall_mem_singleton.mpr (.inr (Nat.le_refl _))⟩
  fonts := List.prefix_refl _
  decoders := List.prefix_refl _
  objects := List.prefix_refl _
  resources _ hi := (Array.getElem?_push_lt hi).trans (Array.getElem?_eq_getElem hi).symm
  forms _ _ := rfl

/-- With every dictionary that is registered there is one less to go. -/
theorem length_unbuilt_lt {graph : Graph α} {model : ResourceModel α} {node : Nat}
    (hnode : node < graph.nodes.size) (hnew : node ∉ model.dictionaries.map (·.1)) :
    (unbuilt graph (model.registered node)).length < (unbuilt graph model).length := by
  have hmem : node ∈ unbuilt graph model :=
    List.mem_filter.mpr ⟨List.mem_range.mpr hnode, decide_eq_true hnew⟩
  have herase : unbuilt graph (model.registered node) = (unbuilt graph model).erase node := by
    rw [unbuilt, unbuilt, (List.nodup_range.filter _).erase_eq_filter, List.filter_filter]
    refine List.filter_congr fun j _ => ?_
    rw [Bool.eq_iff_iff, Bool.and_eq_true, bne_iff_ne, decide_eq_true_iff, decide_eq_true_iff,
      registered, List.map_append, List.mem_append, not_or, List.map_singleton,
      List.mem_singleton, and_comm]
  have hlength := List.length_erase_of_mem hmem
  have hpos := List.length_pos_of_mem hmem
  rw [herase]
  omega

theorem entriesOf_of_size_le {graph : Graph α} {node : Nat} (hnode : graph.nodes.size ≤ node)
    (key : String) : entriesOf graph node key = [] := by
  have hentry : graph.entry node key = .null := by
    rw [Graph.entry, Array.getElem?_eq_none hnode]
    rfl
  rw [entriesOf, hentry]
  rfl

theorem notMem_of_lookup_eq_none {β : Type} {register : List (Nat × β)} {node : Nat}
    (h : register.lookup node = none) : node ∉ register.map (·.1) := by
  intro hmem
  obtain ⟨entry, hentry, rfl⟩ := List.mem_map.mp hmem
  exact absurd (List.lookup_eq_none_iff.mp h entry hentry) (by simp)

/-- A dictionary that has not been registered is, and then its resources are filled. -/
theorem run_buildWithin_of_new {graph : Graph α} [Scalar α] {value : Object α} {node : Nat}
    (hnode : graph.node? value = some node) {model : ResourceModel α}
    (hnew : model.dictionaries.lookup node = none) (depth : Nat) :
    (buildWithin graph (depth + 1) value).run model
      = (addFonts graph model.catalog.resources.size (entriesOf graph node "/Font") >>= fun _ =>
          addObjects graph (buildWithin graph depth) model.catalog.resources.size
            (entriesOf graph node "/XObject") >>= fun _ =>
              pure model.catalog.resources.size).run (model.registered node) := by
  have hbegun : newResources.run model = (.ok model.catalog.resources.size, _) := rfl
  rw [buildWithin, hnode]
  simp only [Act.run_bind_ok (Act.run_get model), hnew]
  rw [Act.run_bind_ok hbegun, Act.run_bind_ok (Act.run_modify _ _)]
  rfl

theorem run_buildWithin_of_known {graph : Graph α} [Scalar α] {value : Object α} {node : Nat}
    (hnode : graph.node? value = some node) {model : ResourceModel α} {index : Nat}
    (hknown : model.dictionaries.lookup node = some index) (depth : Nat) :
    (buildWithin graph (depth + 1) value).run model = (.ok index, model) := by
  rw [buildWithin, hnode]
  simp only [Act.run_bind_ok (Act.run_get model), hknown, Act.run_pure]

theorem run_buildWithin_of_other {graph : Graph α} [Scalar α] {value : Object α}
    (hnode : graph.node? value = none) (model : ResourceModel α) (depth : Nat) :
    (buildWithin graph (depth + 1) value).run model = newResources.run model := by
  rw [buildWithin, hnode]

/-- The two steps do the same wherever there is at most that much to go. -/
def AgreeWithin (graph : Graph α) (left : Nat) {β : Type} (x y : Act (ResourceModel α) β) : Prop :=
  ∀ model, (unbuilt graph model).length ≤ left → x.run model = y.run model

section

variable {graph : Graph α} {left : Nat} {β γ : Type}

theorem AgreeWithin.refl (x : Act (ResourceModel α) β) : AgreeWithin graph left x x :=
  fun _ _ => rfl

/-- What the first part registers brings the second no further from the end. -/
theorem AgreeWithin.bind {x y : Act (ResourceModel α) β} {f g : β → Act (ResourceModel α) γ}
    (hx : AgreeWithin graph left x y)
    (hextends : ∀ dictionaries, x.Keeps (Extends { dictionaries := dictionaries }))
    (hf : ∀ b, AgreeWithin graph left (f b) (g b)) :
    AgreeWithin graph left (x >>= f) (y >>= g) := by
  intro model hmodel
  have hstart := Extends.of_dictionaries model
  have hlater := (hextends model.dictionaries model hstart).length_unbuilt_le graph
  rw [Act.run_bind, Act.run_bind, ← hx model hmodel]
  rcases hrun : x.run model with ⟨e | b, later⟩
  · rfl
  · rw [hrun] at hlater
    exact hf b later (Nat.le_trans hlater hmodel)

variable [Scalar α] {resources resources' : Object α → Act (ResourceModel α) Nat}

theorem agree_object (hagree : ∀ value, AgreeWithin graph left (resources value) (resources' value))
    (hextends : ∀ first value, (resources value).Keeps (Extends first)) (key : Text)
    (stream : Nat) :
    AgreeWithin graph left (object graph resources key stream)
      (object graph resources' key stream) := by
  refine .bind (.refl _) (fun _ => .get) fun model => ?_
  split
  · exact .refl _
  · refine .bind (.refl _) (fun _ => .ofExcept _) fun subtype => ?_
    split
    · exact .refl _
    · split
      · refine .bind (.refl _) (fun _ => .ofExcept _) fun matrix =>
          .bind (.refl _) (fun _ => (extends_newForm _ _ _).keeps) fun form =>
            .bind (.refl _) (fun _ => extends_register _ _) fun _ => ?_
        split
        · exact .bind (hagree _) (fun _ => hextends _ _) fun _ => .refl _
        · exact .refl _
      · exact .refl _

theorem agree_addObjects
    (hagree : ∀ value, AgreeWithin graph left (resources value) (resources' value))
    (hextends : ∀ first value, (resources value).Keeps (Extends first)) (index : Nat)
    (entries : List (Text × Object α)) :
    AgreeWithin graph left (addObjects graph resources index entries)
      (addObjects graph resources' index entries) := by
  induction entries with
  | nil => exact .refl _
  | cons entry rest ih =>
    obtain ⟨name, value⟩ := entry
    rw [addObjects, addObjects]
    cases graph.stream? value with
    | none => exact ih
    | some stream =>
      refine .bind (agree_object hagree hextends name stream)
        (fun _ => extends_object graph (hextends _) name stream) fun found => ?_
      cases found with
      | none => exact ih
      | some object =>
        exact .bind (.refl _) (fun _ => extends_changeResources (Nat.zero_le _) _) fun _ => ih

end

/-- With more depth than there is to go, the depth decides nothing. -/
theorem run_buildWithin_congr (graph : Graph α) [Scalar α] (depth : Nat) :
    ∀ depth' value (model : ResourceModel α), (unbuilt graph model).length < depth →
      (unbuilt graph model).length < depth' →
      (buildWithin graph depth value).run model = (buildWithin graph depth' value).run model := by
  induction depth with
  | zero => exact fun _ _ _ h => absurd h (Nat.not_lt_zero _)
  | succ depth ih =>
    intro depth' value model hdepth hdepth'
    obtain ⟨depth', rfl⟩ : ∃ n, depth' = n + 1 := ⟨depth' - 1, by omega⟩
    cases hnode : graph.node? value with
    | none => rw [run_buildWithin_of_other hnode, run_buildWithin_of_other hnode]
    | some node =>
      cases hlookup : model.dictionaries.lookup node with
      | some index =>
        rw [run_buildWithin_of_known hnode hlookup, run_buildWithin_of_known hnode hlookup]
      | none =>
        rw [run_buildWithin_of_new hnode hlookup, run_buildWithin_of_new hnode hlookup]
        by_cases hrange : node < graph.nodes.size
        · have hleft := length_unbuilt_lt hrange (notMem_of_lookup_eq_none hlookup)
          have hagree : ∀ value, AgreeWithin graph (unbuilt graph (model.registered node)).length
              (buildWithin graph depth value) (buildWithin graph depth' value) :=
            fun value later hlater => ih depth' value later (by omega) (by omega)
          have hextends : ∀ first value, (buildWithin graph depth value).Keeps (Extends first) :=
            fun _ => extends_buildWithin graph depth
          exact AgreeWithin.bind (.refl _) (fun _ => extends_addFonts graph (Nat.zero_le _) _)
            (fun _ => .bind (agree_addObjects hagree hextends _ _)
              (fun _ => extends_addObjects graph (hextends _) (Nat.zero_le _) _) fun _ => .refl _)
            _ (Nat.le_refl _)
        · -- Beyond the nodes there is nothing to go into.
          rw [entriesOf_of_size_le (Nat.le_of_not_lt hrange) "/XObject"]
          rfl

/-- A depth of more than the number of nodes is as good as any other. -/
theorem buildWithin_eq_build (graph : Graph α) [Scalar α] {depth : Nat}
    (hdepth : graph.nodes.size < depth) (value : Object α) :
    buildWithin graph depth value = build graph value := by
  refine funext fun model => ?_
  have hunbuilt := length_unbuilt_le_size graph model
  exact run_buildWithin_congr graph depth _ value model (Nat.lt_of_le_of_lt hunbuilt hdepth)
    (Nat.lt_succ_of_le hunbuilt)

end Folio.Pdf.ResourceModel
