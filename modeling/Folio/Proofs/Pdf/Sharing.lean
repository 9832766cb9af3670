import Mathlib.Data.List.Nodup
import Folio.Pdf.ResourceModel
import Folio.Proofs.Act
import Folio.Proofs.Font.Reach

/-!
# Fonts are shared, never doubled

However the dictionaries of a document refer to each other, each of its fonts is built once: the
fonts are numbered in the order in which they were built, and what resources list are fonts from that
list and nothing else (`Shares`). So two fonts with one key are one font (`Shares.eq_of_key_eq`),
wherever they are listed.

Building resources keeps this at every step, whatever the depth and whichever of its steps fail, and
no font that has been built is lost (`Keeps`, with the fonts built before as a parameter).
-/

namespace Folio.Pdf.ResourceModel

variable {α : Type}

/-- All fonts that have been built. -/
def built (model : ResourceModel α) : List (Font α) := model.fonts.map (·.2)

/-- The fonts are numbered as they were built, resources list no others, and `known` is among
them. -/
structure Shares (known : List (Font α)) (model : ResourceModel α) : Prop where
  keys : model.built.map (·.key) = List.range model.fonts.length
  listed : ∀ i, ∀ e ∈ (model.catalog.resourcesAt i).fonts, e.2 ∈ model.built
  known : ∀ font ∈ known, font ∈ model.built

theorem shares_start : Shares [] ({} : ResourceModel α) where
  keys := rfl
  listed _ _ he := absurd he List.not_mem_nil
  known _ hfont := absurd hfont List.not_mem_nil

namespace Shares

variable {known : List (Font α)} {model : ResourceModel α}

/-- Fonts that have been built are told apart by their keys. -/
theorem eq_of_key_eq (h : Shares known model) {f g : Font α} (hf : f ∈ model.built)
    (hg : g ∈ model.built) (hkey : f.key = g.key) : f = g := by
  have hnodup : (model.built.map (·.key)).Nodup := by
    rw [h.keys]
    exact List.nodup_range
  exact List.inj_on_of_nodup_map hnodup hf hg hkey

theorem mem_built_of_reachable (h : Shares known model) {index : Nat} {font : Font α}
    (hfont : font ∈ model.catalog.reachableFonts index) : font ∈ model.built := by
  obtain ⟨i, -, hmem⟩ := List.mem_flatMap.mp hfont
  obtain ⟨e, he, rfl⟩ := List.mem_map.mp hmem
  exact h.listed i e he

/-- Only the fonts, and what resources list of them, have a part in the invariant. -/
theorem of_eq {model' : ResourceModel α} (h : Shares known model)
    (hfonts : model'.fonts = model.fonts)
    (hlisted : ∀ i, (model'.catalog.resourcesAt i).fonts = (model.catalog.resourcesAt i).fonts) :
    Shares known model' := by
  have hbuilt : model'.built = model.built := by rw [built, hfonts]; rfl
  refine ⟨?_, fun i e he => ?_, fun font hfont => ?_⟩
  · rw [hbuilt, hfonts]
    exact h.keys
  · rw [hlisted] at he
    rw [hbuilt]
    exact h.listed i e he
  · rw [hbuilt]
    exact h.known font hfont

/-- A new font is given the next number. -/
theorem append (h : Shares known model) {font : Font α} (hkey : font.key = model.fonts.length)
    (node : Nat) :
    Shares (known ++ [font]) { model with fonts := model.fonts ++ [(node, font)] } := by
  have hbuilt : ({ model with fonts := model.fonts ++ [(node, font)] } : ResourceModel α).built
      = model.built ++ [font] := List.map_append
  refine ⟨?_, fun i e he => ?_, ?_⟩
  · rw [hbuilt, List.map_append, h.keys, List.length_append, List.length_singleton,
      List.range_succ, List.map_singleton, hkey]
  · rw [hbuilt]
    exact List.mem_append_left _ (h.listed i e he)
  · rw [hbuilt]
    refine List.forall_mem_append.mpr ⟨fun f hf => List.mem_append_left _ (h.known f hf), ?_⟩
    exact List.forall_mem_singleton.mpr (List.mem_append_right _ (List.mem_singleton_self _))

theorem mono (h : Shares known model) {fewer : List (Font α)} (hfewer : fewer ⊆ known) :
    Shares fewer model := ⟨h.keys, h.listed, fun font hfont => h.known font (hfewer hfont)⟩

end Shares

/-! ## Registering -/

theorem resourcesAt_push_empty (catalog : Catalog α) (i : Nat) :
    ({ catalog with resources := catalog.resources.push .empty } : Catalog α).resourcesAt i
      = catalog.resourcesAt i := by
  simp only [Catalog.resourcesAt, Array.getD_eq_getD_getElem?, Array.getElem?_push]
  split
  next hi =>
    rw [hi, Array.getElem?_eq_none (Nat.le_refl _)]
    rfl
  · rfl

theorem resourcesAt_modify (catalog : Catalog α) (index : Nat) (f : Resources α → Resources α)
    (i : Nat) :
    ({ catalog with resources := catalog.resources.modify index f } : Catalog α).resourcesAt i
        = catalog.resourcesAt i
      ∨ ({ catalog with resources := catalog.resources.modify index f } : Catalog α).resourcesAt i
        = f (catalog.resourcesAt i) := by
  simp only [Catalog.resourcesAt, Array.getD_eq_getD_getElem?, Array.getElem?_modify]
  split
  · cases catalog.resources[i]? with
    | none => exact .inl rfl
    | some resources => exact .inr rfl
  · exact .inl rfl

variable {known : List (Font α)}

theorem keeps_newResources : (newResources : Act (ResourceModel α) Nat).Keeps (Shares known) :=
  fun _ h => h.of_eq rfl fun _ => congrArg _ (resourcesAt_push_empty _ _)

theorem keeps_register (stream : Nat) (object : ExternalObject) :
    (register stream object : Act (ResourceModel α) Unit).Keeps (Shares known) :=
  .modify fun _ h => h.of_eq rfl fun _ => rfl

theorem keeps_newForm (name : Text) (matrix : Affine α) (stream : Nat) :
    (newForm name matrix stream).Keeps (Shares known) :=
  fun _ h => h.of_eq rfl fun _ => rfl

theorem keeps_setFormResources (form index : Nat) :
    (setFormResources form index : Act (ResourceModel α) Unit).Keeps (Shares known) :=
  .modify fun _ h => h.of_eq rfl fun _ => rfl

/-- A change of resources that leaves their fonts alone. -/
theorem keeps_changeResources_of_fonts (index : Nat) {f : Resources α → Resources α}
    (hf : ∀ r, (f r).fonts = r.fonts) : (changeResources index f).Keeps (Shares known) := by
  refine .modify fun model h => h.of_eq rfl fun i => ?_
  rcases resourcesAt_modify model.catalog index f i with hsame | hchanged
  · exact congrArg _ hsame
  · exact (congrArg _ hchanged).trans (hf _)

/-- A font that has been built may be listed. -/
theorem keeps_list (index : Nat) (name : Text) {font : Font α} (hfont : font ∈ known) :
    (changeResources index fun r => { r with fonts := r.fonts ++ [(name, font)] }).Keeps
      (Shares known) := by
  intro model h
  refine ⟨h.keys, fun i e he => ?_, h.known⟩
  have hchanged := resourcesAt_modify model.catalog index
    (fun r => { r with fonts := r.fonts ++ [(name, font)] }) i
  simp only [changeResources, Act.run_modify] at he
  rcases hchanged with hchanged | hchanged <;> rw [hchanged] at he
  · exact h.listed i e he
  · rcases List.mem_append.mp he with he | he
    · exact h.listed i e he
    · rw [List.mem_singleton.mp he]
      exact h.known font hfont

/-! ## Building -/

variable [Scalar α]

theorem key_of_describe {graph : Graph α} {key node : Nat} {name : Text} {descendant : Option Nat}
    {font : Font α} (h : describe graph key name node descendant = .ok font) : font.key = key := by
  unfold describe at h
  simp only [bind, Except.bind, pure, Except.pure] at h
  -- Whatever cannot be read ends it; only at the end is there a font.
  repeat' split at h
  all_goals first | (cases h; rfl) | cases h

/-- The decoder of a node's font, if it can be made. -/
def decoderOf (graph : Graph α) (node : Nat) (font : Font α) : Except Fault (Decoder α) := do
  Decoder.ofFont graph node (← descendant? graph node) font

section

variable {graph : Graph α} {first later : ResourceModel α} {node : Nat}

/-- What asking for the font of a node comes to. A font that cannot be read is not registered, one
whose decoder cannot be made is. -/
inductive FontStep (graph : Graph α) (node : Nat) (first : ResourceModel α) :
    Except Fault (Font α) → ResourceModel α → Prop
  | known {f : Font α} (hknown : (node, f) ∈ first.fonts) : FontStep graph node first (.ok f) first
  | unread (e : Fault) : FontStep graph node first (.error e) first
  | undecoded {f : Font α} {e : Fault} (hnew : first.fonts.lookup node = none)
    (hkey : f.key = first.fonts.length) (hdecoder : decoderOf graph node f = .error e) :
    FontStep graph node first (.error e) { first with fonts := first.fonts ++ [(node, f)] }
  | decoded {f : Font α} {decoder : Decoder α} (hnew : first.fonts.lookup node = none)
    (hkey : f.key = first.fonts.length) (hdecoder : decoderOf graph node f = .ok decoder) :
    FontStep graph node first (.ok f) { first with
      fonts := first.fonts ++ [(node, f)]
      decoders := first.decoders ++ [(f.key, decoder)] }

theorem fontStep_of_run {name : Text} {answer : Except Fault (Font α)}
    (hrun : (font graph name node).run first = (answer, later)) :
    FontStep graph node first answer later := by
  rw [font, Act.run_bind_ok (Act.run_get first)] at hrun
  cases hlookup : first.fonts.lookup node with
  | some known =>
    rw [hlookup] at hrun
    cases hrun
    exact .known (Catalog.mem_of_lookup hlookup)
  | none =>
    simp only [hlookup, Act.run_bind, Act.run_ofExcept] at hrun
    cases hdescendant : descendant? graph node with
    | error e =>
      rw [hdescendant] at hrun
      cases hrun
      exact .unread e
    | ok descendant =>
      simp only [hdescendant] at hrun
      cases hdescribe : describe graph first.fonts.length name node descendant with
      | error e =>
        rw [hdescribe] at hrun
        cases hrun
        exact .unread e
      | ok f =>
        simp only [hdescribe, Act.run_modify] at hrun
        have hkey := key_of_describe hdescribe
        have hof : decoderOf graph node f = Decoder.ofFont graph node descendant f := by
          rw [decoderOf, hdescendant]
          rfl
        cases hdecoder : Decoder.ofFont graph node descendant f with
        | error e =>
          rw [hdecoder] at hrun
          cases hrun
          exact .undecoded hlookup hkey (hof.trans hdecoder)
        | ok decoder =>
          rw [hdecoder] at hrun
          cases hrun
          exact .decoded hlookup hkey (hof.trans hdecoder)

/-- Nothing but the fonts and their decoders is touched. -/
theorem FontStep.aside {answer : Except Fault (Font α)}
    (h : FontStep graph node first answer later) : later.catalog = first.catalog
      ∧ later.dictionaries = first.dictionaries ∧ later.objects = first.objects := by
  cases h <;> exact ⟨rfl, rfl, rfl⟩

theorem FontStep.mem_fonts {f : Font α} (h : FontStep graph node first (.ok f) later) :
    (node, f) ∈ later.fonts := by
  cases h with
  | known hknown => exact hknown
  | decoded => exact List.mem_append_right _ (List.mem_singleton_self _)

end

/-- The font of a node is one that has been built by then, also if its decoder turns out to be
missing. -/
theorem shares_run_font {model : ResourceModel α} (h : Shares known model) (graph : Graph α)
    (name : Text) (node : Nat) :
    match (font graph name node).run model with
    | (.ok f, model') => Shares (known ++ [f]) model'
    | (.error _, model') => Shares known model' := by
  rcases hrun : (font graph name node).run model with ⟨answer, later⟩
  cases fontStep_of_run hrun with
  | @known f hknown =>
    have hbuilt : f ∈ model.built := List.mem_map.mpr ⟨_, hknown, rfl⟩
    exact ⟨h.keys, h.listed, List.forall_mem_append.mpr
      ⟨h.known, List.forall_mem_singleton.mpr hbuilt⟩⟩
  | unread => exact h
  | undecoded hnew hkey => exact (h.append hkey node).mono (List.subset_append_left _ _)
  | decoded hnew hkey => exact (h.append hkey node).of_eq rfl fun _ => rfl

/-- Resources list the fonts that have just been built, and those built before. -/
theorem keeps_addFonts (graph : Graph α) (index : Nat) (entries : List (Text × Object α)) :
    (addFonts graph index entries).Keeps (Shares known) := by
  induction entries generalizing known with
  | nil => exact .pure _
  | cons entry rest ih =>
    obtain ⟨name, value⟩ := entry
    rw [addFonts]
    cases graph.node? value with
    | none => exact ih
    | some node =>
      intro model h
      have hfont := shares_run_font h graph name node
      simp only [Act.run_bind (font graph name node)]
      rcases hrun : (font graph name node).run model with ⟨e | f, model'⟩ <;> rw [hrun] at hfont
      · exact hfont
      · have hself := List.mem_append_right known (List.mem_singleton_self f)
        have hrest := Act.Keeps.bind (keeps_list index name hself) (fun _ => ih) model' hfont
        exact hrest.mono (List.subset_append_left _ _)

/-- An external object brings no fonts but those of the resources that are built for a form. -/
theorem keeps_newObject (graph : Graph α) {resources : Object α → Act (ResourceModel α) Nat}
    (hresources : ∀ value, (resources value).Keeps (Shares known)) (key : Text) (stream : Nat) :
    (newObject graph resources key stream).Keeps (Shares known) := by
  refine .bind (.ofExcept _) fun subtype => ?_
  split
  · exact .bind .get fun _ => .bind (.ofExcept _) fun _ => .bind (keeps_register _ _) fun _ =>
      .pure _
  · split
    · refine .bind (.ofExcept _) fun _ => .bind (keeps_newForm _ _ _) fun _ =>
        .bind (keeps_register _ _) fun _ => ?_
      split
      · exact .bind (hresources _) fun _ => .bind (keeps_setFormResources _ _) fun _ => .pure _
      · exact .pure _
    · exact .pure _

theorem keeps_addObjects (graph : Graph α) {resources : Object α → Act (ResourceModel α) Nat}
    (hresources : ∀ value, (resources value).Keeps (Shares known)) (index : Nat)
    (entries : List (Text × Object α)) :
    (addObjects graph resources index entries).Keeps (Shares known) := by
  induction entries with
  | nil => exact .pure _
  | cons entry rest ih =>
    obtain ⟨name, value⟩ := entry
    have hobject : ∀ stream, (object graph resources name stream).Keeps (Shares known) := by
      refine fun stream => .bind .get fun model => ?_
      split
      · exact .pure _
      · exact keeps_newObject graph hresources name stream
    rw [addObjects]
    cases graph.stream? value with
    | none => exact ih
    | some stream =>
      refine .bind (hobject stream) fun found => ?_
      cases found with
      | none => exact ih
      | some object => exact .bind (keeps_changeResources_of_fonts index fun _ => rfl) fun _ => ih

/-- Resources within resources are built the same way, with one level less to go. -/
theorem keeps_buildWithin (graph : Graph α) (depth : Nat) :
    ∀ value, (buildWithin graph depth value).Keeps (Shares known) := by
  induction depth with
  | zero => exact fun _ => keeps_newResources
  | succ depth ih =>
    intro value
    rw [buildWithin]
    split
    · exact keeps_newResources
    · refine .bind .get fun model => ?_
      split
      · exact .pure _
      · exact .bind keeps_newResources fun index =>
          .bind (.modify fun _ h => h.of_eq rfl fun _ => rfl) fun _ =>
            .bind (keeps_addFonts graph index _) fun _ =>
              .bind (keeps_addObjects graph ih index _) fun _ => .pure _

/-- Building the resources of a page keeps the fonts of all pages told apart. -/
theorem keeps_build (graph : Graph α) (value : Object α) :
    (build graph value).Keeps (Shares known) := keeps_buildWithin graph _ value

end Folio.Pdf.ResourceModel
