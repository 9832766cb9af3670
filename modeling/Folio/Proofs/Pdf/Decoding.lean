import Folio.Proofs.Pdf.Sharing

/-!
# Fonts and their decoders

A font is registered before its decoder is made. If the decoder cannot be made the call fails, but
the font stays where it is, and from then on every dictionary may list it. So after any calls,
whichever of them have failed, a font lacks its decoder exactly if the decoder cannot be made
(`Decoded`), and calls that all succeed have built no such font (`decodable_of_mapM`).

What a call does to the fonts and their decoders is done where a font is built. `FontsLead` is what
that step does to a property, and `leads_buildWithin` says that a whole call does the same.
-/

namespace Folio.Pdf.ResourceModel

variable {α : Type} [Scalar α] {graph : Graph α} {first later : ResourceModel α}

/-- The building of a font leads from fonts and decoders with the property `P` to such ones if it
succeeds, and to ones with the weaker property `Q` if it fails. -/
structure FontsLead (graph : Graph α) (P Q : ResourceModel α → Prop) : Prop where
  weaker : ∀ model, P model → Q model
  same : ∀ model model', P model → model'.fonts = model.fonts →
    model'.decoders = model.decoders → P model'
  font : ∀ {first later node answer}, P first →
    FontStep graph node first answer later →
      match answer with
      | .ok _ => P later
      | .error _ => Q later

namespace FontsLead

variable {P Q : ResourceModel α → Prop}

theorem leads_modify (h : FontsLead graph P Q) {f : ResourceModel α → ResourceModel α}
    (hfonts : ∀ model, (f model).fonts = model.fonts)
    (hdecoders : ∀ model, (f model).decoders = model.decoders) :
    (modify f : Act (ResourceModel α) Unit).Leads P Q :=
  .modify fun model hmodel => h.same model _ hmodel (hfonts model) (hdecoders model)

theorem leads_newResources (h : FontsLead graph P Q) :
    (newResources : Act (ResourceModel α) Nat).Leads P Q :=
  fun model hmodel => h.same model _ hmodel rfl rfl

theorem leads_addFonts (h : FontsLead graph P Q) (index : Nat)
    (entries : List (Text × Object α)) : (addFonts graph index entries).Leads P Q := by
  induction entries with
  | nil => exact .pure _
  | cons entry rest ih =>
    obtain ⟨name, value⟩ := entry
    rw [addFonts]
    cases graph.node? value with
    | none => exact ih
    | some node =>
      refine .bind (fun model hmodel => ?_) fun _ =>
        .bind (h.leads_modify (fun _ => rfl) fun _ => rfl) fun _ => ih
      rcases hrun : (ResourceModel.font graph name node).run model with ⟨e | f, later⟩
      · exact h.font hmodel (fontStep_of_run hrun)
      · exact h.font hmodel (fontStep_of_run hrun)

variable {resources : Object α → Act (ResourceModel α) Nat}

theorem leads_object (h : FontsLead graph P Q) (hresources : ∀ value, (resources value).Leads P Q)
    (key : Text) (stream : Nat) : (object graph resources key stream).Leads P Q := by
  refine .bind .get fun model => ?_
  split
  · exact .pure _
  · refine .bind (.ofExcept h.weaker _) fun subtype => ?_
    split
    · exact .bind .get fun _ => .bind (.ofExcept h.weaker _) fun _ =>
        .bind (h.leads_modify (fun _ => rfl) fun _ => rfl) fun _ => .pure _
    · split
      · refine .bind (.ofExcept h.weaker _) fun _ =>
          .bind (fun model hmodel => h.same model _ hmodel rfl rfl) fun _ =>
            .bind (h.leads_modify (fun _ => rfl) fun _ => rfl) fun _ => ?_
        split
        · exact .bind (hresources _) fun _ =>
            .bind (h.leads_modify (fun _ => rfl) fun _ => rfl) fun _ => .pure _
        · exact .pure _
      · exact .pure _

theorem leads_addObjects (h : FontsLead graph P Q)
    (hresources : ∀ value, (resources value).Leads P Q) (index : Nat)
    (entries : List (Text × Object α)) : (addObjects graph resources index entries).Leads P Q := by
  induction entries with
  | nil => exact .pure _
  | cons entry rest ih =>
    obtain ⟨name, value⟩ := entry
    rw [addObjects]
    cases graph.stream? value with
    | none => exact ih
    | some stream =>
      refine .bind (h.leads_object hresources name stream) fun found => ?_
      cases found with
      | none => exact ih
      | some object => exact .bind (h.leads_modify (fun _ => rfl) fun _ => rfl) fun _ => ih

theorem leads_buildWithin (h : FontsLead graph P Q) (depth : Nat) :
    ∀ value, (buildWithin graph depth value).Leads P Q := by
  induction depth with
  | zero => exact fun _ => h.leads_newResources
  | succ depth ih =>
    intro value
    rw [buildWithin]
    split
    · exact h.leads_newResources
    · refine .bind .get fun model => ?_
      split
      · exact .pure _
      · exact .bind h.leads_newResources fun index =>
          .bind (h.leads_modify (fun _ => rfl) fun _ => rfl) fun _ =>
            .bind (h.leads_addFonts index _) fun _ =>
              .bind (h.leads_addObjects ih index _) fun _ => .pure _

end FontsLead

/-- Every font that is registered has the decoder that can be made for it, and none if there is no
such decoder. -/
structure Decoded (graph : Graph α) (model : ResourceModel α) : Prop where
  keys_lt : ∀ e ∈ model.fonts, e.2.key < model.fonts.length
  decoders_lt : ∀ d ∈ model.decoders, d.1 < model.fonts.length
  decoder : ∀ e ∈ model.fonts, model.decoder? e.2 = (decoderOf graph e.1 e.2).toOption

omit [Scalar α] in
theorem lookup_eq_none_of_ne {β : Type} {register : List (Nat × β)} {key : Nat}
    (h : ∀ e ∈ register, e.1 ≠ key) : register.lookup key = none :=
  List.lookup_eq_none_iff.mpr fun e he => bne_iff_ne.mpr (h e he).symm

/-- A font is registered with its decoder, or without one that cannot be made. -/
theorem Decoded.append (h : Decoded graph first) {node : Nat} {f : Font α}
    (hkey : f.key = first.fonts.length) {decoders : List (Nat × Decoder α)}
    (hnew : ∀ d ∈ decoders, d.1 = f.key)
    (hdecoder : decoders.lookup f.key = (decoderOf graph node f).toOption) :
    Decoded graph { first with
      fonts := first.fonts ++ [(node, f)]
      decoders := first.decoders ++ decoders } := by
  have hlength : (first.fonts ++ [(node, f)]).length = first.fonts.length + 1 := by
    rw [List.length_append, List.length_singleton]
  refine ⟨List.forall_mem_append.mpr ⟨fun e he => ?_, List.forall_mem_singleton.mpr ?_⟩,
    List.forall_mem_append.mpr ⟨fun d hd => ?_, fun d hd => ?_⟩,
    List.forall_mem_append.mpr ⟨fun e he => ?_, List.forall_mem_singleton.mpr ?_⟩⟩
  · rw [hlength]
    exact Nat.lt_succ_of_lt (h.keys_lt e he)
  · rw [hlength, hkey]
    exact Nat.lt_succ_self _
  · rw [hlength]
    exact Nat.lt_succ_of_lt (h.decoders_lt d hd)
  · rw [hlength, hnew d hd, hkey]
    exact Nat.lt_succ_self _
  · have hother : decoders.lookup e.2.key = none := lookup_eq_none_of_ne fun d hd => by
      have hlt := h.keys_lt e he
      have heq := hnew d hd
      omega
    rw [decoder?, List.lookup_append, hother, Option.or_none]
    exact h.decoder e he
  · have hfree : first.decoders.lookup f.key = none := lookup_eq_none_of_ne fun d hd => by
      have hlt := h.decoders_lt d hd
      omega
    rw [decoder?, List.lookup_append, hfree, Option.none_or]
    exact hdecoder

/-- Whether calls succeed or fail, a font lacks its decoder only if that cannot be made. -/
theorem fontsLead_decoded (graph : Graph α) : FontsLead graph (Decoded graph) (Decoded graph) where
  weaker _ h := h
  same model model' h hfonts hdecoders := by
    refine ⟨?_, ?_, ?_⟩
    · rw [hfonts]
      exact h.keys_lt
    · rw [hfonts, hdecoders]
      exact h.decoders_lt
    · rw [hfonts]
      intro e he
      rw [decoder?, hdecoders]
      exact h.decoder e he
  font h hstep := by
    cases hstep with
    | known => exact h
    | unread => exact h
    | @undecoded f _ _ hkey hdecoder =>
      have hnone : ∀ d ∈ ([] : List (Nat × Decoder α)), d.1 = f.key :=
        fun _ hd => absurd hd List.not_mem_nil
      have hlater := h.append hkey hnone (by rw [hdecoder]; rfl)
      rwa [List.append_nil] at hlater
    | decoded _ hkey hdecoder =>
      refine h.append hkey (List.forall_mem_singleton.mpr rfl) ?_
      rw [hdecoder, List.lookup_cons_self]
      rfl

/-- As long as no call fails there are decoders for all fonts. -/
theorem fontsLead_decodable (graph : Graph α) :
    FontsLead graph (fun model => ∀ e ∈ model.fonts, (decoderOf graph e.1 e.2).toOption.isSome)
      fun _ => True where
  weaker _ _ := trivial
  same model model' h hfonts _ := by
    rw [hfonts]
    exact h
  font h hstep := by
    cases hstep with
    | known => exact h
    | unread => trivial
    | undecoded => trivial
    | decoded _ hkey hdecoder =>
      refine List.forall_mem_append.mpr ⟨h, List.forall_mem_singleton.mpr ?_⟩
      rw [hdecoder]
      rfl

theorem decoded_start (graph : Graph α) : Decoded graph {} where
  keys_lt _ he := absurd he List.not_mem_nil
  decoders_lt _ hd := absurd hd List.not_mem_nil
  decoder _ he := absurd he List.not_mem_nil

/-- After calls that have all succeeded every font can be decoded. -/
theorem decodable_of_mapM {calls : List (Object α)} {indices : List Nat}
    (hrun : (calls.mapM (build graph)).run {} = (.ok indices, later)) :
    ∀ e ∈ later.fonts, (decoderOf graph e.1 e.2).toOption.isSome := by
  have hcalls : ∀ calls : List (Object α), (calls.mapM (build graph)).Leads
      (fun model => ∀ e ∈ model.fonts, (decoderOf graph e.1 e.2).toOption.isSome)
      fun _ => True := by
    intro calls
    induction calls with
    | nil => exact .pure _
    | cons value rest ih =>
      rw [List.mapM_cons]
      exact .bind ((fontsLead_decodable graph).leads_buildWithin _ value) fun _ =>
        .bind ih fun _ => .pure _
  have hlater := hcalls calls {} fun e he => absurd he List.not_mem_nil
  rwa [hrun] at hlater

end Folio.Pdf.ResourceModel
