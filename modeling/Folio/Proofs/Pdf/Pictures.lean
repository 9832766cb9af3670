import Folio.Proofs.Pdf.Recording

/-!
# Pictures of a document

Whatever the streams of a document hold, each picture that its resources list is a JPEG or a PNG: its
format is told from its filters, not from its pixels (`decoded_isStreamed`). Building resources keeps
this (`streamed_build`), and operators come with the resources of the page or of a form, so a listener
only ever hears of such pictures (`Document.keeps_run`).
-/

namespace Folio

open Text (lit)

/-- The raster has one of the formats that a stream can hold. -/
def Raster.IsStreamed (raster : Raster) : Prop :=
  raster.format = some (lit "jpeg") ∨ raster.format = some (lit "png")

/-- If the object is a picture, it is one that a stream can hold. -/
def ExternalObject.IsStreamed : ExternalObject → Prop
  | .picture p => ∀ raster, p.decoded = .raster raster → raster.IsStreamed
  | .form _ => True

variable {α : Type}

/-- All pictures listed are such as a stream can hold. -/
def Resources.AreStreamed (r : Resources α) : Prop := ∀ e ∈ r.objects, e.2.IsStreamed

/-- What comes with an operator are such resources. -/
def Event.IsStreamed : Event α → Prop
  | .operator op => ∀ r ∈ op.resources, r.AreStreamed
  | _ => True

namespace Pdf.ResourceModel

/-- All pictures that have been built or are listed are such as a stream can hold. -/
structure AreStreamed (model : ResourceModel α) : Prop where
  listed : ∀ i, (model.catalog.resourcesAt i).AreStreamed
  built : ∀ e ∈ model.objects, e.2.IsStreamed

theorem areStreamed_start : AreStreamed ({} : ResourceModel α) where
  listed _ _ he := absurd he List.not_mem_nil
  built _ he := absurd he List.not_mem_nil

/-- Only the objects have a part in it. -/
theorem AreStreamed.of_eq {model model' : ResourceModel α} (h : model.AreStreamed)
    (hobjects : model'.objects = model.objects)
    (hlisted : ∀ i, (model'.catalog.resourcesAt i).objects = (model.catalog.resourcesAt i).objects) :
    model'.AreStreamed := by
  refine ⟨fun i e he => ?_, ?_⟩
  · rw [hlisted] at he
    exact h.listed i e he
  · rw [hobjects]
    exact h.built

theorem streamed_newResources :
    (newResources : Act (ResourceModel α) Nat).Keeps AreStreamed :=
  fun _ h => h.of_eq rfl fun _ => congrArg _ (resourcesAt_push_empty _ _)

theorem streamed_register (stream : Nat) {object : ExternalObject} (hobject : object.IsStreamed) :
    (register stream object : Act (ResourceModel α) Unit).Keeps AreStreamed :=
  .modify fun _ h => ⟨h.listed, List.forall_mem_append.mpr
    ⟨h.built, List.forall_mem_singleton.mpr hobject⟩⟩

theorem streamed_newForm (name : Text) (matrix : Affine α) (stream : Nat) :
    (newForm name matrix stream).Keeps AreStreamed :=
  fun _ h => h.of_eq rfl fun _ => rfl

theorem streamed_setFormResources (form index : Nat) :
    (setFormResources form index : Act (ResourceModel α) Unit).Keeps AreStreamed :=
  .modify fun _ h => h.of_eq rfl fun _ => rfl

theorem streamed_changeResources (index : Nat) {f : Resources α → Resources α}
    (hf : ∀ r : Resources α, r.AreStreamed → (f r).AreStreamed) :
    (changeResources index f).Keeps AreStreamed := by
  refine .modify fun model h => ⟨fun i => ?_, h.built⟩
  rcases resourcesAt_modify model.catalog index f i with hsame | hchanged
  · exact hsame ▸ h.listed i
  · exact hchanged ▸ hf _ (h.listed i)

variable [Scalar α]

theorem streamed_font (graph : Graph α) (name : Text) (node : Nat) :
    (font graph name node).Keeps AreStreamed := by
  refine .bind .get fun model => ?_
  split
  · exact .pure _
  · exact .bind (.ofExcept _) fun _ => .bind (.ofExcept _) fun _ =>
      .bind (.modify fun _ h => h.of_eq rfl fun _ => rfl) fun _ => .bind (.ofExcept _) fun _ =>
        .bind (.modify fun _ h => h.of_eq rfl fun _ => rfl) fun _ => .pure _

theorem streamed_addFonts (graph : Graph α) (index : Nat) (entries : List (Text × Object α)) :
    (addFonts graph index entries).Keeps AreStreamed := by
  induction entries with
  | nil => exact .pure _
  | cons entry rest ih =>
    obtain ⟨name, value⟩ := entry
    rw [addFonts]
    cases graph.node? value with
    | none => exact ih
    | some node =>
      exact .bind (streamed_font graph name node) fun _ =>
        .bind (streamed_changeResources index fun _ h => h) fun _ => ih

/-- A picture has the format of its filters. -/
theorem decoded_isStreamed {graph : Graph α} {name : Text} {stream : Nat} {raster : Raster}
    (h : decoded graph name stream = .raster raster) : raster.IsStreamed := by
  unfold decoded at h
  cases hpixels : ((graph.nodes[stream]?).map (·.pixels)).getD .nothing with
  | nothing =>
    rw [hpixels] at h
    cases h
  | failed cause =>
    rw [hpixels] at h
    cases h
  | raster pixels =>
    rw [hpixels] at h
    cases hfilters : filters graph stream with
    | error e =>
      rw [hfilters] at h
      cases h
    | ok names =>
      rw [hfilters] at h
      cases h
      cases hjpeg : names.contains (lit "DCTDecode") with
      | true => exact .inl rfl
      | false => exact .inr rfl

theorem isStreamed_picture {graph : Graph α} {key : Nat} {name : Text} {stream : Nat}
    {p : PictureResource} (h : picture graph key name stream = .ok p) :
    (ExternalObject.picture p).IsStreamed := by
  unfold picture at h
  simp only [bind, Except.bind] at h
  split at h
  · cases h
  · split at h
    · cases h
    · cases h
      exact fun raster => decoded_isStreamed

/-- Whatever object a stream is given, a picture is one that the stream can hold. -/
def StreamedIfAny (found : Option ExternalObject) : Prop := ∀ object ∈ found, object.IsStreamed

theorem streamed_newObject (graph : Graph α) {resources : Object α → Act (ResourceModel α) Nat}
    (hresources : ∀ value, (resources value).Keeps AreStreamed) (key : Text) (stream : Nat) :
    (newObject graph resources key stream).Yields AreStreamed StreamedIfAny := by
  have hform : ∀ form, StreamedIfAny (some (.form form)) := by
    rintro form _ ⟨⟩
    exact trivial
  refine .bind (.of_keeps (.ofExcept _)) fun subtype _ => ?_
  split
  · refine .bind (.of_keeps .get) fun model _ => ?_
    refine .bind (.ofExcept fun p hp => isStreamed_picture hp) fun p hp => ?_
    refine .bind (.of_keeps (streamed_register stream hp)) fun _ _ => .pure ?_
    rintro _ ⟨⟩
    exact hp
  · split
    · refine .bind (.of_keeps (.ofExcept _)) fun matrix _ =>
        .bind (.of_keeps (streamed_newForm _ _ _)) fun form _ =>
          .bind (.of_keeps (streamed_register stream trivial)) fun _ _ => ?_
      split
      · exact .bind (.of_keeps (hresources _)) fun _ _ =>
          .bind (.of_keeps (streamed_setFormResources _ _)) fun _ _ => .pure (hform form)
      · exact .pure (hform form)
    · exact .pure fun _ h => absurd h (Option.not_mem_none _)

theorem streamed_object (graph : Graph α) {resources : Object α → Act (ResourceModel α) Nat}
    (hresources : ∀ value, (resources value).Keeps AreStreamed) (key : Text) (stream : Nat) :
    (object graph resources key stream).Yields AreStreamed StreamedIfAny := by
  intro model h
  rw [object, Act.run_bind_ok (Act.run_get model)]
  cases hlookup : model.objects.lookup stream with
  | none => exact streamed_newObject graph hresources key stream model h
  | some found =>
    have hbuilt := h.built _ (Catalog.mem_of_lookup hlookup)
    refine Act.Yields.pure (fun object hobject => ?_) model h
    cases hobject
    exact hbuilt

theorem streamed_addObjects (graph : Graph α) {resources : Object α → Act (ResourceModel α) Nat}
    (hresources : ∀ value, (resources value).Keeps AreStreamed) (index : Nat)
    (entries : List (Text × Object α)) :
    (addObjects graph resources index entries).Keeps AreStreamed := by
  induction entries with
  | nil => exact .pure _
  | cons entry rest ih =>
    obtain ⟨name, value⟩ := entry
    rw [addObjects]
    cases graph.stream? value with
    | none => exact ih
    | some stream =>
      refine Act.Yields.keeps (.bind (streamed_object graph hresources name stream)
        fun found hfound => .of_keeps ?_)
      cases found with
      | none => exact ih
      | some object =>
        refine .bind (streamed_changeResources index fun r hr => ?_) fun _ => ih
        exact List.forall_mem_append.mpr ⟨hr, List.forall_mem_singleton.mpr (hfound object rfl)⟩

theorem streamed_buildWithin (graph : Graph α) (depth : Nat) :
    ∀ value, (buildWithin graph depth value).Keeps AreStreamed := by
  induction depth with
  | zero => exact fun _ => streamed_newResources
  | succ depth ih =>
    intro value
    rw [buildWithin]
    split
    · exact streamed_newResources
    · refine .bind .get fun model => ?_
      split
      · exact .pure _
      · exact .bind streamed_newResources fun index =>
          .bind (.modify fun _ h => h.of_eq rfl fun _ => rfl) fun _ =>
            .bind (streamed_addFonts graph index _) fun _ =>
              .bind (streamed_addObjects graph ih index _) fun _ => .pure _

/-- Building the resources of a page lists no other pictures. -/
theorem streamed_build (graph : Graph α) (value : Object α) :
    (build graph value).Keeps AreStreamed := streamed_buildWithin graph _ value

end Pdf.ResourceModel

/-! ## What listeners hear -/

/-- Whatever the listener hears keeps the property, if pictures are such as a stream can hold. -/
structure Listener.KeepsStreamed {σ : Type} (l : Listener α σ) (P : σ → Prop) : Prop where
  receive : ∀ e : Event α, e.IsStreamed → (l.receive e).Keeps P
  progress : ∀ done total, (l.progress done total).Keeps P
  report : ∀ r s, P s → P (l.report r s)

namespace Pdf

variable {σ : Type} {P : σ → Prop} [Scalar α]

namespace Walker

variable {c : WalkContext α σ}

/-- A walk sends its operators with the resources of the page or of forms. -/
theorem keeps_walk_streamed (h : c.listener.KeepsStreamed P) (hmodel : c.model.AreStreamed)
    (idle : List Nat) (resources : Resources α) (is : List (Instruction α))
    (hresources : resources.AreStreamed) :
    (walk c idle resources is).Keeps fun w => P w.listener :=
  keeps_walk_listener ⟨fun g => h.receive (.glyph g) trivial, fun op => h.receive (.operator op),
    h.report⟩ hmodel.listed idle resources is hresources

end Walker

namespace Document

/-- The listener of a session has the property, and its model is as it should be. -/
structure Session.Streams (P : σ → Prop) (t : Session α σ) : Prop where
  listener : P t.listener
  model : t.model.AreStreamed

namespace Session

variable {l : Listener α σ}

omit [Scalar α] in
theorem keeps_send (h : l.KeepsStreamed P) {e : Event α} (he : e.IsStreamed) :
    (send l e).Keeps (Streams P) :=
  fun t ht => ⟨h.receive e he t.listener ht.listener, ht.model⟩

omit [Scalar α] in
theorem keeps_report (h : l.KeepsStreamed P) (r : LogRecord) :
    (report l r : Act (Session α σ) Unit).Keeps (Streams P) :=
  .modify fun _ ht => ⟨h.report _ _ ht.listener, ht.model⟩

theorem keeps_walkContent (h : l.KeepsStreamed P) (document : Document α) (frame : Page.Frame α)
    (index : Nat) (content : List (Instruction α)) :
    (walkContent document l frame index content).Keeps (Streams P) := by
  intro t ht
  rw [walkContent, Act.run_bind_ok (Act.run_get t), Act.run_onPart]
  exact ⟨Walker.keeps_walk_streamed (c := ⟨document.graph, t.model, frame.transform, l⟩) h ht.model
    _ _ content (ht.model.listed index) (Walker.start t.listener) ht.listener, ht.model⟩

theorem keeps_page (h : l.KeepsStreamed P) (document : Document α) (number : Nat) :
    (page document l number).Keeps (Streams P) := by
  have hbody : ∀ (page : Page α) (s : PageSummary α),
      (pageBody document l page s).Keeps (Streams P) := by
    intro page s
    refine .bind (fun t ht => ⟨ht.listener, ResourceModel.streamed_build _ _ _ ht.model⟩) fun index =>
      .bind .get fun t => .bind (keeps_send h trivial) fun _ => ?_
    split
    · exact .pure _
    · exact keeps_report h _
    · refine .bind (.ofExcept _) fun turn => ?_
      obtain ⟨turn, warning⟩ := turn
      cases warning with
      | none => exact keeps_walkContent h document _ index _
      | some words =>
        exact .bind (keeps_report h _) fun _ => keeps_walkContent h document _ index _
  unfold page
  split
  · exact .pure _
  · exact .bind (.ofExcept _) fun s => .bind (keeps_send h trivial) fun _ =>
      .ensuring (hbody _ s) (keeps_send h trivial)

theorem keeps_pages (h : l.KeepsStreamed P) (document : Document α) (total : Nat)
    (numbers : List Nat) : ∀ done, (pages document l total done numbers).Keeps (Streams P) := by
  induction numbers with
  | nil => exact fun _ => .pure _
  | cons number rest ih =>
    exact fun done => .bind (keeps_page h document number) fun _ =>
      .bind (fun t ht => ⟨h.progress _ _ t.listener ht.listener, ht.model⟩) fun _ => ih (done + 1)

end Session

/-- What a listener keeps while it hears of such pictures as streams can hold, it keeps through a
document. -/
theorem keeps_run {l : Listener α σ} (h : l.KeepsStreamed P) (document : Document α)
    (selection : Option (List Int)) : (document.run l selection).Keeps P := by
  intro s hs
  have hrun : (Session.run document l selection).Keeps (Session.Streams P) :=
    .bind (.ofExcept _) fun numbers => .bind (Session.keeps_send h trivial) fun _ =>
      .bind (Session.keeps_pages h document _ numbers 0) fun _ => Session.keeps_send h trivial
  rw [run, Act.run_onPart]
  exact (hrun { listener := s } ⟨hs, ResourceModel.areStreamed_start⟩).listener

/-- All events of a record are such. -/
theorem streamed_record (document : Document α) (l : Listener α σ) (selection : Option (List Int))
    (s : σ) : ∀ entry ∈ ((document.run l.recording selection).run (s, [])).2.2,
      entry.2.IsStreamed := by
  have hkeeps : l.recording.KeepsStreamed fun t => ∀ entry ∈ t.2, entry.2.IsStreamed :=
    { receive := fun e he => .bind (.modify fun _ h => List.forall_mem_append.mpr
        ⟨h, List.forall_mem_singleton.mpr he⟩) fun _ _ h => h
      progress := fun _ _ _ h => h
      report := fun _ _ h => h }
  exact keeps_run hkeeps document selection (s, []) fun _ h => absurd h List.not_mem_nil

end Document

end Pdf

end Folio
