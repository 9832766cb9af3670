import Folio.Proofs.Pdf.Pictures

/-!
# Documents heard from two states

Two states are abreast when a listener can go on from either of them in the same way. If each event
of a page, from two such states, has one answer and leaves the listener in two such states again,
then so do pages, one after the other (`Document.Session.tracks_pages`).

On the way through the content of a page, one listener hears for both states at once. It is the
first one to whoever sees its first state, and the second one to whoever sees its second state, so
that the two walks are one (`Walker.tracks_walk`).

A run that succeeds has gone through all its parts (`Document.run_eq_ok`), so that two such runs can
be compared part by part.
-/

namespace Folio

variable {α σ : Type} {R : σ → σ → Prop} {l : Listener α σ}

/-- The listener that hears for two states at once, and answers for the first. -/
def Listener.both (l : Listener α σ) : Listener α (σ × σ) where
  receive e := (l.receive e).both
  progress done total := (l.progress done total).both
  report r p := (l.report r p.1, l.report r p.2)

/-- From states in the relation, whatever is heard of a page has one answer and leads to such
states, if pictures are such as a stream can hold. -/
structure Listener.TracksPages (l : Listener α σ) (R : σ → σ → Prop) : Prop where
  pageBegin : ∀ number crop rotation, (l.receive (.pageBegin number crop rotation)).Tracks R
  pageEnd : (l.receive .pageEnd).Tracks R
  resources : ∀ catalog index, (l.receive (.resources catalog index)).Tracks R
  glyph : ∀ g, (l.receive (.glyph g)).Tracks R
  operator : ∀ op, (∀ r ∈ op.resources, r.AreStreamed) → (l.receive (.operator op)).Tracks R
  progress : ∀ done total, (l.progress done total).Tracks R
  report : ∀ r s t, R s t → R (l.report r s) (l.report r t)

namespace Pdf

variable [Scalar α]

/-- Content is walked alike from states in the relation. -/
theorem Walker.tracks_walk (h : l.TracksPages R) (graph : Graph α) {model : ResourceModel α}
    (hmodel : model.AreStreamed) (page : Affine α) (idle : List Nat) (first : Nat)
    (content : List (Instruction α)) {s t : σ} (hst : R s t) :
    let walked (s : σ) := (walk ⟨graph, model, page, l⟩ idle (model.catalog.resourcesAt first)
      content).run (start s)
    (walked s).1 = (walked t).1 ∧ R (walked s).2.listener (walked t).2.listener := by
  intro walked
  let c : WalkContext α (σ × σ) := ⟨graph, model, page, l.both⟩
  have hfirst : l.both.Mirrors (fun _ => True) (fun p => R p.1 p.2) Prod.fst l
      Resources.AreStreamed :=
    { glyph := fun g _ _ _ => (h.glyph g).mirrors_fst
      operator := fun op hop => (h.operator op hop).mirrors_fst
      report := fun r p hp => ⟨h.report r _ _ hp, rfl⟩ }
  have hsecond : l.both.Mirrors (fun _ => True) (fun p => R p.1 p.2) Prod.snd l
      Resources.AreStreamed :=
    { glyph := fun g _ _ _ => (h.glyph g).mirrors_snd
      operator := fun op hop => (h.operator op hop).mirrors_snd
      report := fun r p hp => ⟨h.report r _ _ hp, rfl⟩ }
  have hstart : (start (s, t) : Walker α (σ × σ)).Draws (fun _ => True) fun p => R p.1 p.2 :=
    draws_start _ hst
  obtain ⟨hkept, hs⟩ := mirrors_walk (c := c) hfirst (fun _ _ => trivial) hmodel.listed idle
    (model.catalog.resourcesAt first) content .page (hmodel.listed first) _ hstart
  obtain ⟨-, ht⟩ := mirrors_walk (c := c) hsecond (fun _ _ => trivial) hmodel.listed idle
    (model.catalog.resourcesAt first) content .page (hmodel.listed first) _ hstart
  have hwalked : walked s = _ := hs
  have hwalked' : walked t = _ := ht
  rw [hwalked, hwalked']
  exact ⟨rfl, hkept.listener⟩

namespace Document

namespace Session

/-- The sessions have built the same resources, and their listeners are in the relation. -/
structure Abreast (R : σ → σ → Prop) (s t : Session α σ) : Prop where
  model : s.model = t.model
  streamed : s.model.AreStreamed
  listener : R s.listener t.listener

omit [Scalar α] in
theorem tracks_send {e : Event α} (h : (l.receive e).Tracks R) :
    (send l e).Tracks (Abreast R) :=
  h.onPart (fun _ _ h => h.listener) fun _ _ _ _ h hR => { h with listener := hR }

omit [Scalar α] in
theorem tracks_report (h : l.TracksPages R) (r : LogRecord) :
    (report l r : Act (Session α σ) Unit).Tracks (Abreast R) :=
  .modify fun _ _ hst => { hst with listener := h.report r _ _ hst.listener }

theorem tracks_resources (document : Document α) (page : Page α) :
    (resources document page : Act (Session α σ) Nat).Tracks (Abreast R) := by
  intro s t h
  have hkept := ResourceModel.streamed_build document.graph page.resources s.model h.streamed
  rw [h.model] at hkept
  rw [resources, Act.run_onPart, Act.run_onPart, h.model]
  exact ⟨rfl, rfl, hkept, h.listener⟩

theorem tracks_walkContent (h : l.TracksPages R) (document : Document α) (frame : Page.Frame α)
    (index : Nat) (content : List (Instruction α)) :
    (walkContent document l frame index content).Tracks (Abreast R) := by
  intro s t hst
  obtain ⟨hanswer, hafter⟩ := Walker.tracks_walk h document.graph hst.streamed frame.transform
    (List.range s.model.catalog.forms.size) index content hst.listener
  rw [walkContent, Act.run_bind_ok (Act.run_get s), Act.run_bind_ok (Act.run_get t), ← hst.model,
    Act.run_onPart, Act.run_onPart]
  exact ⟨hanswer, hst.model, hst.streamed, hafter⟩

theorem tracks_pageBody (h : l.TracksPages R) (document : Document α) (page : Page α)
    (s : PageSummary α) : (pageBody document l page s).Tracks (Abreast R) := by
  refine .bind (tracks_resources document page) fun index => ?_
  refine .get_bind (fun s t hst => by rw [hst.model]) fun t => ?_
  refine .bind (tracks_send (h.resources _ _)) fun _ => ?_
  split
  · exact .pure _
  · exact tracks_report h _
  · refine .bind (.ofExcept _) fun turn => ?_
    obtain ⟨turn, warning⟩ := turn
    cases warning with
    | none => exact tracks_walkContent h document _ index _
    | some words => exact .bind (tracks_report h _) fun _ => tracks_walkContent h document _ index _

theorem tracks_page (h : l.TracksPages R) (document : Document α) (number : Nat) :
    (page document l number).Tracks (Abreast R) := by
  unfold page
  split
  · exact .pure _
  · exact .bind (.ofExcept _) fun s => .bind (tracks_send (h.pageBegin _ _ _)) fun _ =>
      .ensuring (tracks_pageBody h document _ s) (tracks_send h.pageEnd)

/-- Pages are heard alike from states in the relation. -/
theorem tracks_pages (h : l.TracksPages R) (document : Document α) (total : Nat)
    (numbers : List Nat) : ∀ done, (pages document l total done numbers).Tracks (Abreast R) := by
  induction numbers with
  | nil => exact fun _ => .pure _
  | cons number rest ih =>
    intro done
    have hprogress : ((l.progress (done + 1) total).onPart (·.listener)
        fun s session => { session with listener := s }).Tracks (Abreast (α := α) R) :=
      (h.progress (done + 1) total).onPart (fun _ _ h => h.listener)
        fun _ _ _ _ h hR => { h with listener := hR }
    exact .bind (tracks_page h document number) fun _ => .bind hprogress fun _ => ih (done + 1)

/-! ### Runs that succeed -/

/-- A page that is shown has begun. -/
theorem begun_of_pages {document : Document α} {number total done : Nat} {rest : List Nat}
    {s t : Session α σ} (hpage : (document.page? number).isSome)
    (h : (pages document l total done (number :: rest)).run s = (.ok (), t)) :
    ∃ crop rotation, ((l.receive (.pageBegin number crop rotation)).run s.listener).1 = .ok () := by
  obtain ⟨shown, hshown⟩ := Option.isSome_iff_exists.mp hpage
  obtain ⟨_, _, h, -⟩ := Act.run_bind_eq_ok h
  rw [page, hshown] at h
  obtain ⟨summary, -, h⟩ := Act.run_ofExcept_bind_eq_ok h
  obtain ⟨_, _, h, -⟩ := Act.run_bind_eq_ok h
  exact ⟨summary.crop, summary.rotation, congrArg Prod.fst h⟩

end Session

/-- A document that is read to its end has begun, has shown its pages and has ended. -/
theorem run_eq_ok {document : Document α} {selection : Option (List Int)} {s last : σ}
    (h : (document.run l selection).run s = (.ok (), last)) :
    ∃ numbers begun, ∃ paged : Session α σ, document.pageNumbers selection = .ok numbers
      ∧ (l.receive (.documentBegin (some document.title))).run s = (.ok (), begun)
      ∧ (Session.pages document l numbers.length 0 numbers).run { listener := begun }
        = (.ok (), paged)
      ∧ (l.receive .documentEnd).run paged.listener = (.ok (), last) := by
  rw [run, Act.run_onPart] at h
  rcases hrun : (Session.run document l selection).run { listener := s } with ⟨answer, t⟩
  rw [hrun] at h
  obtain ⟨rfl, rfl⟩ := Prod.mk.inj h
  obtain ⟨numbers, hnumbers, hrun⟩ := Act.run_ofExcept_bind_eq_ok hrun
  obtain ⟨_, begun, hbegun, hrun⟩ := Act.run_bind_eq_ok hrun
  obtain ⟨_, paged, hpaged, hended⟩ := Act.run_bind_eq_ok hrun
  rw [Session.send, Act.run_onPart] at hbegun hended
  obtain ⟨hbegin, rfl⟩ := Prod.mk.inj hbegun
  obtain ⟨hend, rfl⟩ := Prod.mk.inj hended
  exact ⟨numbers, _, paged, hnumbers, Prod.ext hbegin rfl, hpaged, Prod.ext hend rfl⟩

end Document

end Pdf

end Folio
