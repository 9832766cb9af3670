import Folio.Pdf.Document
import Folio.Proofs.Pdf.Mirror
import Folio.Proofs.Pdf.Sharing

/-!
# What a listener hears of a document

A listener that also keeps a record, of the events and of the state in which it received each of
them, does all it did before (`run_recording`). So what is said of the record is said of the run
itself.

The record of a document is `Heard`: one event after the other was received, and each of them was
one that may follow those before it (`Follows`). A glyph has a font that the page at hand has
listed, as two searches through the forms agree: the one that lists fonts before the page is walked
and the walk itself. Fonts that have been listed, by whatever pages, are told apart by their keys,
since every font of the document is built once.
-/

namespace Folio

variable {α σ : Type}

/-! ## Events -/

/-- The fonts that an event lists. -/
def Event.fonts : Event α → List (Font α)
  | .resources catalog index => catalog.reachableFonts index
  | _ => []

/-- The event is one of those that a walk through content sends. -/
def Event.IsDrawing : Event α → Prop
  | .glyph _ | .operator _ => True
  | _ => False

/-- The fonts that have been listed. -/
def listedFonts (events : List (Event α)) : List (Font α) := events.flatMap Event.fonts

/-- The page at hand lists the font: since its resources have become known it has only been drawn
on. -/
def PageLists (events : List (Event α)) (font : Font α) : Prop :=
  ∃ early catalog index late, events = early ++ .resources catalog index :: late
    ∧ (∀ e ∈ late, e.IsDrawing) ∧ font ∈ catalog.reachableFonts index

/-- Fonts with one key are one font. -/
def KeysApart (fonts : List (Font α)) : Prop := ∀ f ∈ fonts, ∀ g ∈ fonts, f.key = g.key → f = g

/-- The event may follow those events. -/
structure Follows (events : List (Event α)) (e : Event α) : Prop where
  keysApart : KeysApart (listedFonts (events ++ [e]))
  glyph : ∀ glyph, e = .glyph glyph → ∃ font, glyph.font = some font ∧ PageLists events font

theorem listedFonts_concat (events : List (Event α)) (e : Event α) :
    listedFonts (events ++ [e]) = listedFonts events ++ e.fonts := by
  rw [listedFonts, List.flatMap_append, List.flatMap_singleton]
  rfl

/-- What a page lists has been listed. -/
theorem PageLists.mem_listedFonts {events : List (Event α)} {font : Font α}
    (h : PageLists events font) : font ∈ listedFonts events := by
  obtain ⟨early, catalog, index, late, rfl, -, hfont⟩ := h
  exact List.mem_flatMap.mpr ⟨_, List.mem_append_right _ List.mem_cons_self, hfont⟩

theorem Follows.keysApart_before {events : List (Event α)} {e : Event α} (h : Follows events e) :
    KeysApart (listedFonts events) := by
  have hkeys := h.keysApart
  rw [listedFonts_concat] at hkeys
  exact fun f hf g hg => hkeys f (List.mem_append_left _ hf) g (List.mem_append_left _ hg)

theorem PageLists.draw {events : List (Event α)} {font : Font α} (h : PageLists events font)
    {e : Event α} (he : e.IsDrawing) : PageLists (events ++ [e]) font := by
  obtain ⟨early, catalog, index, late, rfl, hlate, hfont⟩ := h
  refine ⟨early, catalog, index, late ++ [e], ?_, ?_, hfont⟩
  · rw [List.append_assoc, List.cons_append]
  · exact List.forall_mem_append.mpr ⟨hlate, List.forall_mem_singleton.mpr he⟩

theorem fonts_of_isDrawing {e : Event α} (he : e.IsDrawing) : e.fonts = [] := by
  cases e <;> first | rfl | exact he.elim

/-! ## Records -/

/-- The events that were received, each with the state in which it was. -/
abbrev Record (α σ : Type) := List (σ × Event α)

namespace Listener

/-- The listener that also keeps a record of what it receives. -/
def recording (l : Listener α σ) : Listener α (σ × Record α σ) where
  receive e := do
    modify fun (s, record) => (s, record ++ [(s, e)])
    (l.receive e).onPart (·.1) fun s t => (s, t.2)
  progress done total := (l.progress done total).onPart (·.1) fun s t => (s, t.2)
  report r t := (l.report r t.1, t.2)

/-- From the state `first` on, the listener has received the events of the record and nothing else;
in between it may have been given reports and told of progress. -/
inductive Heard (l : Listener α σ) (first : σ) : Record α σ → σ → Prop
  | start : Heard l first [] first
  | receive {record : Record α σ} {s : σ} (h : Heard l first record s) {e : Event α}
    (hfollows : Follows (record.map (·.2)) e) :
    Heard l first (record ++ [(s, e)]) ((l.receive e).run s).2
  | report {record : Record α σ} {s : σ} (h : Heard l first record s) (r : LogRecord) :
    Heard l first record (l.report r s)
  | progress {record : Record α σ} {s : σ} (h : Heard l first record s) (done total : Nat) :
    Heard l first record ((l.progress done total).run s).2

/-- An event of the record was received in its state after those before it, which it may follow. -/
theorem Heard.of_append {l : Listener α σ} {first last : σ} {record : Record α σ}
    (h : l.Heard first record last) : ∀ {before after : Record α σ} {s : σ} {e : Event α},
    record = before ++ (s, e) :: after →
      l.Heard first before s ∧ Follows (before.map (·.2)) e := by
  induction h with
  | start =>
    intro before after s e hrecord
    cases before <;> cases hrecord
  | @receive record s' h e' hfollows ih =>
    intro before after s e hrecord
    rcases after.eq_nil_or_concat with rfl | ⟨front, final, rfl⟩
    · obtain ⟨rfl, hlast⟩ := List.append_inj' hrecord rfl
      cases hlast
      exact ⟨h, hfollows⟩
    · rw [List.concat_eq_append, ← List.cons_append, ← List.append_assoc] at hrecord
      exact ih (List.append_inj' hrecord rfl).1
  | report _ _ ih => exact ih
  | progress _ _ _ ih => exact ih

end Listener

namespace Pdf.Document.Session

variable {l : Listener α σ} {first : σ}

/-! ## Between pages -/

/-- The session without its record. -/
def unrecorded (t : Session α (σ × Record α σ)) : Session α σ := ⟨t.model, t.listener.1⟩

def events (t : Session α (σ × Record α σ)) : List (Event α) := t.listener.2.map (·.2)

/-- What has been heard so far, and all fonts listed so far are among those that have been built. -/
structure Kept (l : Listener α σ) (first : σ) (t : Session α (σ × Record α σ)) : Prop where
  heard : l.Heard first t.listener.2 t.listener.1
  shares : t.model.Shares (listedFonts t.events)

/-- What has been heard so far, on a page whose resources are known. -/
structure OnPage (l : Listener α σ) (first : σ) (index : Nat)
    (t : Session α (σ × Record α σ)) : Prop extends Kept l first t where
  lists : ∀ font ∈ t.model.catalog.reachableFonts index, PageLists t.events font

/-- The session when its listener has received an event. -/
def received (l : Listener α σ) (e : Event α) (t : Session α (σ × Record α σ)) :
    Session α (σ × Record α σ) :=
  { t with listener := (((l.receive e).run t.listener.1).2, t.listener.2 ++ [(t.listener.1, e)]) }

theorem run_send_unrecorded (e : Event α) (t : Session α (σ × Record α σ)) :
    (send l e).run t.unrecorded
      = (((send l.recording e).run t).1, ((send l.recording e).run t).2.unrecorded) := rfl

theorem events_received (e : Event α) (t : Session α (σ × Record α σ)) :
    (t.received l e).events = t.events ++ [e] := List.map_append

/-- An event may follow if the fonts that it lists have been built, and a glyph if the page lists
its font. -/
theorem Kept.receive {t : Session α (σ × Record α σ)} (h : Kept l first t) {e : Event α}
    (hlisted : ∀ font ∈ e.fonts, font ∈ t.model.built)
    (hglyph : ∀ glyph, e = .glyph glyph →
      ∃ font, glyph.font = some font ∧ PageLists t.events font) : Kept l first (t.received l e) := by
  have hbuilt : ∀ font ∈ listedFonts (t.events ++ [e]), font ∈ t.model.built := by
    rw [listedFonts_concat]
    exact List.forall_mem_append.mpr ⟨h.shares.known, hlisted⟩
  refine ⟨h.heard.receive ⟨fun f hf g hg => ?_, hglyph⟩, h.shares.keys, h.shares.listed, ?_⟩
  · exact h.shares.eq_of_key_eq (hbuilt f hf) (hbuilt g hg)
  · rw [events_received]
    exact hbuilt

/-- Most events list no fonts and are no glyphs. -/
theorem mirrors_send {e : Event α} (hfonts : e.fonts = []) (hglyph : ∀ glyph, e ≠ .glyph glyph) :
    Act.Mirrors (Kept l first) unrecorded (send l.recording e) (send l e) := by
  refine fun t h => ⟨h.receive (fun font hfont => ?_) (fun g hg => absurd hg (hglyph g)), rfl⟩
  rw [hfonts] at hfont
  exact absurd hfont List.not_mem_nil

theorem OnPage.draw {index : Nat} {t : Session α (σ × Record α σ)} (h : OnPage l first index t)
    {e : Event α} (he : e.IsDrawing)
    (hglyph : ∀ glyph, e = .glyph glyph →
      ∃ font, glyph.font = some font ∧ PageLists t.events font) :
    OnPage l first index (t.received l e) where
  toKept := h.toKept.receive (fun font hfont => absurd (fonts_of_isDrawing he ▸ hfont)
    List.not_mem_nil) hglyph
  lists font hfont := by
    rw [events_received]
    exact (h.lists font hfont).draw he

/-- The resources of a page list what can be reached from them. -/
theorem Kept.receive_resources {t : Session α (σ × Record α σ)} (h : Kept l first t)
    (index : Nat) : OnPage l first index (t.received l (.resources t.model.catalog index)) where
  toKept := h.receive (fun _ hfont => h.shares.mem_built_of_reachable hfont) fun _ hg => by cases hg
  lists font hfont := by
    rw [events_received]
    exact ⟨t.events, _, index, [], rfl, fun _ he => absurd he List.not_mem_nil, hfont⟩

theorem mirrors_report {P : Session α (σ × Record α σ) → Prop} {r : LogRecord}
    (hP : ∀ t, P t → P { t with listener := (l.report r t.listener.1, t.listener.2) }) :
    Act.Mirrors P unrecorded (report l.recording r) (report l r) :=
  .modify hP fun _ _ => rfl

theorem OnPage.report {index : Nat} (r : LogRecord) (t : Session α (σ × Record α σ))
    (h : OnPage l first index t) :
    OnPage l first index { t with listener := (l.report r t.listener.1, t.listener.2) } where
  heard := h.heard.report r
  shares := h.shares
  lists := h.lists

variable [Scalar α]

theorem mirrors_resources (document : Document α) (page : Page α) :
    Act.Mirrors (Kept l first) unrecorded (resources document page) (resources document page) :=
  fun _ h => ⟨⟨h.heard, ResourceModel.keeps_build _ _ _ h.shares⟩, rfl⟩

/-! ## On a page -/

/-- A walk through content whose fonts the page lists. -/
theorem mirrors_walkContent (document : Document α) (frame : Page.Frame α) (index : Nat)
    (content : List (Instruction α)) :
    Act.Mirrors (OnPage l first index) unrecorded
      (walkContent document l.recording frame index content)
      (walkContent document l frame index content) := by
  intro t h
  -- While the content is walked, only the listener of the session changes.
  let P : σ × Record α σ → Prop := fun listener => OnPage l first index { t with listener }
  let reached : Font α → Prop := fun font => font ∈ t.model.catalog.reachableFonts index
  have hlistens : l.recording.Mirrors reached P Prod.fst l :=
    { glyph := fun g font hfont hreached listener hP =>
        ⟨OnPage.draw hP trivial fun _ hg => Event.glyph.inj hg ▸
          ⟨font, hfont, hP.lists font hreached⟩, rfl⟩
      operator := fun op _ listener hP => ⟨OnPage.draw hP trivial fun _ hg => (by cases hg), rfl⟩
      report := fun r listener hP => ⟨OnPage.report r _ hP, rfl⟩ }
  let c : WalkContext α (σ × Record α σ) :=
    ⟨document.graph, t.model, frame.transform, l.recording⟩
  obtain ⟨hkept, hseen⟩ := Walker.mirrors_walk (c := c) hlistens (fun _ hfont => hfont)
    (fun _ => trivial) (List.range t.model.catalog.forms.size) (t.model.catalog.resourcesAt index)
    content .page trivial (Walker.start t.listener) (Walker.draws_start _ h)
  rw [walkContent, walkContent, Act.run_bind_ok (Act.run_get t),
    Act.run_bind_ok (Act.run_get t.unrecorded)]
  refine ⟨hkept.listener, ?_⟩
  rw [Act.run_onPart, Act.run_onPart]
  exact congrArg (fun r : Except Fault Unit × Walker α σ =>
    (r.1, ({ model := t.model, listener := r.2.listener } : Session α σ))) hseen

theorem mirrors_pageBody (document : Document α) (page : Page α) (s : PageSummary α) :
    Act.Mirrors (Kept l first) unrecorded (pageBody document l.recording page s)
      (pageBody document l page s) := by
  refine .bind (mirrors_resources document page) fun index t h => ?_
  rw [Act.run_bind_ok (Act.run_get t), Act.run_bind_ok (Act.run_get t.unrecorded)]
  -- From here on the resources of the page are known.
  refine And.imp_left OnPage.toKept (Act.Mirrors.bind_at (P := OnPage l first index)
    (run_send_unrecorded _ t) (h.receive_resources index) fun _ => ?_)
  split
  · exact .pure _
  · exact mirrors_report (OnPage.report _)
  · refine .bind (.ofExcept _) fun turn => ?_
    obtain ⟨turn, warning⟩ := turn
    cases warning with
    | none => exact mirrors_walkContent document _ index _
    | some words =>
      exact .bind (mirrors_report (OnPage.report _)) fun _ => mirrors_walkContent document _ index _

theorem mirrors_page (document : Document α) (number : Nat) :
    Act.Mirrors (Kept l first) unrecorded (page document l.recording number)
      (page document l number) := by
  unfold page
  split
  · exact .pure _
  · refine .bind (.ofExcept _) fun s => .bind (mirrors_send rfl fun _ he => ?_) fun _ =>
      .ensuring (mirrors_pageBody document _ s) (mirrors_send rfl fun _ he => ?_)
    · cases he
    · cases he

/-! ## The document -/

theorem mirrors_pages (document : Document α) (total : Nat) (numbers : List Nat) :
    ∀ done, Act.Mirrors (Kept l first) unrecorded (pages document l.recording total done numbers)
      (pages document l total done numbers) := by
  induction numbers with
  | nil => exact fun _ => .pure _
  | cons number rest ih =>
    intro done
    have hprogress : Act.Mirrors (Kept l first) unrecorded
        ((l.recording.progress (done + 1) total).onPart (·.listener)
          fun s session => { session with listener := s })
        ((l.progress (done + 1) total).onPart (·.listener)
          fun s session => { session with listener := s }) :=
      fun t h => ⟨⟨h.heard.progress _ _, h.shares⟩, rfl⟩
    exact .bind (mirrors_page document number) fun _ => .bind hprogress fun _ => ih (done + 1)

theorem mirrors_run (document : Document α) (selection : Option (List Int)) :
    Act.Mirrors (Kept l first) unrecorded (run document l.recording selection)
      (run document l selection) := by
  refine .bind (.ofExcept _) fun numbers => .bind (mirrors_send rfl fun _ he => ?_) fun _ =>
    .bind (mirrors_pages document _ numbers 0) fun _ => mirrors_send rfl fun _ he => ?_
  · cases he
  · cases he

end Session

/-- A document is heard by a recording listener as it is by the listener itself, and the record is
that of what it has heard. -/
theorem run_recording [Scalar α] (document : Document α) (l : Listener α σ)
    (selection : Option (List Int)) (s : σ) :
    ∃ (answer : Except Fault Unit) (last : σ) (record : Record α σ),
      (document.run l selection).run s = (answer, last)
        ∧ (document.run l.recording selection).run (s, []) = (answer, last, record)
        ∧ l.Heard s record last := by
  obtain ⟨hkept, hseen⟩ := Session.mirrors_run (l := l) document selection
    { listener := (s, []) } ⟨.start, ResourceModel.shares_start⟩
  rw [run, run, Act.run_onPart, Act.run_onPart]
  exact ⟨_, _, _, congrArg (fun r : Except Fault Unit × Session α σ => (r.1, r.2.listener)) hseen,
    rfl, hkept.heard⟩

end Pdf.Document

end Folio
