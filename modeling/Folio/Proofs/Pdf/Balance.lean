import Folio.Proofs.Pdf.Recording

/-!
# Events come in order and in balance

A document is told in one order: it begins, its pages are told one after the other, and it ends; a
page begins, its resources are known, it is drawn on and it ends (`IsDocument`). Anything may fail
on the way, for a page may be unreadable and the listener may refuse whatever it receives, and then
the rest is left out. But a page that has begun is ended before anything else is told and before the
failure goes on to the caller, and the document is ended only if nothing has failed
(`events_inOrder`).

What a page adds to the record is nothing, if nothing can be said of it, or its beginning alone, if
the listener refuses that, or the page from its beginning to its end (`PageCourse`, `adds_page`).
Pages are told up to the first that fails (`PagesCourse`, `adds_pages`), behind the beginning of the
document and in front of its end (`Course`, `course_run`). Order and balance are read off from that.
-/

namespace Folio

variable {α σ : Type}

/-! ## Order and balance -/

/-- The event belongs between the beginning and the end of a page. -/
def Event.IsInner : Event α → Prop
  | .resources .. | .glyph _ | .operator _ => True
  | _ => False

/-- The event follows a page: the next one begins, or the document ends. -/
def Event.IsOuter : Event α → Prop
  | .pageBegin .. | .documentEnd => True
  | _ => False

/-- What is heard of a page between its beginning and its end: its resources come before everything
that is drawn. -/
def IsContent (events : List (Event α)) : Prop :=
  events = [] ∨ ∃ catalog index late, events = .resources catalog index :: late
    ∧ ∀ e ∈ late, e.IsDrawing

/-- The page of that number, from its beginning to its end. -/
def IsPage (number : Nat) (events : List (Event α)) : Prop :=
  ∃ crop rotation content, IsContent content
    ∧ events = .pageBegin number crop rotation :: (content ++ [.pageEnd])

/-- A document with pages of those numbers, from its beginning to its end. -/
def IsDocument (title : Text) (numbers : List Nat) (events : List (Event α)) : Prop :=
  ∃ pages, List.Forall₂ IsPage numbers pages
    ∧ events = .documentBegin (some title) :: (pages.flatten ++ [.documentEnd])

/-- A page is ended once in those events, before they come to anything else than the page. -/
def EndsPage (events : List (Event α)) : Prop :=
  ∃ content rest, events = content ++ .pageEnd :: rest ∧ (∀ e ∈ content, e.IsInner)
    ∧ ∀ e ∈ rest.head?, e.IsOuter

/-- Every page whose beginning the listener has taken is ended. -/
def Balanced (l : Listener α σ) (record : Record α σ) : Prop :=
  ∀ before s number crop rotation after,
    record = before ++ (s, .pageBegin number crop rotation) :: after →
    ((l.receive (.pageBegin number crop rotation)).run s).1 = .ok () →
    EndsPage (after.map (·.2))

/-- There can be a page of any number. -/
theorem exists_pages [Scalar α] (numbers : List Nat) :
    ∃ pages, List.Forall₂ (IsPage (α := α)) numbers pages := by
  induction numbers with
  | nil => exact ⟨[], .nil⟩
  | cons number numbers ih =>
    obtain ⟨pages, hpages⟩ := ih
    exact ⟨_ :: pages, .cons ⟨⟨0, 0, 0, 0⟩, 0, [], .inl rfl, rfl⟩ hpages⟩

theorem isInner_of_isContent {events : List (Event α)} (h : IsContent events) :
    ∀ e ∈ events, e.IsInner := by
  rcases h with rfl | ⟨catalog, index, late, rfl, hlate⟩
  · exact fun e he => absurd he List.not_mem_nil
  · refine List.forall_mem_cons.mpr ⟨trivial, fun e he => ?_⟩
    have hdrawing := hlate e he
    cases e <;> first | exact trivial | exact hdrawing.elim

theorem EndsPage.append {events more : List (Event α)} (h : EndsPage events)
    (hmore : ∀ e ∈ more.head?, e.IsOuter) : EndsPage (events ++ more) := by
  obtain ⟨content, rest, rfl, hcontent, hrest⟩ := h
  refine ⟨content, rest ++ more, by rw [List.append_assoc]; rfl, hcontent, ?_⟩
  cases rest with
  | nil => exact hmore
  | cons e rest => exact hrest

namespace Balanced

variable {l : Listener α σ}

theorem nil : Balanced l [] := by
  intro before s number crop rotation after hrecord
  exact absurd hrecord.symm (List.append_ne_nil_of_right_ne_nil _ (List.cons_ne_nil _ _))

theorem cons {s : σ} {e : Event α} {record : Record α σ} (h : Balanced l record)
    (hfirst : ∀ number crop rotation, e = .pageBegin number crop rotation →
      ((l.receive e).run s).1 = .ok () → EndsPage (record.map (·.2))) :
    Balanced l ((s, e) :: record) := by
  intro before s' number crop rotation after hrecord htaken
  cases before with
  | nil =>
    obtain ⟨hentry, rfl⟩ := List.cons.inj hrecord
    cases hentry
    exact hfirst number crop rotation rfl htaken
  | cons entry before =>
    obtain ⟨-, hrest⟩ := List.cons.inj hrecord
    exact h before s' number crop rotation after hrest htaken

/-- An event that begins no page needs nothing after it. -/
theorem cons_of_ne {s : σ} {e : Event α} {record : Record α σ} (h : Balanced l record)
    (he : ∀ number crop rotation, e ≠ .pageBegin number crop rotation) :
    Balanced l ((s, e) :: record) :=
  h.cons fun number crop rotation hbegins => absurd hbegins (he number crop rotation)

/-- What follows a balanced record must not go on with its last page. -/
theorem append {first second : Record α σ} (hfirst : Balanced l first) (hsecond : Balanced l second)
    (hstart : ∀ entry ∈ second.head?, entry.2.IsOuter) : Balanced l (first ++ second) := by
  induction first with
  | nil => exact hsecond
  | cons entry first ih =>
    obtain ⟨s, e⟩ := entry
    have hrest : Balanced l first := fun before s' number crop rotation after hrecord =>
      hfirst ((s, e) :: before) s' number crop rotation after (congrArg _ hrecord)
    refine (ih hrest).cons ?_
    rintro number crop rotation rfl htaken
    have hends := hfirst [] s number crop rotation first rfl htaken
    rw [List.map_append]
    refine hends.append fun e he => ?_
    rw [List.head?_map] at he
    obtain ⟨entry, hentry, rfl⟩ := Option.map_eq_some_iff.mp he
    exact hstart entry hentry

/-- What belongs to a page that has begun before needs nothing after it. -/
theorem of_inner {record : Record α σ} (h : ∀ entry ∈ record, entry.2.IsInner)
    {last : Record α σ} (hlast : Balanced l last) : Balanced l (record ++ last) := by
  induction record with
  | nil => exact hlast
  | cons entry record ih =>
    obtain ⟨hentry, hrecord⟩ := List.forall_mem_cons.mp h
    refine (ih hrecord).cons_of_ne ?_
    rintro number crop rotation hbegins
    rw [hbegins] at hentry
    exact hentry

end Balanced

/-! ## What pages add -/

/-- What a page of that number adds to the record. -/
inductive PageCourse (l : Listener α σ) (number : Nat) : Except Fault Unit → Record α σ → Prop
  /-- Nothing can be said of the page. -/
  | unsaid (e : Fault) : PageCourse l number (.error e) []
  /-- The listener refuses to begin the page. -/
  | refused {s : σ} {crop : CropBox α} {rotation : Int} {e : Fault}
    (h : ((l.receive (.pageBegin number crop rotation)).run s).1 = .error e) :
    PageCourse l number (.error e) [(s, .pageBegin number crop rotation)]
  /-- The page is told to its end, even if it fails on the way. -/
  | told {s s' : σ} {crop : CropBox α} {rotation : Int} {content : Record α σ}
    (h : IsContent (content.map (·.2))) (answer : Except Fault Unit) :
    PageCourse l number answer
      ((s, .pageBegin number crop rotation) :: (content ++ [(s', .pageEnd)]))

/-- What pages of those numbers add to the record, up to the first failure. -/
inductive PagesCourse (l : Listener α σ) : List Nat → Except Fault Unit → Record α σ → Prop
  | done : PagesCourse l [] (.ok ()) []
  | next {number : Nat} {rest : List Nat} {answer : Except Fault Unit} {early record : Record α σ}
    (hpage : PageCourse l number (.ok ()) early) (h : PagesCourse l rest answer record) :
    PagesCourse l (number :: rest) answer (early ++ record)
  /-- The page fails, or the report of progress behind it does. -/
  | cut {number : Nat} {rest : List Nat} {answer : Except Fault Unit} {early : Record α σ}
    (hpage : PageCourse l number answer early) (e : Fault) :
    PagesCourse l (number :: rest) (.error e) early

section

variable {l : Listener α σ} {number : Nat} {numbers : List Nat} {answer : Except Fault Unit}
  {record : Record α σ}

theorem PageCourse.balanced (h : PageCourse l number answer record) : Balanced l record := by
  cases h with
  | unsaid e => exact .nil
  | refused hrefused =>
    refine .cons .nil fun _ _ _ _ htaken => ?_
    rw [hrefused] at htaken
    cases htaken
  | @told s s' crop rotation content hcontent =>
    have hinner := isInner_of_isContent hcontent
    have hlast : Balanced l [(s', .pageEnd)] := .cons_of_ne .nil fun _ _ _ h => by cases h
    refine .cons (.of_inner (fun entry hentry => hinner _ (List.mem_map_of_mem hentry)) hlast) ?_
    intro _ _ _ _ _
    exact ⟨content.map (·.2), [], List.map_append, hinner,
      fun _ h => absurd h (Option.not_mem_none _)⟩

/-- A page begins with its beginning. -/
theorem PageCourse.isOuter (h : PageCourse l number answer record) :
    ∀ entry ∈ record.head?, entry.2.IsOuter := by
  cases h with
  | unsaid e => exact fun _ h => absurd h (Option.not_mem_none _)
  | refused _ =>
    rintro _ ⟨⟩
    exact trivial
  | told _ =>
    rintro _ ⟨⟩
    exact trivial

theorem PageCourse.documentEnd_not_mem (h : PageCourse l number answer record) :
    .documentEnd ∉ record.map (·.2) := by
  cases h with
  | unsaid e => exact List.not_mem_nil
  | refused _ =>
    intro hmem
    cases List.mem_singleton.mp hmem
  | @told s s' crop rotation content hcontent =>
    rw [List.map_cons, List.map_append]
    intro hmem
    rcases List.mem_cons.mp hmem with hmem | hmem
    · cases hmem
    · rcases List.mem_append.mp hmem with hmem | hmem
      · exact isInner_of_isContent hcontent _ hmem
      · cases List.mem_singleton.mp hmem

/-- Whatever becomes of a page, it might have been told to its end. -/
theorem PageCourse.exists_isPage [Scalar α] (h : PageCourse l number answer record) :
    ∃ events, IsPage number events ∧ record.map (·.2) <+: events
      ∧ (answer = .ok () → events = record.map (·.2)) := by
  cases h with
  | unsaid e =>
    refine ⟨_, ⟨⟨0, 0, 0, 0⟩, 0, [], .inl rfl, rfl⟩, List.nil_prefix, fun h => ?_⟩
    cases h
  | @refused s crop rotation e _ =>
    refine ⟨_, ⟨crop, rotation, [], .inl rfl, rfl⟩, ⟨[.pageEnd], rfl⟩, fun h => ?_⟩
    cases h
  | @told s s' crop rotation content hcontent =>
    refine ⟨_, ⟨crop, rotation, _, hcontent, rfl⟩, ?_, fun _ => ?_⟩
    · rw [List.map_cons, List.map_append]
      exact List.prefix_refl _
    · rw [List.map_cons, List.map_append]
      rfl

namespace PagesCourse

theorem isOuter (h : PagesCourse l numbers answer record) :
    ∀ entry ∈ record.head?, entry.2.IsOuter := by
  induction h with
  | done => exact fun _ h => absurd h (Option.not_mem_none _)
  | @next number rest answer early record hpage _ ih =>
    have hstart := hpage.isOuter
    cases early with
    | nil => exact ih
    | cons entry early => exact hstart
  | cut hpage _ => exact hpage.isOuter

theorem balanced (h : PagesCourse l numbers answer record) : Balanced l record := by
  induction h with
  | done => exact .nil
  | next hpage hrest ih => exact hpage.balanced.append ih hrest.isOuter
  | cut hpage _ => exact hpage.balanced

theorem documentEnd_not_mem (h : PagesCourse l numbers answer record) :
    .documentEnd ∉ record.map (·.2) := by
  induction h with
  | done => exact List.not_mem_nil
  | next hpage _ ih =>
    rw [List.map_append]
    intro hmem
    rcases List.mem_append.mp hmem with hmem | hmem
    · exact hpage.documentEnd_not_mem hmem
    · exact ih hmem
  | cut hpage _ => exact hpage.documentEnd_not_mem

theorem exists_isPage [Scalar α] (h : PagesCourse l numbers answer record) :
    ∃ pages, List.Forall₂ IsPage numbers pages ∧ record.map (·.2) <+: pages.flatten
      ∧ (answer = .ok () → pages.flatten = record.map (·.2)) := by
  induction h with
  | done => exact ⟨[], .nil, List.nil_prefix, fun _ => rfl⟩
  | next hfirst _ ih =>
    obtain ⟨events, hpage, -, hwhole⟩ := hfirst.exists_isPage
    obtain ⟨pages, hpages, hprefix, hall⟩ := ih
    rw [List.map_append, ← hwhole rfl]
    refine ⟨events :: pages, .cons hpage hpages, ?_, fun hanswer => ?_⟩
    · rw [List.flatten_cons]
      exact (List.prefix_append_right_inj events).mpr hprefix
    · rw [List.flatten_cons, hall hanswer]
  | @cut number rest answer early hfirst e =>
    obtain ⟨events, hpage, hprefix, -⟩ := hfirst.exists_isPage
    -- The pages that are left out might have been told as well.
    obtain ⟨pages, hpages⟩ := exists_pages (α := α) rest
    refine ⟨events :: pages, .cons hpage hpages, ?_, fun h => by cases h⟩
    rw [List.flatten_cons]
    exact hprefix.trans (List.prefix_append _ _)

end PagesCourse

end

namespace Pdf.Document

/-! ## What a run adds to the record -/

namespace Session

variable {l : Listener α σ} {β γ : Type}

/-- Whatever the record is, the step adds events to it, and its answer and they are related. -/
def Adds (Q : Except Fault β → Record α σ → Prop) (x : Act (Session α (σ × Record α σ)) β) : Prop :=
  ∀ t, ∃ added, (x.run t).2.listener.2 = t.listener.2 ++ added ∧ Q (x.run t).1 added

/-- Nothing is added. -/
def Nothing (_ : Except Fault β) (added : Record α σ) : Prop := added = []

/-- The listener has been sent the event and given that answer. -/
def Sent (l : Listener α σ) (e : Event α) (answer : Except Fault Unit) (added : Record α σ) :
    Prop :=
  ∃ s, added = [(s, e)] ∧ answer = ((l.receive e).run s).1

/-- The page has been drawn on. -/
def Drawn (_ : Except Fault Unit) (added : Record α σ) : Prop := ∀ entry ∈ added, entry.2.IsDrawing

/-- What happens on a page has been told. -/
def Told (_ : Except Fault Unit) (added : Record α σ) : Prop := IsContent (added.map (·.2))

namespace Adds

variable {Q R S : Except Fault Unit → Record α σ → Prop}

theorem mono {x : Act (Session α (σ × Record α σ)) Unit} (hx : Adds Q x)
    (h : ∀ answer added, Q answer added → R answer added) : Adds R x := by
  intro t
  obtain ⟨added, hadded, hQ⟩ := hx t
  exact ⟨added, hadded, h _ _ hQ⟩

theorem bind {Q : Except Fault β → Record α σ → Prop} {S : Except Fault γ → Record α σ → Prop}
    {R : β → Except Fault γ → Record α σ → Prop} {x : Act (Session α (σ × Record α σ)) β}
    {f : β → Act (Session α (σ × Record α σ)) γ} (hx : Adds Q x) (hf : ∀ b, Adds (R b) (f b))
    (herror : ∀ e added, Q (.error e) added → S (.error e) added)
    (hok : ∀ b first answer second, Q (.ok b) first → R b answer second →
      S answer (first ++ second)) : Adds S (x >>= f) := by
  intro t
  obtain ⟨first, hfirst, hQ⟩ := hx t
  rw [Act.run_bind]
  rcases hrun : x.run t with ⟨e | b, t'⟩
  · rw [hrun] at hfirst hQ
    exact ⟨first, hfirst, herror e first hQ⟩
  · rw [hrun] at hfirst hQ
    obtain ⟨second, hsecond, hR⟩ := hf b t'
    refine ⟨first ++ second, ?_, hok b first _ second hQ hR⟩
    rw [hsecond, ← List.append_assoc]
    exact congrArg (· ++ second) hfirst

/-- A step that adds nothing may come first, if it may fail. -/
theorem after {x : Act (Session α (σ × Record α σ)) β}
    {f : β → Act (Session α (σ × Record α σ)) Unit} (hx : Adds Nothing x) (hf : ∀ b, Adds S (f b))
    (herror : ∀ e, S (.error e) []) : Adds S (x >>= f) := by
  refine hx.bind hf ?_ ?_
  · rintro e _ rfl
    exact herror e
  · rintro b _ answer second rfl hS
    exact hS

/-- What is sent at the end is sent after all that the step adds, however it ends. -/
theorem ensuring {x : Act (Session α (σ × Record α σ)) Unit} (hx : Adds Q x) {l : Listener α σ}
    {e : Event α} (h : ∀ before added s answer, Q before added → S answer (added ++ [(s, e)])) :
    Adds S (x.ensuring (send l.recording e)) := by
  intro t
  obtain ⟨added, hadded, hQ⟩ := hx t
  refine ⟨added ++ [((x.run t).2.listener.1, e)], ?_, h _ added _ _ hQ⟩
  have hsent : ((send l.recording e).run (x.run t).2).2.listener.2
      = (x.run t).2.listener.2 ++ [((x.run t).2.listener.1, e)] := rfl
  rw [Act.run_ensuring_eq, ← List.append_assoc, ← hadded, ← hsent]
  rcases (send l.recording e).run (x.run t).2 with ⟨_ | _, t'⟩ <;> rfl

end Adds

theorem adds_pure (b : β) : Adds (α := α) (σ := σ) Nothing (pure b : Act _ β) :=
  fun _ => ⟨[], (List.append_nil _).symm, rfl⟩

theorem adds_get : Adds (α := α) (σ := σ) Nothing get :=
  fun _ => ⟨[], (List.append_nil _).symm, rfl⟩

theorem adds_ofExcept (x : Except Fault β) : Adds (α := α) (σ := σ) Nothing (Act.ofExcept x) := by
  intro t
  rw [Act.run_ofExcept]
  exact ⟨[], (List.append_nil _).symm, rfl⟩

theorem adds_report (r : LogRecord) : Adds Nothing (report l.recording r) :=
  fun _ => ⟨[], (List.append_nil _).symm, rfl⟩

theorem adds_progress (done total : Nat) :
    Adds Nothing ((l.recording.progress done total).onPart (·.listener)
      fun s (session : Session α (σ × Record α σ)) => { session with listener := s }) :=
  fun _ => ⟨[], (List.append_nil _).symm, rfl⟩

/-- An event that is sent is recorded, whether the listener takes it or not. -/
theorem adds_send (e : Event α) : Adds (Sent l e) (send l.recording e) :=
  fun t => ⟨[(t.listener.1, e)], rfl, t.listener.1, rfl, rfl⟩

theorem drawn_of_nothing {answer : Except Fault Unit} {added : Record α σ}
    (h : Nothing answer added) : Drawn answer added := by
  rintro entry hentry
  rw [h] at hentry
  exact absurd hentry List.not_mem_nil

variable [Scalar α]

theorem adds_resources (document : Document α) (page : Page α) :
    Adds (σ := σ) Nothing (resources document page) := fun _ => ⟨[], (List.append_nil _).symm, rfl⟩

theorem adds_walkContent (document : Document α) (frame : Page.Frame α) (index : Nat)
    (content : List (Instruction α)) :
    Adds Drawn (walkContent document l.recording frame index content) := by
  intro t
  -- Whatever the walk has sent so far is behind what was there before.
  let P : σ × Record α σ → Prop := fun listener =>
    ∃ added, listener.2 = t.listener.2 ++ added ∧ ∀ entry ∈ added, entry.2.IsDrawing
  have hsent : ∀ e : Event α, e.IsDrawing → (l.recording.receive e).Keeps P := by
    rintro e he listener ⟨added, hadded, hdrawn⟩
    refine ⟨added ++ [(listener.1, e)], ?_,
      List.forall_mem_append.mpr ⟨hdrawn, List.forall_mem_singleton.mpr he⟩⟩
    rw [← List.append_assoc, ← hadded]
    rfl
  have hkeeps : Walker.KeepsDrawing l.recording P :=
    ⟨fun g => hsent (.glyph g) trivial, fun op _ => hsent (.operator op) trivial, fun _ _ h => h⟩
  have hstart : P t.listener :=
    ⟨[], (List.append_nil _).symm, fun _ h => absurd h List.not_mem_nil⟩
  rw [walkContent, Act.run_bind_ok (Act.run_get t), Act.run_onPart]
  exact Walker.keeps_walk_listener
    (c := ⟨document.graph, t.model, frame.transform, l.recording⟩) hkeeps (fun _ => trivial) _ _
    content trivial (Walker.start t.listener) hstart

/-- Between the beginning of a page and its end its resources are sent, unless they cannot be built,
and if the listener takes them, the page is drawn on. -/
theorem adds_pageBody (document : Document α) (page : Page α) (s : PageSummary α) :
    Adds Told (pageBody document l.recording page s) := by
  refine (adds_resources document page).after (fun index => adds_get.after (fun known => ?_) ?_) ?_
  · refine (adds_send _).bind (R := fun _ => Drawn) (fun _ => ?_) ?_ ?_
    · split
      · exact (adds_pure ()).mono fun _ _ => drawn_of_nothing
      · exact (adds_report _).mono fun _ _ => drawn_of_nothing
      · refine (adds_ofExcept _).after (fun turn => ?_) fun _ => drawn_of_nothing rfl
        obtain ⟨turn, warning⟩ := turn
        cases warning with
        | none => exact adds_walkContent document _ index _
        | some words =>
          exact (adds_report _).after (fun _ => adds_walkContent document _ index _)
            fun _ => drawn_of_nothing rfl
    · rintro e _ ⟨s, rfl, -⟩
      exact .inr ⟨_, _, [], rfl, fun _ h => absurd h List.not_mem_nil⟩
    · rintro _ _ answer late ⟨s, rfl, -⟩ hlate
      refine .inr ⟨_, _, late.map (·.2), rfl, fun e he => ?_⟩
      obtain ⟨entry, hentry, rfl⟩ := List.mem_map.mp he
      exact hlate entry hentry
  · exact fun _ => .inl rfl
  · exact fun _ => .inl rfl

theorem adds_page (document : Document α) {number : Nat} {shown : Page α}
    (hpage : document.page? number = some shown) :
    Adds (PageCourse l number) (page document l.recording number) := by
  rw [page, hpage]
  refine (adds_ofExcept _).after (fun s => ?_) .unsaid
  refine (adds_send _).bind (R := fun _ _ ended => ∃ content s, IsContent (content.map (·.2)) ∧
    ended = content ++ [(s, .pageEnd)]) (fun _ => ?_) ?_ ?_
  · exact (adds_pageBody document shown s).ensuring fun _ content s _ hcontent =>
      ⟨content, s, hcontent, rfl⟩
  · rintro e _ ⟨s, rfl, hanswer⟩
    exact .refused hanswer.symm
  · rintro _ _ answer _ ⟨s, rfl, -⟩ ⟨content, s', hcontent, rfl⟩
    exact .told hcontent answer

/-- Pages are told one after the other, up to the first that fails or whose progress does. -/
theorem adds_pages (document : Document α) (total : Nat) {numbers : List Nat} :
    (∀ n ∈ numbers, (document.page? n).isSome) → ∀ done,
      Adds (PagesCourse l numbers) (pages document l.recording total done numbers) := by
  induction numbers with
  | nil => exact fun _ _ _ => ⟨[], (List.append_nil _).symm, .done⟩
  | cons number rest ih =>
    intro hnumbers done
    obtain ⟨hnumber, hrest⟩ := List.forall_mem_cons.mp hnumbers
    obtain ⟨shown, hpage⟩ := Option.isSome_iff_exists.mp hnumber
    rw [pages]
    -- What follows the page leaves it as it is, whether progress can be reported or not.
    refine (adds_page document hpage).bind (R := fun _ answer record =>
      PagesCourse l rest answer record ∨ record = [] ∧ ∃ e, answer = .error e) (fun _ => ?_) ?_ ?_
    · exact (adds_progress (done + 1) total).after
        (fun _ => (ih hrest (done + 1)).mono fun _ _ => .inl) fun e => .inr ⟨rfl, e, rfl⟩
    · exact fun e _ hpage => .cut hpage e
    · rintro _ early answer record hpage (hpages | ⟨rfl, e, rfl⟩)
      · exact .next hpage hpages
      · rw [List.append_nil]
        exact .cut hpage e

/-- From that session on, every page and every report of progress succeeds. -/
def Completes (document : Document α) (l : Listener α σ) (total : Nat) :
    Nat → List Nat → Session α σ → Prop
  | _, [], _ => True
  | done, number :: rest, t =>
    ∃ told : Session α σ, (page document l number).run t = (.ok (), told) ∧
      ∃ s, (l.progress (done + 1) total).run told.listener = (.ok (), s) ∧
        Completes document l total (done + 1) rest { told with listener := s }

theorem run_pages_eq_ok_iff (document : Document α) (total : Nat) {numbers : List Nat} :
    ∀ {done : Nat} {t : Session α σ}, ((pages document l total done numbers).run t).1 = .ok ()
      ↔ Completes document l total done numbers t := by
  induction numbers with
  | nil => exact fun {_ _} => ⟨fun _ => trivial, fun _ => rfl⟩
  | cons number rest ih =>
    intro done t
    rw [pages, Completes, Act.run_bind]
    rcases (page document l number).run t with ⟨e | _, told⟩
    · constructor
      · intro h
        cases h
      · rintro ⟨_, h, -⟩
        cases h
    · have hprogress := Act.run_onPart (fun t : Session α σ => t.listener)
        (fun s t => { t with listener := s }) (l.progress (done + 1) total) told
      show (Act.run (_ >>= _) told).1 = _ ↔ _
      rw [Act.run_bind, hprogress]
      rcases hrun : (l.progress (done + 1) total).run told.listener with ⟨e | _, s⟩
      · constructor
        · intro h
          cases h
        · rintro ⟨_, ⟨⟩, s, h, -⟩
          rw [hrun] at h
          cases h
      · refine ih.trans ⟨fun h => ⟨told, rfl, s, hrun, h⟩, ?_⟩
        rintro ⟨_, ⟨⟩, _, h, hrest⟩
        rw [hrun] at h
        cases h
        exact hrest

/-- Behind its pages the document ends, unless they fail, and then they do so for the listener that
keeps no record as well. -/
theorem ends_pages (document : Document α) {numbers : List Nat}
    (hnumbers : ∀ n ∈ numbers, (document.page? n).isSome) (total : Nat) {first : σ}
    {t : Session α (σ × Record α σ)} (ht : Kept l first t) :
    (∃ e added, PagesCourse l numbers (.error e) added
        ∧ ¬ Completes document l total 0 numbers t.unrecorded
        ∧ ((pages document l.recording total 0 numbers >>= fun _ =>
          send l.recording .documentEnd).run t).2.listener.2 = t.listener.2 ++ added)
      ∨ ∃ s added, PagesCourse l numbers (.ok ()) added
        ∧ Completes document l total 0 numbers t.unrecorded
        ∧ ((pages document l.recording total 0 numbers >>= fun _ =>
          send l.recording .documentEnd).run t).2.listener.2
            = t.listener.2 ++ (added ++ [(s, .documentEnd)]) := by
  obtain ⟨added, hadded, hpages⟩ := adds_pages (l := l) document total hnumbers 0 t
  have hcompletes : ((pages document l total 0 numbers).run t.unrecorded).1 = .ok ()
      ↔ Completes document l total 0 numbers t.unrecorded := run_pages_eq_ok_iff document total
  rw [(mirrors_pages document total numbers 0 t ht).2] at hcompletes
  rw [Act.run_bind]
  rcases hrun : (pages document l.recording total 0 numbers).run t with ⟨e | _, t'⟩
  · rw [hrun] at hadded hpages hcompletes
    exact .inl ⟨e, added, hpages, fun h => (by cases hcompletes.mpr h), hadded⟩
  · rw [hrun] at hadded hpages hcompletes
    refine .inr ⟨t'.listener.1, added, hpages, hcompletes.mp rfl, ?_⟩
    show t'.listener.2 ++ [(t'.listener.1, .documentEnd)] = _
    rw [show t'.listener.2 = _ from hadded, List.append_assoc]

end Session

/-! ## The document -/

/-- Every selected page is one of the document's. -/
def InRange (document : Document α) (selection : Option (List Int)) : Prop :=
  ∀ numbers ∈ selection, ∀ n ∈ numbers, 1 ≤ n ∧ n ≤ document.pageCount

/-- The numbers of the selected pages, in the order of the selection. -/
def chosen (document : Document α) : Option (List Int) → List Nat
  | none => (List.range document.pageCount).map (· + 1)
  | some numbers => numbers.map Int.toNat

theorem isSome_page?_iff {document : Document α} {number : Nat} :
    (document.page? number).isSome ↔ 1 ≤ number ∧ number ≤ document.pageCount := by
  rw [page?, pageCount]
  split
  next h =>
    rw [h]
    exact ⟨fun h => (by cases h), fun h => absurd h.1 (by omega)⟩
  next h =>
    rw [isSome_getElem?]
    omega

theorem pageNumbers_of_inRange {document : Document α} {selection : Option (List Int)}
    (h : document.InRange selection) :
    document.pageNumbers selection = .ok (document.chosen selection) := by
  cases selection with
  | none => rfl
  | some numbers =>
    have hnumbers := h numbers rfl
    clear h
    rw [chosen, pageNumbers]
    induction numbers with
    | nil => rfl
    | cons n rest ih =>
      obtain ⟨⟨hlow, hhigh⟩, hrest⟩ := List.forall_mem_cons.mp hnumbers
      rw [List.mapM_cons, ih hrest, if_neg (by omega)]
      rfl

theorem pageNumbers_of_not_inRange {document : Document α} {selection : Option (List Int)}
    (h : ¬ document.InRange selection) : ∃ e, document.pageNumbers selection = .error e := by
  cases hnumbers : document.pageNumbers selection with
  | error e => exact ⟨e, rfl⟩
  | ok chosen =>
    refine absurd ?_ h
    rintro numbers ⟨⟩
    rw [pageNumbers] at hnumbers
    clear h
    induction numbers generalizing chosen with
    | nil => exact fun _ h => absurd h List.not_mem_nil
    | cons n rest ih =>
      rw [List.mapM_cons] at hnumbers
      split at hnumbers
      · cases hnumbers
      next hrange =>
        cases hrest : rest.mapM (m := Except Fault) _ with
        | error e =>
          rw [hrest] at hnumbers
          cases hnumbers
        | ok others => exact List.forall_mem_cons.mpr ⟨by omega, ih _ hrest⟩

theorem isSome_page?_of_mem_chosen {document : Document α} {selection : Option (List Int)}
    (h : document.InRange selection) :
    ∀ n ∈ document.chosen selection, (document.page? n).isSome := by
  intro n hn
  rw [isSome_page?_iff]
  cases selection with
  | none =>
    obtain ⟨index, hindex, rfl⟩ := List.mem_map.mp hn
    have := List.mem_range.mp hindex
    omega
  | some numbers =>
    obtain ⟨number, hnumber, rfl⟩ := List.mem_map.mp hn
    have := h numbers rfl number hnumber
    omega

/-- Numbers that are not refused are those of pages. -/
theorem isSome_page?_of_mem_pageNumbers {document : Document α} {selection : Option (List Int)}
    {numbers : List Nat} (h : document.pageNumbers selection = .ok numbers) :
    ∀ n ∈ numbers, (document.page? n).isSome := by
  have hrange : document.InRange selection := by
    by_contra hrange
    obtain ⟨e, he⟩ := pageNumbers_of_not_inRange hrange
    cases h.symm.trans he
  rw [pageNumbers_of_inRange hrange] at h
  cases h
  exact isSome_page?_of_mem_chosen hrange

variable [Scalar α] {l : Listener α σ} {s : σ} {numbers : List Nat} {record : Record α σ}

/-- What becomes of a document with pages of those numbers, and what is heard of it. -/
inductive Course (document : Document α) (l : Listener α σ) (numbers : List Nat) (s : σ) :
    Record α σ → Prop
  /-- The listener refuses to begin the document. -/
  | refused {e : Fault}
    (h : ((l.receive (.documentBegin (some document.title))).run s).1 = .error e) :
    Course document l numbers s [(s, .documentBegin (some document.title))]
  /-- A page fails, or the report of progress behind it does. -/
  | cut {begun : σ} {e : Fault} {record : Record α σ}
    (h : (l.receive (.documentBegin (some document.title))).run s = (.ok (), begun))
    (hpages : PagesCourse l numbers (.error e) record)
    (hfails : ¬ Session.Completes document l numbers.length 0 numbers { listener := begun }) :
    Course document l numbers s ((s, .documentBegin (some document.title)) :: record)
  /-- The document is told to its end. -/
  | told {begun s' : σ} {record : Record α σ}
    (h : (l.receive (.documentBegin (some document.title))).run s = (.ok (), begun))
    (hpages : PagesCourse l numbers (.ok ()) record)
    (hcompletes : Session.Completes document l numbers.length 0 numbers { listener := begun }) :
    Course document l numbers s
      ((s, .documentBegin (some document.title)) :: (record ++ [(s', .documentEnd)]))

namespace Course

variable {document : Document α}

/-- However it ends, the document might have been told to its end. -/
theorem exists_isDocument (h : Course document l numbers s record) :
    ∃ whole, IsDocument document.title numbers whole ∧ record.map (·.2) <+: whole := by
  cases h with
  | refused _ =>
    obtain ⟨pages, hpages⟩ := exists_pages (α := α) numbers
    exact ⟨_, ⟨pages, hpages, rfl⟩, List.cons_prefix_cons.mpr ⟨rfl, List.nil_prefix⟩⟩
  | cut _ hpages _ =>
    obtain ⟨pages, hpages, hprefix, -⟩ := hpages.exists_isPage
    exact ⟨_, ⟨pages, hpages, rfl⟩,
      List.cons_prefix_cons.mpr ⟨rfl, hprefix.trans (List.prefix_append _ _)⟩⟩
  | told _ hpages _ =>
    obtain ⟨pages, hpages, -, hwhole⟩ := hpages.exists_isPage
    refine ⟨_, ⟨pages, hpages, rfl⟩, ?_⟩
    rw [hwhole rfl, List.map_cons, List.map_append]
    exact List.prefix_refl _

theorem balanced (h : Course document l numbers s record) : Balanced l record := by
  cases h with
  | refused _ => exact .cons_of_ne .nil fun _ _ _ h => by cases h
  | cut _ hpages _ => exact .cons_of_ne hpages.balanced fun _ _ _ h => by cases h
  | @told begun s' record _ hpages _ =>
    have hlast : Balanced l [(s', .documentEnd)] := .cons_of_ne .nil fun _ _ _ h => by cases h
    refine .cons_of_ne (hpages.balanced.append hlast ?_) fun _ _ _ h => by cases h
    rintro _ ⟨⟩
    exact trivial

theorem documentEnd_mem_iff (h : Course document l numbers s record) :
    .documentEnd ∈ record.map (·.2)
      ↔ ∃ begun, (l.receive (.documentBegin (some document.title))).run s = (.ok (), begun)
        ∧ Session.Completes document l numbers.length 0 numbers { listener := begun } := by
  cases h with
  | refused h =>
    constructor
    · intro hmem
      cases List.mem_singleton.mp hmem
    · rintro ⟨begun, hbegun, -⟩
      rw [hbegun] at h
      cases h
  | cut h hpages hfails =>
    constructor
    · intro hmem
      rcases List.mem_cons.mp hmem with hmem | hmem
      · cases hmem
      · exact absurd hmem hpages.documentEnd_not_mem
    · rintro ⟨begun, hbegun, hcompletes⟩
      rw [hbegun] at h
      cases h
      exact absurd hcompletes hfails
  | told h _ hcompletes =>
    refine ⟨fun _ => ⟨_, h, hcompletes⟩, fun _ => ?_⟩
    rw [List.map_cons, List.map_append]
    exact List.mem_cons_of_mem _ (List.mem_append_right _ (List.mem_singleton.mpr rfl))

end Course

/-- A run over pages that exist takes such a course. -/
theorem course_run (document : Document α) {selection : Option (List Int)}
    (hrange : document.InRange selection) {answer : Except Fault Unit} {last : σ}
    (hrun : (document.run l.recording selection).run (s, []) = (answer, last, record)) :
    Course document l (document.chosen selection) s record := by
  let start : Session α (σ × Record α σ) := { listener := (s, []) }
  let begun := Session.received l (.documentBegin (some document.title)) start
  have hbegins : (Session.send l.recording (.documentBegin (some document.title))).run start
      = (((l.receive (.documentBegin (some document.title))).run s).1, begun) := rfl
  have hkept : Session.Kept l s begun := (Session.mirrors_send (l := l)
    (e := .documentBegin (some document.title)) rfl (fun _ h => by cases h) start
    ⟨.start, ResourceModel.shares_start⟩).1
  have hrecord : ((Session.run document l.recording selection).run start).2.listener.2 = record :=
    congrArg (fun r : Except Fault Unit × σ × Record α σ => r.2.2) hrun
  rw [Session.run, pageNumbers_of_inRange hrange, Act.run_bind_ok (Act.run_ofExcept _ start),
    Act.run_bind, hbegins] at hrecord
  rcases htaken : (l.receive (.documentBegin (some document.title))).run s with ⟨e | _, s'⟩
  · rw [htaken] at hrecord
    rw [← hrecord]
    exact .refused (e := e) (congrArg Prod.fst htaken)
  · have hs' : begun.unrecorded = { listener := s' } := by
      show ({ listener := ((l.receive (.documentBegin (some document.title))).run s).2 } :
        Session α σ) = _
      rw [htaken]
    rw [htaken] at hrecord
    rcases Session.ends_pages document (isSome_page?_of_mem_chosen hrange)
        (document.chosen selection).length hkept with
      ⟨e, pages, hpages, hfails, hends⟩ | ⟨s'', pages, hpages, hcompletes, hends⟩
    · rw [← hrecord]
      rw [hs'] at hfails
      exact hends ▸ .cut htaken hpages hfails
    · rw [← hrecord]
      rw [hs'] at hcompletes
      exact hends ▸ .told htaken hpages hcompletes

/-- Events come in order: what a listener is told is the beginning of what it is told of a document
that is read to its end, with the selected pages in the given order. Every page that it has begun
ends before anything else is told and before the run fails, and the document ends exactly if it
could begin and every page and every report of progress has succeeded. A selection that is out of
range is refused before anything is told. -/
theorem events_inOrder (document : Document α) (l : Listener α σ) (selection : Option (List Int))
    (s : σ) :
    ∃ (answer : Except Fault Unit) (last : σ) (record : Record α σ),
      (document.run l selection).run s = (answer, last)
        ∧ (document.run l.recording selection).run (s, []) = (answer, last, record)
        ∧ (document.InRange selection →
          (∃ whole, IsDocument document.title (document.chosen selection) whole
            ∧ record.map (·.2) <+: whole)
          ∧ Balanced l record
          ∧ (.documentEnd ∈ record.map (·.2) ↔
            ∃ begun, (l.receive (.documentBegin (some document.title))).run s = (.ok (), begun)
              ∧ Session.Completes document l (document.chosen selection).length 0
                (document.chosen selection) { listener := begun }))
        ∧ (¬ document.InRange selection → (∃ e, answer = .error e) ∧ record = [] ∧ last = s) := by
  obtain ⟨answer, last, record, hplain, hrecording, -⟩ := run_recording document l selection s
  refine ⟨answer, last, record, hplain, hrecording, fun hrange => ?_, fun hrange => ?_⟩
  · have hcourse := course_run document hrange hrecording
    exact ⟨hcourse.exists_isDocument, hcourse.balanced, hcourse.documentEnd_mem_iff⟩
  · obtain ⟨e, he⟩ := pageNumbers_of_not_inRange hrange
    rw [run, Session.run, he, Act.run_onPart] at hrecording
    cases hrecording
    exact ⟨⟨e, rfl⟩, rfl, rfl⟩

end Pdf.Document

end Folio
