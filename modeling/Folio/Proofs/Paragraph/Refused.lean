import Folio.Proofs.Paragraph.InPlace

/-!
# Glyphs that are refused

Whoever drives a segmenter makes calls of four kinds, and may go on after one that is a fault.
`follow` is where the calls lead then, with each of them carried out in place (`perform`), and
`kept` are those that were no fault. Only a glyph is ever refused, nothing is different afterwards,
and the calls that were kept lead to the same end by themselves (`refused_leaves_no_trace`): to the
same state, the same paragraphs offered and the same taker.
-/

namespace Folio.Delivery

/-- What a segmenter is asked to do. -/
inductive Call (α : Type)
  | beginPage (width : Option α)
  | feed (glyph : Glyph α)
  | flush
  | endPage

variable {α τ : Type} [Scalar α]

namespace Call

/-- The call as a function from one state of the segmenter to the next. -/
def apply (fonts : FontTable α) :
    Call α → Segmenter α → Except Fault (Segmenter α × Option (Paragraph α))
  | beginPage width, s => .ok (s.beginPage width, none)
  | feed glyph, s => s.feed fonts glyph
  | flush, s => .ok s.flush
  | endPage, s => .ok s.endPage

/-- Carries the call out in place. -/
def perform (take : Paragraph α → Act τ Unit) (fonts : FontTable α) :
    Call α → Act (Delivery α τ) Unit
  | beginPage width => do
    forgetting
    alter fun s => { s with pageWidth := width.getD 0 }
  | feed glyph => feeding take fonts glyph
  | flush => flushing take
  | endPage => do
    flushing take
    forgetting

end Call

variable (take : Paragraph α → Act τ Unit) (fonts : FontTable α)

theorem inPlace_perform (call : Call α) :
    InPlace take (call.perform take fonts) (call.apply fonts) := by
  cases call with
  | beginPage width => exact (HandsOut.of_alters (.bind alters_forgetting (.alter _))).inPlace
  | feed glyph => exact inPlace_feeding glyph
  | flush => exact handsOut_flushing.inPlace
  | endPage => exact (handsOut_flushing.followed alters_forgetting fun _ => rfl).inPlace

/-- Where the calls lead when whoever makes them goes on after a fault. -/
def follow (calls : List (Call α)) (d : Delivery α τ) : Delivery α τ :=
  calls.foldl (fun d call => ((call.perform take fonts).run d).2) d

/-- The calls that are no fault. -/
def kept : List (Call α) → Delivery α τ → List (Call α)
  | [], _ => []
  | call :: calls, d =>
    match (call.perform take fonts).run d with
    | (.ok _, d') => call :: kept calls d'
    | (.error _, d') => kept calls d'

variable {take fonts} {call : Call α} {d d' : Delivery α τ}

/-- A call that is a fault has changed nothing. -/
theorem eq_of_run_perform_error {e : Fault}
    (h : (call.perform take fonts).run d = (.error e, d')) :
    call.apply fonts d.segmenter = .error e ∧ d' = d := by
  rw [inPlace_perform take fonts call d] at h
  cases happly : call.apply fonts d.segmenter with
  | error e' =>
    rw [happly] at h
    cases h
    exact ⟨rfl, rfl⟩
  | ok answer =>
    rw [happly] at h
    cases h

/-- Only a glyph can be refused. -/
theorem Call.eq_feed_of_apply_error {s : Segmenter α} {e : Fault}
    (h : call.apply fonts s = .error e) :
    ∃ glyph, call = .feed glyph ∧ s.feed fonts glyph = .error e := by
  cases call with
  | feed glyph => exact ⟨glyph, rfl, h⟩
  | beginPage width => cases h
  | flush => cases h
  | endPage => cases h

theorem run_kept (calls : List (Call α)) (d : Delivery α τ) :
    ((kept take fonts calls d).forM (Call.perform take fonts)).run d
      = (.ok (), follow take fonts calls d) := by
  induction calls generalizing d with
  | nil => rfl
  | cons call calls ih =>
    rw [follow, List.foldl_cons, ← follow, kept]
    cases hrun : (call.perform take fonts).run d with
    | mk answer d' =>
      cases answer with
      | ok =>
        show (call.perform take fonts >>= fun _ =>
          (kept take fonts calls d').forM (Call.perform take fonts)).run d = _
        rw [Act.run_bind_ok hrun]
        exact ih d'
      | error e =>
        -- The next call finds what this one has found.
        obtain ⟨-, rfl⟩ := eq_of_run_perform_error hrun
        exact ih d'

/-- A refused glyph leaves no trace. The calls are carried out in place and from any state, the
options, the glyphs and the paragraphs' taker are any, and so are the coordinates. -/
theorem refused_leaves_no_trace (take : Paragraph α → Act τ Unit) (fonts : FontTable α)
    (calls : List (Call α)) (d : Delivery α τ) :
    (∀ (call : Call α) (e : Fault) (d' : Delivery α τ),
      (call.perform take fonts).run d = (.error e, d') →
        (∃ glyph, call = .feed glyph ∧ d.segmenter.feed fonts glyph = .error e) ∧ d' = d)
    ∧ ((kept take fonts calls d).forM (Call.perform take fonts)).run d
      = (.ok (), follow take fonts calls d) := by
  refine ⟨fun call e d' hrun => ?_, run_kept calls d⟩
  obtain ⟨hfault, hsame⟩ := eq_of_run_perform_error hrun
  exact ⟨Call.eq_feed_of_apply_error hfault, hsame⟩

/-- A page of two glyphs next to each other, with one between them whose place is undefined. -/
def astray : List (Call Float) :=
  let glyphs := [("A", 10), ("B", 0 / 0), ("C", 20)].map fun g =>
    Call.feed ⟨Text.lit g.1, g.2, 0, 10, 10, none, 10, 10, 10⟩
  .beginPage none :: glyphs ++ [.endPage]

/-- The glyph without a place is refused, and the two others become one paragraph. -/
theorem refused_leaves_no_trace_astray :
    let take : Paragraph Float → Act Unit Unit := fun _ => pure ()
    let fresh : Delivery Float Unit := ⟨.new .standard, (), []⟩
    let reached := follow take ⟨[], [], []⟩ (astray.take 2) fresh
    let remaining := kept take ⟨[], [], []⟩ astray fresh
    (∃ call e, astray[2]? = some call
      ∧ (call.perform take ⟨[], [], []⟩).run reached = (.error e, reached))
    ∧ remaining.length = 4
    ∧ ((remaining.forM (Call.perform take ⟨[], [], []⟩)).run fresh).2.offered.map (·.content)
      = [Text.lit "<span class=\"seq\">AC</span>"] := by
  intro take fresh reached remaining
  obtain ⟨-, hkept⟩ := refused_leaves_no_trace take ⟨[], [], []⟩ astray fresh
  obtain ⟨hrefused, -⟩ := refused_leaves_no_trace take ⟨[], [], []⟩ [] reached
  refine ⟨?_, by decide +kernel, ?_⟩
  · have hfault : (astray[2]?.map fun call =>
        ((call.perform take ⟨[], [], []⟩).run reached).1.toOption) = some none := by
      decide +kernel
    cases hcall : astray[2]? with
    | none =>
      rw [hcall] at hfault
      cases hfault
    | some call =>
      rw [hcall] at hfault
      cases hrun : (call.perform take ⟨[], [], []⟩).run reached with
      | mk answer reached' =>
        cases answer with
        | ok =>
          simp only [Option.map_some, hrun] at hfault
          cases hfault
        | error e =>
          obtain ⟨-, hsame⟩ := hrefused call e reached' hrun
          exact ⟨call, e, rfl, by rw [hrun, hsame]⟩
  · rw [hkept]
    decide +kernel

end Folio.Delivery
