import Folio.Proofs.Path.Steps

/-!
# What a painted path leaves behind

Painting takes the segments that a path holds, but it leaves the pen and the start of the subpath
where they are. What is drawn afterwards is drawn as on a new path that has been taken there without
drawing anything (`drawn_leftover`).

So what is left shows unless the next steps begin a subpath of their own before they need one
(`startsAnew`). If they do, the same segments are drawn whatever is left (`segments_drawn_anew`). If
they do not, one of the segments comes from the pen that was left or goes back to the start that was
left (`exists_mem_drawn`).
-/

namespace Folio.Path

variable {α : Type} [Scalar α]

/-- The path after constructing steps. -/
def drawn (ds : List (Draw α)) (path : Path α) : Path α := ds.foldl (fun path d => d.apply path) path

omit [Scalar α] in
/-- What takes a new path to where the pen is, without drawing anything. -/
def leftover (path : Path α) : List (Draw α) :=
  match path.pen, path.start with
  | some pen, some start => if path.moved then [.move start, .curve pen] else [.move start]
  | _, _ => []

omit [Scalar α] in
/-- Whether a subpath begins among the steps before one of them needs it: with a move, or with a curve
if it is not closed before the next move. `curved` tells whether there has been such a curve. -/
def startsAnew : Bool → List (Draw α) → Bool
  | _, [] | _, .move _ :: _ => true
  | _, .curve _ :: ds => startsAnew true ds
  | curved, .line _ :: ds => curved && startsAnew true ds
  | _, .close :: _ => false

theorem drawn_append (ds es : List (Draw α)) (path : Path α) :
    drawn (ds ++ es) path = drawn es (drawn ds path) := List.foldl_append

theorem anchored_drawn {path : Path α} (h : Anchored path) (ds : List (Draw α)) :
    Anchored (drawn ds path) := by
  induction ds generalizing path with
  | nil => exact h
  | cons d ds ih => exact ih (anchored_draw h d)

theorem minStroke_drawn (ds : List (Draw α)) (path : Path α) :
    (drawn ds path).minStroke = path.minStroke := by
  induction ds generalizing path with
  | nil => rfl
  | cons d ds ih => exact (ih _).trans (minStroke_draw path d)

theorem transform_draw (path : Path α) (d : Draw α) : (d.apply path).transform = path.transform := by
  cases d with
  | move | curve => rfl
  | line p => exact transform_lineTo path p
  | close => exact transform_close path

theorem transform_drawn (ds : List (Draw α)) (path : Path α) :
    (drawn ds path).transform = path.transform := by
  induction ds generalizing path with
  | nil => rfl
  | cons d ds ih => exact (ih _).trans (transform_draw path d)

/-- A path that holds nothing is a new one that has been taken to where the pen is. -/
theorem drawn_leftover {path : Path α} (h : Anchored path) (hempty : path.segments = []) :
    drawn path.leftover (fresh path.minStroke path.transform) = path := by
  obtain ⟨minStroke, transform, segments, pen, start, moved⟩ := path
  obtain ⟨hsome, hresting, hstill⟩ := h
  obtain rfl : segments = [] := hempty
  cases pen with
  | none =>
    cases start with
    | none =>
      obtain rfl : moved = false := hstill rfl
      rfl
    | some start => cases hsome
  | some pen =>
    cases start with
    | none => cases hsome
    | some start =>
      cases moved with
      | true => rfl
      | false =>
        obtain rfl : pen = start := Option.some.inj (hresting rfl)
        rfl

/-! ## A subpath of its own -/

/-- Once there is a pen, the start of the subpath makes no difference unless it is closed. -/
theorem segments_drawn_curved {ds : List (Draw α)} (hds : startsAnew true ds = true) {path : Path α}
    (hpen : path.pen.isSome = true) (start : Option (Point α)) (moved : Bool) :
    (drawn ds { path with start := start, moved := moved }).segments = (drawn ds path).segments := by
  induction ds generalizing path start moved with
  | nil => rfl
  | cons d ds ih =>
    cases d with
    | move p => rfl
    | curve p =>
      have hcurve : (path.curveTo p).pen.isSome = true := rfl
      exact ih hds hcurve _ _
    | line p =>
      obtain ⟨pen, hpen⟩ := Option.isSome_iff_exists.mp hpen
      have hline : Draw.apply (.line p) { path with start := start, moved := moved }
          = { path.lineTo p with start := start, moved := true } := by
        simp only [Draw.apply, lineTo, hpen]
      have hdrawn : (path.lineTo p).pen.isSome = true := by
        simp only [lineTo, hpen, Option.isSome_some]
      show (drawn ds (Draw.apply (.line p) { path with start := start, moved := moved })).segments
        = (drawn ds (path.lineTo p)).segments
      rw [hline]
      exact ih hds hdrawn _ _
    | close => cases hds

/-- A subpath that begins anew is drawn in the same way wherever the pen has been left. -/
theorem segments_drawn_anew {ds : List (Draw α)} (hds : startsAnew false ds = true) {path : Path α}
    (hempty : path.segments = []) :
    (drawn ds path).segments = (drawn ds (fresh path.minStroke path.transform)).segments := by
  obtain ⟨minStroke, transform, segments, pen, start, moved⟩ := path
  obtain rfl : segments = [] := hempty
  cases ds with
  | nil => rfl
  | cons d ds =>
    cases d with
    | move p => rfl
    | curve p =>
      have hcurve : ((fresh minStroke transform).curveTo p).pen.isSome = true := rfl
      exact segments_drawn_curved hds hcurve _ _
    | line p => cases hds
    | close => cases hds

/-! ## The subpath that was left -/

/-- What is held stays. -/
theorem mem_drawn {s : Segment α} (ds : List (Draw α)) {path : Path α} (h : s ∈ path.segments) :
    s ∈ (drawn ds path).segments := by
  induction ds generalizing path with
  | nil => exact h
  | cons d ds ih =>
    refine ih ?_
    cases d with
    | move | curve => exact h
    | line p =>
      show s ∈ (path.lineTo p).segments
      unfold lineTo
      split
      · exact h
      · exact List.mem_append_left _ h
    | close =>
      show s ∈ path.close.segments
      unfold close
      split
      · extract_lets closed
        split
        · exact List.mem_append_left _ h
        · exact h
      · exact h

/-- The pen has left the start of the subpath and is somewhere else. -/
structure Strayed (path : Path α) (last first : Point α) : Prop where
  pen : path.pen = some last
  start : path.start = some first
  moved : path.moved = true
  away : (last == first) = false

namespace Strayed

variable {path : Path α} {last first : Point α}

theorem curveTo (h : Strayed path last first) {p : Point α} (hp : (p == first) = false) :
    Strayed (path.curveTo p) p first where
  pen := rfl
  start := by rw [Path.curveTo, h.start, Option.getD_some]
  moved := by rw [Path.curveTo, h.start, Option.isSome_some]
  away := hp

theorem lineTo_eq (h : Strayed path last first) (p : Point α) : path.lineTo p
    = { path with segments := path.segments ++ [⟨last, p⟩], pen := some p, moved := true } := by
  rw [Path.lineTo, h.pen]

theorem lineTo (h : Strayed path last first) {p : Point α} (hp : (p == first) = false) :
    Strayed (path.lineTo p) p first := by
  rw [h.lineTo_eq]
  exact ⟨rfl, h.start, rfl, hp⟩

theorem mem_close (h : Strayed path last first) : ⟨last, first⟩ ∈ path.close.segments := by
  have hclose : path.close.segments = path.segments ++ [⟨last, first⟩] := by
    simp [close, h.pen, h.start, h.moved, h.away]
  rw [hclose]
  exact List.mem_append_right _ List.mem_cons_self

/-- A subpath that is closed in the end, with nothing but lines and curves before, goes back to where
it started. -/
theorem exists_mem_drawn_curved (h : Strayed path last first) {ds : List (Draw α)}
    (hds : startsAnew true ds = false) (hp : ∀ d ∈ ds, ∀ p ∈ d.target, (p == first) = false) :
    ∃ s ∈ (drawn ds path).segments, s.stop = first := by
  induction ds generalizing path last with
  | nil => cases hds
  | cons d ds ih =>
    have hrest : ∀ d ∈ ds, ∀ p ∈ d.target, (p == first) = false :=
      fun d hd => hp d (List.mem_cons_of_mem _ hd)
    have hfirst := hp d List.mem_cons_self
    cases d with
    | move p => cases hds
    | curve p => exact ih (h.curveTo (hfirst p rfl)) hds hrest
    | line p => exact ih (h.lineTo (hfirst p rfl)) hds hrest
    | close => exact ⟨_, mem_drawn ds h.mem_close, rfl⟩

/-- Steps that need a subpath before they begin one draw from the pen that was left or back to the
start that was left. -/
theorem exists_mem_drawn (h : Strayed path last first) {ds : List (Draw α)}
    (hds : startsAnew false ds = false) (hp : ∀ d ∈ ds, ∀ p ∈ d.target, (p == first) = false) :
    ∃ s ∈ (drawn ds path).segments, s.start = last ∨ s.stop = first := by
  cases ds with
  | nil => cases hds
  | cons d ds =>
    cases d with
    | move p => cases hds
    | curve p =>
      obtain ⟨s, hs, hstop⟩ := (h.curveTo (hp _ List.mem_cons_self p rfl)).exists_mem_drawn_curved hds
        fun d hd => hp d (List.mem_cons_of_mem _ hd)
      exact ⟨s, hs, .inr hstop⟩
    | line p =>
      have hmem : ⟨last, p⟩ ∈ (path.lineTo p).segments := by
        rw [h.lineTo_eq]
        exact List.mem_append_right _ List.mem_cons_self
      exact ⟨_, mem_drawn ds hmem, .inl rfl⟩
    | close => exact ⟨_, mem_drawn ds h.mem_close, .inr rfl⟩

end Strayed

end Folio.Path
