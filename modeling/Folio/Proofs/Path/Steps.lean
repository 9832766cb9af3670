import Folio.Path

/-!
# Steps on a path

Everything that can be asked of a path, as steps of two kinds: those that construct it, which move the
pen, and those that are done with what has been constructed. A rectangle and a stroke that closes
first are several steps (`Operation.steps`, `run_steps`).

The pen is defined exactly when the start of the subpath is, and it is there until it moves
(`Anchored`). With that, closing constructs a segment exactly if the pen is away from the start
(`segments_close`).
-/

namespace Folio

/-- No coordinate of the point is undefined; an undefined number is the only one that differs from
itself. -/
def Point.IsDefined {α : Type} [BEq α] (p : Point α) : Prop := (p == p) = true

namespace Path

variable {α : Type}

/-- A step that constructs the path. Its point is one of the page. -/
inductive Draw (α : Type)
  | move (p : Point α)
  | line (p : Point α)
  | curve (p : Point α)
  | close

/-- A step on a path. -/
inductive Step (α : Type)
  | draw (d : Draw α)
  | stroke (lineWidth : α)
  | discard
  | reset (map : Affine α)

/-- What can be asked of a path. Points are in the user space of a map, or of the path's own map. -/
inductive Operation (α : Type)
  | reset (map : Option (Affine α))
  | moveTo (x y : α) (map : Option (Affine α))
  | lineTo (x y : α) (map : Option (Affine α))
  | curveTo (x y : α) (map : Option (Affine α))
  | rectangle (x y width height : α) (map : Option (Affine α))
  | close
  | stroke (lineWidth : α)
  | closeAndStroke (lineWidth : α)
  | discard

/-- Where the step takes the pen; closing takes it back. -/
def Draw.target : Draw α → Option (Point α)
  | move p | line p | curve p => some p
  | close => none

def Step.target : Step α → Option (Point α)
  | draw d => d.target
  | stroke _ | discard | reset _ => none

/-- The rules that come of acts on a path one after the other, and the path that is left. -/
def run {β : Type} (act : β → Path α → List (Rule α) × Path α) :
    List β → Path α → List (Rule α) × Path α
  | [], path => ([], path)
  | b :: bs, path => ((act b path).1 ++ (run act bs (act b path).2).1, (run act bs (act b path).2).2)

theorem run_append {β : Type} (act : β → Path α → List (Rule α) × Path α) (bs cs : List β)
    (path : Path α) : run act (bs ++ cs) path
      = ((run act bs path).1 ++ (run act cs (run act bs path).2).1,
        (run act cs (run act bs path).2).2) := by
  induction bs generalizing path with
  | nil => rfl
  | cons b bs ih =>
    rw [List.cons_append, run, ih, run]
    simp only [List.append_assoc]

/-- A path that nothing has been asked of. -/
def fresh (minStroke : α) (map : Affine α) : Path α := { minStroke := minStroke, transform := map }

variable [Scalar α]

def Draw.apply : Draw α → Path α → Path α
  | move p, path => path.moveTo p
  | line p, path => path.lineTo p
  | curve p, path => path.curveTo p
  | close, path => path.close

def Step.perform : Step α → Path α → List (Rule α) × Path α
  | draw d, path => ([], d.apply path)
  | stroke lineWidth, path => path.stroke lineWidth
  | discard, path => ([], path.discard)
  | reset map, path => ([], path.reset map)

/-- Carries out an operation, with the map that it brings or the one that the path has. -/
def Operation.perform : Operation α → Path α → List (Rule α) × Path α
  | reset map, path => ([], path.reset (map.getD path.transform))
  | moveTo x y map, path => ([], path.moveTo ((map.getD path.transform).apply x y))
  | lineTo x y map, path => ([], path.lineTo ((map.getD path.transform).apply x y))
  | curveTo x y map, path => ([], path.curveTo ((map.getD path.transform).apply x y))
  | rectangle x y width height map, path =>
    ([], path.rectangle (map.getD path.transform) x y width height)
  | close, path => ([], path.close)
  | stroke lineWidth, path => path.stroke lineWidth
  | closeAndStroke lineWidth, path => path.close.stroke lineWidth
  | discard, path => ([], path.discard)

/-! ## What operations leave alone -/

/-- Closing changes no more than the segments and the pen. -/
theorem exists_close (path : Path α) : ∃ segments pen moved,
    path.close = { path with segments := segments, pen := pen, moved := moved } := by
  unfold close
  split
  · extract_lets closed
    split <;> exact ⟨_, _, _, rfl⟩
  · exact ⟨path.segments, path.pen, path.moved, rfl⟩

@[simp] theorem minStroke_close (path : Path α) : path.close.minStroke = path.minStroke := by
  obtain ⟨_, _, _, hclose⟩ := exists_close path
  rw [hclose]

@[simp] theorem transform_close (path : Path α) : path.close.transform = path.transform := by
  obtain ⟨_, _, _, hclose⟩ := exists_close path
  rw [hclose]

@[simp] theorem start_close (path : Path α) : path.close.start = path.start := by
  obtain ⟨_, _, _, hclose⟩ := exists_close path
  rw [hclose]

section

omit [Scalar α]

@[simp] theorem minStroke_moveTo (path : Path α) (p : Point α) :
    (path.moveTo p).minStroke = path.minStroke := rfl

@[simp] theorem minStroke_lineTo (path : Path α) (p : Point α) :
    (path.lineTo p).minStroke = path.minStroke := by
  unfold lineTo
  split <;> rfl

@[simp] theorem transform_lineTo (path : Path α) (p : Point α) :
    (path.lineTo p).transform = path.transform := by
  unfold lineTo
  split <;> rfl

@[simp] theorem minStroke_curveTo (path : Path α) (p : Point α) :
    (path.curveTo p).minStroke = path.minStroke := rfl

@[simp] theorem minStroke_discard (path : Path α) : path.discard.minStroke = path.minStroke := rfl

end

@[simp] theorem minStroke_rectangle (path : Path α) (t : Affine α) (x y width height : α) :
    (path.rectangle t x y width height).minStroke = path.minStroke := by
  simp [rectangle]

theorem minStroke_draw (path : Path α) (d : Draw α) : (d.apply path).minStroke = path.minStroke := by
  cases d with
  | move | curve => rfl
  | line p => exact minStroke_lineTo path p
  | close => exact minStroke_close path

theorem minStroke_perform (path : Path α) (s : Step α) :
    (s.perform path).2.minStroke = path.minStroke := by
  cases s with
  | draw d => exact minStroke_draw path d
  | stroke | discard | reset => rfl

/-! ## Operations as steps -/

/-- The steps around a rectangle. -/
def rectangleDraws (t : Affine α) (x y width height : α) : List (Draw α) :=
  [.move (t.apply x y), .line (t.apply (x + width) y), .line (t.apply (x + width) (y + height)),
    .line (t.apply x (y + height)), .close]

/-- The steps of an operation on a path with that map. -/
def Operation.steps (own : Affine α) : Operation α → List (Step α)
  | reset map => [.reset (map.getD own)]
  | moveTo x y map => [.draw (.move ((map.getD own).apply x y))]
  | lineTo x y map => [.draw (.line ((map.getD own).apply x y))]
  | curveTo x y map => [.draw (.curve ((map.getD own).apply x y))]
  | rectangle x y width height map =>
    (rectangleDraws (map.getD own) x y width height).map .draw
  | close => [.draw .close]
  | stroke lineWidth => [.stroke lineWidth]
  | closeAndStroke lineWidth => [.draw .close, .stroke lineWidth]
  | discard => [.discard]

/-- The path's map after an operation. -/
def Operation.mapAfter (own : Affine α) : Operation α → Affine α
  | reset map => map.getD own
  | _ => own

/-- The steps of operations one after the other. -/
def steps (own : Affine α) : List (Operation α) → List (Step α)
  | [] => []
  | op :: ops => op.steps own ++ steps (op.mapAfter own) ops

theorem run_operation_steps (op : Operation α) (path : Path α) :
    run Step.perform (op.steps path.transform) path = op.perform path := by
  cases op with
  | reset | moveTo | lineTo | curveTo | rectangle | close | discard => rfl
  | stroke lineWidth | closeAndStroke lineWidth => exact congrArg (·, _) (List.append_nil _)

theorem transform_operation (op : Operation α) (path : Path α) :
    (op.perform path).2.transform = op.mapAfter path.transform := by
  cases op with
  | reset | moveTo | curveTo | stroke | discard => rfl
  | lineTo => exact transform_lineTo _ _
  | close => exact transform_close _
  | closeAndStroke => exact transform_close _
  | rectangle =>
    simp only [Operation.perform, rectangle, transform_close, transform_lineTo]
    rfl

/-- Operations come to the same as their steps. -/
theorem run_steps (ops : List (Operation α)) (path : Path α) :
    run Step.perform (steps path.transform ops) path = run Operation.perform ops path := by
  induction ops generalizing path with
  | nil => rfl
  | cons op ops ih =>
    rw [steps, run_append, run_operation_steps, ← transform_operation, ih]
    rfl

/-! ## The pen -/

/-- The pen is somewhere exactly if a subpath has begun, and at its start until it moves. -/
structure Anchored (path : Path α) : Prop where
  isSome : path.pen.isSome = path.start.isSome
  resting : path.moved = false → path.pen = path.start
  still : path.pen = none → path.moved = false

omit [Scalar α] in
theorem anchored_fresh (minStroke : α) (map : Affine α) : Anchored (fresh minStroke map) :=
  ⟨rfl, fun _ => rfl, fun _ => rfl⟩

omit [Scalar α] in
theorem anchored_reset (path : Path α) (map : Affine α) : Anchored (path.reset map) :=
  ⟨rfl, fun _ => rfl, fun _ => rfl⟩

/-- Closing brings the pen back to the start. -/
theorem pen_close {path : Path α} (h : Anchored path) : path.close.pen = path.start := by
  have hsome := h.isSome
  unfold close
  cases hpen : path.pen <;> cases hstart : path.start <;> rw [hpen, hstart] at hsome
  · exact hpen
  · cases hsome
  · cases hsome
  · simp only
    split <;> rfl

/-- A closed subpath is closed, however often it is closed again. -/
theorem close_close (path : Path α) : path.close.close = path.close := by
  cases hpen : path.pen with
  | none =>
    have hclose : path.close = path := by
      rw [close, hpen]
    rw [hclose, hclose]
  | some pen =>
    cases hstart : path.start with
    | none =>
      have hclose : path.close = path := by
        rw [close, hpen, hstart]
      rw [hclose, hclose]
    | some start =>
      -- The pen is at the start and has not moved since, so that there is nothing to draw.
      have hclosed : ∀ segments, close ({ path with
          segments := segments, pen := some start, moved := false } : Path α)
            = { path with segments := segments, pen := some start, moved := false } := by
        intro segments
        simp only [close, hstart, Bool.false_and, Bool.false_eq_true, if_false]
      have hclose : ∃ segments, path.close
          = { path with segments := segments, pen := some start, moved := false } := by
        simp only [close, hpen, hstart]
        split
        · exact ⟨_, rfl⟩
        · exact ⟨path.segments, rfl⟩
      obtain ⟨segments, hsegments⟩ := hclose
      rw [hsegments, hclosed]

theorem anchored_draw {path : Path α} (h : Anchored path) (d : Draw α) : Anchored (d.apply path) := by
  cases d with
  | move p => exact ⟨rfl, fun _ => rfl, fun _ => rfl⟩
  | line p =>
    show Anchored (path.lineTo p)
    have hsome := h.isSome
    unfold lineTo
    cases hpen : path.pen with
    | none => exact ⟨rfl, fun _ => rfl, fun _ => rfl⟩
    | some pen =>
      rw [hpen] at hsome
      exact ⟨hsome, fun hmoved => (by cases hmoved), fun hnone => (by cases hnone)⟩
  | curve p =>
    refine ⟨rfl, fun hmoved => ?_, fun hnone => (by cases hnone)⟩
    have hstart : path.start = none :=
      Option.isNone_iff_eq_none.mp (Option.isSome_eq_false_iff.mp hmoved)
    show some p = some (path.start.getD p)
    rw [hstart]
    rfl
  | close =>
    show Anchored path.close
    have hpen : path.close.pen = path.close.start := by rw [pen_close h, start_close]
    refine ⟨by rw [hpen], fun _ => hpen, fun hnone => ?_⟩
    -- Without a start there was no pen either, and nothing has been closed.
    rw [pen_close h] at hnone
    have hpen : path.pen = none := by
      rw [← Option.not_isSome_iff_eq_none, h.isSome, hnone, Option.isSome_none]
      exact Bool.false_ne_true
    have hclose : path.close = path := by
      rw [close, hpen]
    rw [hclose]
    exact h.still hpen

theorem anchored_perform {path : Path α} (h : Anchored path) (s : Step α) :
    Anchored (s.perform path).2 := by
  cases s with
  | draw d => exact anchored_draw h d
  | stroke | discard => exact ⟨h.isSome, h.resting, h.still⟩
  | reset map => exact anchored_reset path map

/-! ## Being away from the start -/

/-- Whether the pen is somewhere else than the subpath started. -/
def isAway (path : Path α) : Bool :=
  match path.pen, path.start with
  | some pen, some start => !(pen == start)
  | _, _ => false

/-- The segment from where the pen was to where it is, if there are such points. -/
def segment? : Option (Point α) → Option (Point α) → List (Segment α)
  | some old, some new => [⟨old, new⟩]
  | _, _ => []

/-- A pen at a start that is a defined point is not away from it, whether it has moved or not. -/
theorem segments_close {path : Path α} (h : Anchored path) (hstart : ∀ p ∈ path.start, p.IsDefined) :
    path.close.segments
      = path.segments ++ if path.isAway then segment? path.pen path.start else [] := by
  unfold close isAway
  cases hpen : path.pen with
  | none => exact (List.append_nil _).symm
  | some pen =>
    cases hbegun : path.start with
    | none => exact (List.append_nil _).symm
    | some start =>
      have hdefined : (start == start) = true := hstart start hbegun
      have hresting := h.resting
      rw [hpen, hbegun] at hresting
      simp only [segment?]
      cases hmoved : path.moved with
      | true => by_cases hsame : (pen == start) = true <;> simp [hsame]
      | false =>
        obtain rfl : pen = start := Option.some.inj (hresting hmoved)
        simp [hdefined]

end Path

end Folio
