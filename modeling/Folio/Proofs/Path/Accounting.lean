import Folio.Proofs.Path.Steps
import Folio.Proofs.Scalar.Rational

/-!
# No segment is lost or drawn twice

Segments are constructed by lines that have a pen to start from and by closings that bring the pen
back from somewhere, one by each, from where the pen was to where it is. Every segment is then drawn
by one stroke, or dropped by one discard or reset, or still held, in the order of construction
(`segments_accounted`).

One step keeps the books: what the path holds and what the step constructs is what the step takes and
what the path holds afterwards (`isAccounted`). A run adds them up (`books`).
-/

namespace Folio.Path

variable {α : Type} [Scalar α]

/-- A step of a run, with the path that it starts from. -/
structure Turn (α : Type) where
  before : Path α
  step : Step α

/-- The turns of a run. -/
def turns : List (Step α) → Path α → List (Turn α)
  | [], _ => []
  | s :: ss, path => ⟨path, s⟩ :: turns ss (s.perform path).2

namespace Turn

variable (t : Turn α)

/-- The rules that the step gives. -/
def rules : List (Rule α) := (t.step.perform t.before).1

/-- The path after the step. -/
def after : Path α := (t.step.perform t.before).2

/-- Whether the step constructs a segment: a line does if there is a pen, and closing if the pen is
away from the start. -/
def constructs : Bool :=
  match t.step with
  | .draw (.line _) => t.before.pen.isSome
  | .draw .close => t.before.isAway
  | _ => false

/-- The segment that the step constructs, from the old pen to the new one. -/
def made : List (Segment α) := if t.constructs then segment? t.before.pen t.after.pen else []

omit [Scalar α]

/-- The segments that the step draws. -/
def drawn : List (Segment α) :=
  match t.step with
  | .stroke _ => t.before.segments
  | _ => []

/-- The segments that the step drops. -/
def dropped : List (Segment α) :=
  match t.step with
  | .discard | .reset _ => t.before.segments
  | _ => []

variable [Scalar α]

/-- The books of one step. -/
structure IsAccounted (minStroke : α) (t : Turn α) : Prop where
  /-- It constructs one segment or none. -/
  made_length : t.made.length = if t.constructs then 1 else 0
  /-- What it has not taken is still held. -/
  segments : t.before.segments ++ t.made = t.drawn ++ t.dropped ++ t.after.segments
  /-- It gives a rule for each segment that it draws, in order. -/
  rules : t.rules = match t.step with
    | .stroke lineWidth => t.drawn.map (·.rule (Scalar.greater lineWidth minStroke))
    | _ => []
  /-- It takes the pen to its target. -/
  pen : ∀ p ∈ t.step.target, t.after.pen = some p
  /-- There is a pen exactly if there is a subpath. -/
  pen_start : t.before.pen = none ↔ t.before.start = none

end Turn

/-! ## One step -/

section

omit [Scalar α]

theorem pen_lineTo (path : Path α) (p : Point α) : (path.lineTo p).pen = some p := by
  unfold lineTo
  split <;> rfl

/-- A line constructs a segment from the pen, if there is one. -/
theorem segments_lineTo (path : Path α) (p : Point α) :
    (path.lineTo p).segments
      = path.segments ++ if path.pen.isSome then segment? path.pen (some p) else [] := by
  unfold lineTo
  cases hpen : path.pen with
  | none => exact (List.append_nil _).symm
  | some pen => rfl

theorem pen_eq_none_iff {path : Path α} (h : Anchored path) :
    path.pen = none ↔ path.start = none := by
  rw [← Option.not_isSome_iff_eq_none, ← Option.not_isSome_iff_eq_none, h.isSome]

theorem length_segment? {old new : Option (Point α)} (hold : old.isSome = true)
    (hnew : new.isSome = true) : (segment? old new).length = 1 := by
  obtain ⟨p, rfl⟩ := Option.isSome_iff_exists.mp hold
  obtain ⟨q, rfl⟩ := Option.isSome_iff_exists.mp hnew
  rfl

end

/-- A pen that is away from a start is somewhere, and so is the start. -/
theorem isSome_of_isAway {path : Path α} (h : path.isAway = true) :
    path.pen.isSome = true ∧ path.start.isSome = true := by
  unfold isAway at h
  split at h
  next hpen hstart => exact ⟨by rw [hpen]; rfl, by rw [hstart]; rfl⟩
  next => cases h

theorem Turn.length_made {t : Turn α} (h : t.constructs = true →
      t.before.pen.isSome = true ∧ t.after.pen.isSome = true) :
    t.made.length = if t.constructs then 1 else 0 := by
  unfold made
  split
  next hconstructs => exact length_segment? (h hconstructs).1 (h hconstructs).2
  next => rfl

/-- The books of a step from a subpath that started at a defined point. -/
theorem isAccounted {path : Path α} (h : Anchored path) (hstart : ∀ p ∈ path.start, p.IsDefined)
    (s : Step α) : Turn.IsAccounted path.minStroke ⟨path, s⟩ := by
  have hpens := pen_eq_none_iff h
  cases s with
  | draw d =>
    cases d with
    | move p | curve p => exact ⟨rfl, List.append_nil _, rfl, fun _ hq => hq, hpens⟩
    | line p =>
      have hpen : (Turn.after ⟨path, .draw (.line p)⟩).pen = some p := pen_lineTo path p
      refine ⟨Turn.length_made fun hpen' => ⟨hpen', by rw [hpen]; rfl⟩, ?_, rfl,
        fun _ hq => hpen.trans hq, hpens⟩
      rw [Turn.made, hpen]
      exact (segments_lineTo path p).symm
    | close =>
      have hpen : (Turn.after ⟨path, .draw .close⟩).pen = path.start := pen_close h
      refine ⟨Turn.length_made fun haway => ?_, ?_, rfl, fun _ hq => (by cases hq), hpens⟩
      · rw [hpen]
        exact isSome_of_isAway haway
      · rw [Turn.made, hpen]
        exact (segments_close h hstart).symm
  | stroke | discard | reset =>
    -- What is held is taken as a whole, and nothing is constructed.
    refine ⟨rfl, ?_, rfl, fun _ hq => (by cases hq), hpens⟩
    simp [Turn.made, Turn.constructs, Turn.drawn, Turn.dropped, Turn.after, Step.perform, stroke,
      discard, reset]

/-- A subpath starts where a step took the pen. -/
theorem isDefined_start_perform {path : Path α} (hstart : ∀ p ∈ path.start, p.IsDefined)
    {s : Step α} (htarget : ∀ p ∈ s.target, p.IsDefined) :
    ∀ p ∈ (s.perform path).2.start, p.IsDefined := by
  cases s with
  | draw d =>
    cases d with
    | move p => exact htarget
    | line p =>
      show ∀ q ∈ (path.lineTo p).start, q.IsDefined
      unfold lineTo
      split
      · exact htarget
      · exact hstart
    | curve p =>
      show ∀ q ∈ some (path.start.getD p), q.IsDefined
      cases hbegun : path.start with
      | none => exact htarget
      | some start =>
        rw [hbegun] at hstart
        exact hstart
    | close =>
      show ∀ q ∈ path.close.start, q.IsDefined
      rw [start_close]
      exact hstart
  | stroke | discard => exact hstart
  | reset => exact fun _ hp => (by cases hp)

/-! ## A run -/

theorem rules_run (ss : List (Step α)) (path : Path α) :
    (run Step.perform ss path).1 = (turns ss path).flatMap Turn.rules := by
  induction ss generalizing path with
  | nil => rfl
  | cons s ss ih => exact congrArg ((s.perform path).1 ++ ·) (ih _)

omit [Scalar α] in
/-- What is drawn is part of what is taken, in the same order. -/
theorem drawn_sublist (ts : List (Turn α)) :
    (ts.flatMap Turn.drawn).Sublist (ts.flatMap fun t => t.drawn ++ t.dropped) := by
  induction ts with
  | nil => exact .slnil
  | cons t ts ih => exact (List.sublist_append_left _ _).append ih

/-- The books of a run from a path that holds segments already: each turn keeps them, and what has
been taken comes before what is held in the end. -/
theorem books {ss : List (Step α)} {path : Path α} (h : Anchored path)
    (hstart : ∀ p ∈ path.start, p.IsDefined) (hss : ∀ s ∈ ss, ∀ p ∈ s.target, p.IsDefined) :
    (∀ t ∈ turns ss path, t.IsAccounted path.minStroke)
      ∧ path.segments ++ (turns ss path).flatMap Turn.made
        = (turns ss path).flatMap (fun t => t.drawn ++ t.dropped)
          ++ (run Step.perform ss path).2.segments
      ∧ Anchored (run Step.perform ss path).2 := by
  induction ss generalizing path with
  | nil => exact ⟨fun _ ht => (by cases ht), List.append_nil _, h⟩
  | cons s ss ih =>
    have hturn := isAccounted h hstart s
    have htarget := hss s List.mem_cons_self
    obtain ⟨hturns, hmade, hanchored⟩ := ih (anchored_perform h s)
      (isDefined_start_perform hstart htarget) fun s hs => hss s (List.mem_cons_of_mem _ hs)
    rw [minStroke_perform] at hturns
    refine ⟨List.forall_mem_cons.mpr ⟨hturn, hturns⟩, ?_, hanchored⟩
    rw [turns, List.flatMap_cons, List.flatMap_cons, run]
    calc path.segments ++ (Turn.made ⟨path, s⟩ ++ (turns ss (s.perform path).2).flatMap Turn.made)
        = path.segments ++ Turn.made ⟨path, s⟩
            ++ (turns ss (s.perform path).2).flatMap Turn.made := (List.append_assoc ..).symm
      _ = Turn.drawn ⟨path, s⟩ ++ Turn.dropped ⟨path, s⟩ ++ ((s.perform path).2.segments
            ++ (turns ss (s.perform path).2).flatMap Turn.made) := by
          rw [hturn.segments, List.append_assoc]
          rfl
      _ = _ := by
          rw [hmade]
          exact (List.append_assoc ..).symm

/-- Whatever is asked of a path, with points that are defined: every segment is constructed by one
turn, and is drawn by one stroke, dropped by one discard or reset, or still held, all in the order of
construction. There is a pen exactly if there is a subpath, and closing again does nothing. -/
theorem segments_accounted (minStroke : α) (own : Affine α) (ops : List (Operation α))
    (hops : ∀ s ∈ steps own ops, ∀ p ∈ s.target, p.IsDefined) :
    let ts := turns (steps own ops) (fresh minStroke own)
    let answer := run Operation.perform ops (fresh minStroke own)
    run Step.perform (steps own ops) (fresh minStroke own) = answer
      ∧ answer.1 = ts.flatMap Turn.rules
      ∧ (∀ t ∈ ts, t.IsAccounted minStroke)
      ∧ ts.flatMap Turn.made = ts.flatMap (fun t => t.drawn ++ t.dropped) ++ answer.2.segments
      ∧ (ts.flatMap Turn.drawn).Sublist (ts.flatMap Turn.made)
      ∧ (answer.2.pen = none ↔ answer.2.start = none)
      ∧ answer.2.close.close = answer.2.close := by
  intro ts answer
  have hsteps : run Step.perform (steps own ops) (fresh minStroke own) = answer :=
    run_steps ops (fresh minStroke own)
  obtain ⟨hturns, hmade, hanchored⟩ :=
    books (anchored_fresh minStroke own) (fun _ hp => by cases hp) hops
  rw [hsteps] at hmade hanchored
  have htotal : ts.flatMap Turn.made
      = ts.flatMap (fun t => t.drawn ++ t.dropped) ++ answer.2.segments := hmade
  refine ⟨hsteps, ?_, hturns, htotal, ?_, pen_eq_none_iff hanchored, close_close _⟩
  · rw [← hsteps, rules_run]
  · rw [htotal]
    exact (drawn_sublist ts).trans (List.sublist_append_left _ _)

/-- Exact points are all defined. -/
theorem isDefined_rat (p : Point ℚ) : p.IsDefined := by
  show (p.x == p.x && p.y == p.y) = true
  rw [beq_self_eq_true, beq_self_eq_true, Bool.and_self]

/-- A line without a pen, one with a pen, a curve and the way back, which are stroked; then a
rectangle that is dropped, and a line from its corner that is stroked with the way back. -/
def doodle : List (Operation ℚ) := [
  .lineTo 0 0 none, .lineTo 10 0 none, .curveTo 20 5 none, .close, .stroke 1,
  .rectangle 0 0 20 10 none, .discard, .lineTo 5 5 none, .closeAndStroke 2]

/-- Of eight segments, four are drawn and four are dropped. -/
theorem segments_accounted_doodle :
    let ts := turns (steps .identity doodle) (fresh 1 .identity)
    let answer := run Operation.perform doodle (fresh 1 .identity)
    (∀ s ∈ steps .identity doodle, ∀ p ∈ s.target, p.IsDefined)
      ∧ answer.1 = ts.flatMap Turn.rules ∧ answer.1.length = 4
      ∧ ts.flatMap Turn.made = ts.flatMap (fun t => t.drawn ++ t.dropped) ++ answer.2.segments
      ∧ (ts.flatMap Turn.made).length = 8 ∧ (ts.flatMap Turn.dropped).length = 4 := by
  intro ts answer
  have hdefined : ∀ s ∈ steps .identity doodle, ∀ p ∈ s.target, p.IsDefined :=
    fun _ _ p _ => isDefined_rat p
  obtain ⟨-, hrules, -, hmade, -⟩ := segments_accounted 1 .identity doodle hdefined
  exact ⟨hdefined, hrules, by decide +kernel, hmade, by decide +kernel, by decide +kernel⟩

end Folio.Path
