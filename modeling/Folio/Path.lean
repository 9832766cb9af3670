import Folio.Box

/-!
# Paths

Straight segments of the path under construction, drawn as rules when the path is stroked. Points
are mapped to the page when they are recorded. Curves are not drawn: they only move the pen.

A segment nearly parallel to an axis counts as parallel to it, which keeps its rule upright; the
vertical case is tried first.
-/

namespace Folio

/-- A straight segment in page space. -/
structure Segment (α : Type) where
  start : Point α
  stop : Point α
  deriving DecidableEq, Repr

/-- How a segment lies on the page. -/
inductive Orientation
  | horizontal
  | vertical
  | diagonal
  deriving DecidableEq, Repr

namespace Segment

variable {α : Type} [Scalar α]

/-- An extent below this along an axis counts as none. -/
def axisTolerance : α := Scalar.half 1

/-- The extent along the first axis, with its sign. -/
def dx (s : Segment α) : α := s.stop.x - s.start.x

/-- The extent along the second axis, with its sign. -/
def dy (s : Segment α) : α := s.stop.y - s.start.y

def orientation (s : Segment α) : Orientation :=
  if Scalar.abs s.dx < axisTolerance then .vertical
  else if Scalar.abs s.dy < axisTolerance then .horizontal
  else .diagonal

def length (s : Segment α) : α := Scalar.hypot s.dx s.dy

/-- The width of the rule; a diagonal one lies flat until it is turned. -/
def width (s : Segment α) : α :=
  match s.orientation with
  | .vertical => 0
  | .horizontal => Scalar.abs s.dx
  | .diagonal => s.length

def height (s : Segment α) : α :=
  match s.orientation with
  | .vertical => Scalar.abs s.dy
  | .horizontal | .diagonal => 0

/-- The left end of the rule; a diagonal one is centred on the segment. -/
def left (s : Segment α) : α :=
  match s.orientation with
  | .diagonal => Scalar.half (s.start.x + s.stop.x) - Scalar.half s.width
  | .horizontal | .vertical => Scalar.lesser s.start.x s.stop.x

/-- The upper end of the rule. -/
def top (s : Segment α) : α :=
  match s.orientation with
  | .diagonal => Scalar.half (s.start.y + s.stop.y) - Scalar.half s.height
  | .horizontal | .vertical => Scalar.lesser s.start.y s.stop.y

/-- The angle by which the rule is turned, in degrees. -/
def angle (s : Segment α) : α :=
  match s.orientation with
  | .diagonal => Scalar.direction s.dy s.dx
  | .horizontal | .vertical => 0

def side (s : Segment α) : Side :=
  match s.orientation with
  | .vertical => .right
  | .horizontal | .diagonal => .bottom

/-- The rule that stands for the segment. -/
def rule (s : Segment α) (stroke : α) : Rule α where
  left := s.left
  top := s.top
  width := s.width
  height := s.height
  border := s.side.border
  stroke := stroke
  angle := s.angle

end Segment

/-- The path under construction. `moved` tells whether the pen has left the start of the subpath;
it may have come back since. -/
structure Path (α : Type) where
  minStroke : α
  transform : Affine α
  segments : List (Segment α) := []
  pen : Option (Point α) := none
  start : Option (Point α) := none
  moved : Bool := false

namespace Path

variable {α : Type} [Scalar α]

/-- Forgets the path, for a page with its own map. -/
def reset (path : Path α) (transform : Affine α) : Path α :=
  { path with transform := transform, segments := [], pen := none, start := none, moved := false }

/-- Starts a subpath at a page point. -/
def moveTo (path : Path α) (p : Point α) : Path α :=
  { path with pen := some p, start := some p, moved := false }

/-- Draws to a page point; without a pen this is a move. -/
def lineTo (path : Path α) (p : Point α) : Path α :=
  match path.pen with
  | none => path.moveTo p
  | some pen => { path with segments := path.segments ++ [⟨pen, p⟩], pen := some p, moved := true }

/-- Moves the pen to the end of a curve. -/
def curveTo (path : Path α) (p : Point α) : Path α :=
  { path with pen := some p, start := some (path.start.getD p), moved := path.start.isSome }

/-- Draws back to the start of the subpath, if the pen is not there. -/
def close (path : Path α) : Path α :=
  match path.pen, path.start with
  | some pen, some start =>
    let closed := { path with pen := some start, moved := false }
    if path.moved && !(pen == start) then
      { closed with segments := path.segments ++ [⟨pen, start⟩] }
    else closed
  | _, _ => path

/-- Draws a rectangle given in user space, from its corner around. -/
def rectangle (path : Path α) (t : Affine α) (x y width height : α) : Path α :=
  ((((path.moveTo (t.apply x y)).lineTo (t.apply (x + width) y)).lineTo
    (t.apply (x + width) (y + height))).lineTo (t.apply x (y + height))).close

/-- The rules of the buffered segments, and the path without them. -/
def stroke (path : Path α) (lineWidth : α) : List (Rule α) × Path α :=
  let width := Scalar.greater lineWidth path.minStroke
  (path.segments.map (·.rule width), { path with segments := [] })

/-- Drops the buffered segments. -/
def discard (path : Path α) : Path α := { path with segments := [] }

end Path

end Folio
