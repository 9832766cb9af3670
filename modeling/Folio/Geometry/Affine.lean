import Folio.Scalar

/-!
# Affine maps of the plane

A map sends `(x, y)` to `(a x + c y + e, b x + d y + f)`. `f.concatenate g` runs `g` first, and so
do the builders: `f.translate`, `f.scale` and `f.turn` put their own map before `f`.
-/

namespace Folio

/-- A point of the plane. -/
structure Point (α : Type) where
  x : α
  y : α
  deriving DecidableEq, Repr

/-- Points are compared coordinate by coordinate. -/
instance {α : Type} [BEq α] : BEq (Point α) := ⟨fun p q => p.x == q.x && p.y == q.y⟩

/-- A rectangle by its corner nearest the origin of the page and its size. -/
structure Extent (α : Type) where
  left : α
  top : α
  width : α
  height : α
  deriving DecidableEq, Repr

/-- An affine map, by its six coefficients. -/
structure Affine (α : Type) where
  a : α
  b : α
  c : α
  d : α
  e : α
  f : α
  deriving DecidableEq, Repr

namespace Affine

variable {α : Type} [Scalar α]

/-- The map that moves nothing. -/
def identity : Affine α := ⟨1, 0, 0, 1, 0, 0⟩

def toList (t : Affine α) : List α := [t.a, t.b, t.c, t.d, t.e, t.f]

/-- The map with those six coefficients. -/
def ofList? : List α → Option (Affine α)
  | [a, b, c, d, e, f] => some ⟨a, b, c, d, e, f⟩
  | _ => none

/-- The factor by which areas grow. -/
def determinant (t : Affine α) : α := t.a * t.d - t.b * t.c

/-- The map that runs `s` and then `t`. -/
def concatenate (t s : Affine α) : Affine α where
  a := t.a * s.a + t.c * s.b
  b := t.b * s.a + t.d * s.b
  c := t.a * s.c + t.c * s.d
  d := t.b * s.c + t.d * s.d
  e := t.a * s.e + t.c * s.f + t.e
  f := t.b * s.e + t.d * s.f + t.f

/-- Moves by `(x, y)` first. -/
def translate (t : Affine α) (x y : α) : Affine α := t.concatenate ⟨1, 0, 0, 1, x, y⟩

/-- Stretches the axes by `x` and `y` first. -/
def scale (t : Affine α) (x y : α) : Affine α := t.concatenate ⟨x, 0, 0, y, 0, 0⟩

/-- Turns by the angle of that cosine and sine first. -/
def turn (t : Affine α) (cosine sine : α) : Affine α :=
  t.concatenate ⟨cosine, sine, -sine, cosine, 0, 0⟩

def apply (t : Affine α) (x y : α) : Point α := ⟨t.a * x + t.c * y + t.e, t.b * x + t.d * y + t.f⟩

/-- The first of four values that none of the others is below. -/
def least4 (p q r s : α) : α := Scalar.lesser (Scalar.lesser (Scalar.lesser p q) r) s

/-- The first of four values that none of the others is above. -/
def greatest4 (p q r s : α) : α := Scalar.greater (Scalar.greater (Scalar.greater p q) r) s

/-- The bounds of the image of a rectangle. -/
def bounds (t : Affine α) (r : Extent α) : Extent α :=
  let p := t.apply r.left r.top
  let q := t.apply (r.left + r.width) r.top
  let u := t.apply r.left (r.top + r.height)
  let v := t.apply (r.left + r.width) (r.top + r.height)
  let left := least4 p.x q.x u.x v.x
  let top := least4 p.y q.y u.y v.y
  ⟨left, top, greatest4 p.x q.x u.x v.x - left, greatest4 p.y q.y u.y v.y - top⟩

/-- A length under the mean stretch of the two axes. -/
def scaleLength (t : Affine α) (length : α) : α := length * Scalar.sqrt (Scalar.abs t.determinant)

/-- Below this a determinant or a direction's component counts as zero. -/
def negligible : α := Scalar.ratio 1 (Nat.pow 10 12)

/-- The map that undoes `t`, unless `t` flattens the plane. -/
def inverse? (t : Affine α) : Option (Affine α) :=
  let det := t.determinant
  if Scalar.abs det < negligible then none
  else
    some
      { a := t.d / det
        b := -t.b / det
        c := -t.c / det
        d := t.a / det
        e := (t.c * t.f - t.d * t.e) / det
        f := (t.b * t.e - t.a * t.f) / det }

/-- The map that undoes `t`, or the complaint that there is none. -/
def inverse (t : Affine α) : Except Fault (Affine α) :=
  match t.inverse? with
  | some s => .ok s
  | none =>
    let entries := Text.joinWith (Text.lit ", ") (t.toList.map Scalar.text)
    .error (.ofProblem .layout
      (Text.lit "Transform (" ++ entries ++ Text.lit ") is not invertible"))

/-- A cosine or sine of a quarter turn comes out as exactly zero. -/
def snap (x : α) : α := if Scalar.abs x < negligible then 0 else x

end Affine

namespace Affine

/-- Turns by an angle in radians first; an infinite angle has no direction. -/
def rotate (t : Affine Float) (radians : Float) : Except Fault (Affine Float) :=
  if radians.isInf then .error (.badValue (Text.lit "math domain error"))
  else .ok (t.turn (snap radians.cos) (snap radians.sin))

end Affine

end Folio
