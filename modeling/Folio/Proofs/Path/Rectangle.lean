import Folio.Proofs.Geometry.Bounds
import Folio.Proofs.Path.Steps

/-!
# Rectangles with sides along the axes

With exact coordinates, a rectangle that is stroked under a map that keeps the axes parallel is drawn
as the four sides of its bounds (`stroke_rectangle`), whichever way round it is gone and however it
is turned or flipped, as long as the sides are not so short as to count as none.

The segments go from corner to corner of the rectangle. Between corners on one line along an axis, a
rule lies flat or stands upright (`rule_flat`, `rule_upright`), and all corners are made of the
coordinates of two opposite ones (`bounds_of_parallel`).
-/

namespace Folio

/-! ## Rules along the axes -/

namespace Segment

theorem axisTolerance_rat : (axisTolerance : ℚ) = 1 / 2 := by
  show (1 : ℚ) / ((2 : ℕ) : ℚ) = 1 / 2
  norm_num

/-- A segment along the first axis, unless it is too short, lies flat. -/
theorem rule_flat {p q : Point ℚ} (hlevel : p.y = q.y) (hlong : 1 / 2 ≤ |q.x - p.x|) (stroke : ℚ) :
    (Segment.mk p q).rule stroke
      = ⟨min p.x q.x, p.y, |q.x - p.x|, 0, Side.bottom.border, stroke, 0⟩ := by
  have horientation : (Segment.mk p q).orientation = .horizontal := by
    have hdx : ¬ Scalar.abs (Segment.mk p q).dx < (axisTolerance : ℚ) := by
      show ¬ |q.x - p.x| < _
      rw [axisTolerance_rat]
      exact not_lt.mpr hlong
    have hdy : Scalar.abs (Segment.mk p q).dy < (axisTolerance : ℚ) := by
      show |q.y - p.y| < _
      rw [axisTolerance_rat, hlevel, sub_self, abs_zero]
      norm_num
    unfold orientation
    rw [if_neg hdx, if_pos hdy]
  have hleft : Scalar.lesser p.x q.x = min p.x q.x := Scalar.lesser_eq_min _ _
  have htop : Scalar.lesser p.y q.y = p.y := by
    rw [Scalar.lesser_eq_min, hlevel, min_self]
  simp only [rule, left, top, width, height, side, angle, horientation, hleft, htop]
  rfl

/-- A segment along the second axis stands upright. -/
theorem rule_upright {p q : Point ℚ} (hplumb : p.x = q.x) (stroke : ℚ) :
    (Segment.mk p q).rule stroke
      = ⟨p.x, min p.y q.y, 0, |q.y - p.y|, Side.right.border, stroke, 0⟩ := by
  have horientation : (Segment.mk p q).orientation = .vertical := by
    have hdx : Scalar.abs (Segment.mk p q).dx < (axisTolerance : ℚ) := by
      show |q.x - p.x| < _
      rw [axisTolerance_rat, hplumb, sub_self, abs_zero]
      norm_num
    unfold orientation
    rw [if_pos hdx]
  have hleft : Scalar.lesser p.x q.x = p.x := by
    rw [Scalar.lesser_eq_min, hplumb, min_self]
  have htop : Scalar.lesser p.y q.y = min p.y q.y := Scalar.lesser_eq_min _ _
  simp only [rule, left, top, width, height, side, angle, horientation, hleft, htop]
  rfl

end Segment

/-! ## Sides of an extent -/

namespace Extent

variable (r : Extent ℚ) (stroke : ℚ)

/-- A rule as wide as the extent, at that height. -/
def across (y : ℚ) : Rule ℚ := ⟨r.left, y, r.width, 0, Side.bottom.border, stroke, 0⟩

/-- A rule as high as the extent, at that place from the left. -/
def down (x : ℚ) : Rule ℚ := ⟨x, r.top, 0, r.height, Side.right.border, stroke, 0⟩

/-- The sides of the extent: the top, the bottom, the left and the right one. -/
def sides : List (Rule ℚ) :=
  [r.across stroke r.top, r.across stroke (r.top + r.height),
    r.down stroke r.left, r.down stroke (r.left + r.width)]

/-- The extent with opposite corners at those points. -/
def spanned (p q : Point ℚ) : Extent ℚ :=
  ⟨min p.x q.x, min p.y q.y, |q.x - p.x|, |q.y - p.y|⟩

theorem min_add_abs_sub (a b : ℚ) : min a b + |b - a| = max a b := by
  rw [← max_sub_min_eq_abs, add_sub_cancel]

/-- Of two values, one is the smaller and the other one the greater. -/
theorem pair_perm {β : Type} (f : ℚ → β) (a b : ℚ) : [f a, f b].Perm [f (min a b), f (max a b)] := by
  rcases le_total a b with h | h
  · rw [min_eq_left h, max_eq_right h]
  · rw [min_eq_right h, max_eq_left h]
    exact .swap _ _ _

/-- The sides are at the coordinates of two opposite corners. -/
theorem perm_sides (p q : Point ℚ) :
    let r := spanned p q
    [r.across stroke p.y, r.down stroke q.x, r.across stroke q.y, r.down stroke p.x].Perm
      (r.sides stroke) := by
  intro r
  have hflat := pair_perm (r.across stroke) p.y q.y
  have hupright := pair_perm (r.down stroke) p.x q.x
  have hbottom : r.top + r.height = max p.y q.y := min_add_abs_sub _ _
  have hright : r.left + r.width = max p.x q.x := min_add_abs_sub _ _
  rw [sides, hbottom, hright]
  refine List.Perm.trans ?_ (hflat.append hupright)
  exact .cons _ ((List.Perm.swap _ _ _).trans (.cons _ (.swap _ _ _)))

end Extent

/-! ## Corners -/

namespace Affine

variable {t : Affine ℚ}

/-- The map takes lines along the axes to such lines. -/
def IsParallel (t : Affine ℚ) : Prop := (t.b = 0 ∧ t.c = 0) ∨ (t.a = 0 ∧ t.d = 0)

/-- Each of two opposite corners has one coordinate of each of the others. -/
theorem corners_of_parallel (h : t.IsParallel) (x y width height : ℚ) :
    let p := t.apply x y
    let q := t.apply (x + width) (y + height)
    (t.apply (x + width) y = ⟨q.x, p.y⟩ ∧ t.apply x (y + height) = ⟨p.x, q.y⟩)
      ∨ (t.apply (x + width) y = ⟨p.x, q.y⟩ ∧ t.apply x (y + height) = ⟨q.x, p.y⟩) := by
  simp only [apply, Point.mk.injEq]
  rcases h with ⟨hb, hc⟩ | ⟨ha, hd⟩
  · left
    simp only [hb, hc, zero_mul, add_zero, zero_add, and_self]
  · right
    simp only [ha, hd, zero_mul, add_zero, zero_add, and_self]

theorem least4_of_pair {p q u v a b : ℚ} (h : ({p, q, u, v} : Set ℚ) = {a, b}) :
    least4 p q u v = min a b := by
  have hleast := isLeast_least4 p q u v
  rw [h] at hleast
  exact hleast.unique isLeast_pair

theorem greatest4_of_pair {p q u v a b : ℚ} (h : ({p, q, u, v} : Set ℚ) = {a, b}) :
    greatest4 p q u v = max a b := by
  have hgreatest := isGreatest_greatest4 p q u v
  rw [h] at hgreatest
  exact hgreatest.unique isGreatest_pair

/-- The bounds of a rectangle have the images of two opposite corners as corners. -/
theorem bounds_of_parallel (h : t.IsParallel) (x y width height : ℚ) :
    t.bounds ⟨x, y, width, height⟩
      = .spanned (t.apply x y) (t.apply (x + width) (y + height)) := by
  have hxs : ({(t.apply x y).x, (t.apply (x + width) y).x, (t.apply x (y + height)).x,
      (t.apply (x + width) (y + height)).x} : Set ℚ)
        = {(t.apply x y).x, (t.apply (x + width) (y + height)).x} := by
    rcases corners_of_parallel h x y width height with ⟨hright, hbelow⟩ | ⟨hright, hbelow⟩ <;>
      rw [hright, hbelow] <;> grind
  have hys : ({(t.apply x y).y, (t.apply (x + width) y).y, (t.apply x (y + height)).y,
      (t.apply (x + width) (y + height)).y} : Set ℚ)
        = {(t.apply x y).y, (t.apply (x + width) (y + height)).y} := by
    rcases corners_of_parallel h x y width height with ⟨hright, hbelow⟩ | ⟨hright, hbelow⟩ <;>
      rw [hright, hbelow] <;> grind
  simp only [bounds, Extent.spanned, least4_of_pair hxs, least4_of_pair hys, greatest4_of_pair hxs,
    greatest4_of_pair hys, max_sub_min_eq_abs]

end Affine

/-! ## Rectangles -/

namespace Path

/-- A rectangle whose last corner is not the first one adds four segments, and the pen is back. -/
theorem rectangle_eq {α : Type} [Scalar α] (path : Path α) (t : Affine α) (x y width height : α)
    (hne : (t.apply x (y + height) == t.apply x y) = false) :
    path.rectangle t x y width height
      = { path with
          segments := path.segments ++ [
            ⟨t.apply x y, t.apply (x + width) y⟩,
            ⟨t.apply (x + width) y, t.apply (x + width) (y + height)⟩,
            ⟨t.apply (x + width) (y + height), t.apply x (y + height)⟩,
            ⟨t.apply x (y + height), t.apply x y⟩]
          pen := some (t.apply x y)
          start := some (t.apply x y)
          moved := false } := by
  simp [rectangle, lineTo, moveTo, close, hne]

section

variable {p q u v : Point ℚ}

/-- Between points at the two ends of an extent, in either order, a rule is as wide as the extent. -/
theorem rule_across (hwide : 1 / 2 ≤ |q.x - p.x|) (y stroke : ℚ) :
    (Segment.mk ⟨p.x, y⟩ ⟨q.x, y⟩).rule stroke = (Extent.spanned p q).across stroke y
      ∧ (Segment.mk ⟨q.x, y⟩ ⟨p.x, y⟩).rule stroke = (Extent.spanned p q).across stroke y := by
  have hback : 1 / 2 ≤ |p.x - q.x| := by rwa [abs_sub_comm]
  constructor
  · rw [Segment.rule_flat (p := ⟨p.x, y⟩) (q := ⟨q.x, y⟩) rfl hwide]
    rfl
  · rw [Segment.rule_flat (p := ⟨q.x, y⟩) (q := ⟨p.x, y⟩) rfl hback, min_comm, abs_sub_comm]
    rfl

/-- So it is with the height. -/
theorem rule_down (p q : Point ℚ) (x stroke : ℚ) :
    (Segment.mk ⟨x, p.y⟩ ⟨x, q.y⟩).rule stroke = (Extent.spanned p q).down stroke x
      ∧ (Segment.mk ⟨x, q.y⟩ ⟨x, p.y⟩).rule stroke = (Extent.spanned p q).down stroke x := by
  constructor
  · rw [Segment.rule_upright (p := ⟨x, p.y⟩) (q := ⟨x, q.y⟩) rfl]
    rfl
  · rw [Segment.rule_upright (p := ⟨x, q.y⟩) (q := ⟨x, p.y⟩) rfl, min_comm, abs_sub_comm]
    rfl

/-- With `p` and `q` opposite to each other, the last corner is not the first one. -/
theorem last_ne_first
    (hcorners : (u = ⟨q.x, p.y⟩ ∧ v = ⟨p.x, q.y⟩) ∨ (u = ⟨p.x, q.y⟩ ∧ v = ⟨q.x, p.y⟩))
    (hwide : 1 / 2 ≤ |q.x - p.x|) (hhigh : 1 / 2 ≤ |q.y - p.y|) : (v == p) = false := by
  have hhalf : ¬ (1 : ℚ) / 2 ≤ 0 := by norm_num
  refine Bool.eq_false_iff.mpr fun hsame => hhalf ?_
  have hxs : v.x = p.x := eq_of_beq (Bool.and_eq_true_iff.mp hsame).1
  have hys : v.y = p.y := eq_of_beq (Bool.and_eq_true_iff.mp hsame).2
  rcases hcorners with ⟨-, hv⟩ | ⟨-, hv⟩
  · rwa [← hys, hv, sub_self, abs_zero] at hhigh
  · rwa [← hxs, hv, sub_self, abs_zero] at hwide

/-- Whichever way round they are gone, the corners are joined by the sides. -/
theorem perm_rules_around
    (hcorners : (u = ⟨q.x, p.y⟩ ∧ v = ⟨p.x, q.y⟩) ∨ (u = ⟨p.x, q.y⟩ ∧ v = ⟨q.x, p.y⟩))
    (hwide : 1 / 2 ≤ |q.x - p.x|) (stroke : ℚ) :
    ([Segment.mk p u, ⟨u, q⟩, ⟨q, v⟩, ⟨v, p⟩].map (·.rule stroke)).Perm
      ((Extent.spanned p q).sides stroke) := by
  obtain ⟨hahead, hback⟩ := rule_across hwide p.y stroke
  obtain ⟨hahead', hback'⟩ := rule_across hwide q.y stroke
  obtain ⟨hfall, hrise⟩ := rule_down p q p.x stroke
  obtain ⟨hfall', hrise'⟩ := rule_down p q q.x stroke
  have hsides := Extent.perm_sides stroke p q
  rcases hcorners with ⟨rfl, rfl⟩ | ⟨rfl, rfl⟩
  · show List.Perm [(Segment.mk ⟨p.x, p.y⟩ ⟨q.x, p.y⟩).rule stroke,
      (Segment.mk ⟨q.x, p.y⟩ ⟨q.x, q.y⟩).rule stroke, (Segment.mk ⟨q.x, q.y⟩ ⟨p.x, q.y⟩).rule stroke,
      (Segment.mk ⟨p.x, q.y⟩ ⟨p.x, p.y⟩).rule stroke] _
    rw [hahead, hfall', hback', hrise]
    exact hsides
  · show List.Perm [(Segment.mk ⟨p.x, p.y⟩ ⟨p.x, q.y⟩).rule stroke,
      (Segment.mk ⟨p.x, q.y⟩ ⟨q.x, q.y⟩).rule stroke, (Segment.mk ⟨q.x, q.y⟩ ⟨q.x, p.y⟩).rule stroke,
      (Segment.mk ⟨q.x, p.y⟩ ⟨p.x, p.y⟩).rule stroke] _
    rw [hfall, hahead', hrise', hback]
    exact (List.reverse_perm _).symm.trans hsides

end

/-- A rectangle that is stroked is drawn as the four sides of its bounds, after what the path held
already. The pen ends at the corner that the rectangle started from, and closing again adds
nothing. -/
theorem stroke_rectangle (path : Path ℚ) {t : Affine ℚ} (h : t.IsParallel)
    (x y width height lineWidth : ℚ)
    (hwide : 1 / 2 ≤ (t.bounds ⟨x, y, width, height⟩).width)
    (hhigh : 1 / 2 ≤ (t.bounds ⟨x, y, width, height⟩).height) :
    let whole := path.rectangle t x y width height
    let stroke := Scalar.greater lineWidth path.minStroke
    (∃ four : List (Rule ℚ),
        (whole.stroke lineWidth).1 = path.segments.map (·.rule stroke) ++ four
          ∧ four.Perm ((t.bounds ⟨x, y, width, height⟩).sides stroke))
      ∧ whole.pen = some (t.apply x y) ∧ whole.close = whole
      ∧ (whole.stroke lineWidth).2.pen = some (t.apply x y)
      ∧ (whole.stroke lineWidth).2.close = (whole.stroke lineWidth).2 := by
  intro whole stroke
  rw [Affine.bounds_of_parallel h] at hwide hhigh ⊢
  have hcorners := Affine.corners_of_parallel h x y width height
  have hrectangle := rectangle_eq path t x y width height
  simp only at hcorners
  generalize t.apply x y = p, t.apply (x + width) (y + height) = q,
    t.apply (x + width) y = u, t.apply x (y + height) = v at *
  change 1 / 2 ≤ |q.x - p.x| at hwide
  change 1 / 2 ≤ |q.y - p.y| at hhigh
  have hwhole : whole = _ := hrectangle (last_ne_first hcorners hwide hhigh)
  have hclosed : ∀ segments, close ({ path with
      segments := segments, pen := some p, start := some p, moved := false } : Path ℚ)
        = { path with segments := segments, pen := some p, start := some p, moved := false } :=
    fun _ => by simp [close]
  rw [hwhole]
  exact ⟨⟨_, List.map_append, perm_rules_around hcorners hwide stroke⟩, rfl, hclosed _, rfl,
    hclosed _⟩

/-- A path that holds a segment, with the pen away from where the subpath started. -/
def trail : Path ℚ where
  minStroke := 1
  transform := .identity
  segments := [⟨⟨0, 0⟩, ⟨3, 0⟩⟩]
  pen := some ⟨3, 0⟩
  start := some ⟨0, 0⟩
  moved := true

/-- A rectangle with a negative width that a quarter turn puts upright. -/
theorem stroke_rectangle_upright :
    let t : Affine ℚ := ⟨0, 2, -3, 0, 5, 7⟩
    let whole := trail.rectangle t 1 2 (-4) (1 / 2)
    t.IsParallel ∧ t.bounds ⟨1, 2, -4, 1 / 2⟩ = ⟨-5 / 2, 1, 3 / 2, 8⟩
      ∧ (∃ four : List (Rule ℚ),
        (whole.stroke 2).1 = trail.segments.map (·.rule 2) ++ four
          ∧ four.Perm (Extent.sides ⟨-5 / 2, 1, 3 / 2, 8⟩ 2))
      ∧ whole.pen = some ⟨-1, 9⟩ ∧ whole.close = whole := by
  intro t whole
  have hparallel : t.IsParallel := .inr ⟨rfl, rfl⟩
  have hbounds : t.bounds ⟨1, 2, -4, 1 / 2⟩ = ⟨-5 / 2, 1, 3 / 2, 8⟩ := by decide +kernel
  have hcorner : t.apply 1 2 = ⟨-1, 9⟩ := by decide +kernel
  have hstroke : Scalar.greater 2 trail.minStroke = 2 := by decide +kernel
  obtain ⟨hrules, hpen, hclose, -, -⟩ := stroke_rectangle trail hparallel 1 2 (-4) (1 / 2) 2
    (by rw [hbounds]; norm_num) (by rw [hbounds]; norm_num)
  rw [hstroke, hbounds] at hrules
  rw [hcorner] at hpen
  exact ⟨hparallel, hbounds, hrules, hpen, hclose⟩

end Path

end Folio
