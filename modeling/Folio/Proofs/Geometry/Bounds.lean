import Folio.Geometry.Affine
import Folio.Proofs.Scalar.Rational

/-!
# Images of rectangles

With exact coordinates, the bounds that a map gives for a rectangle are the smallest extent with its
whole image: they hold the image of every point, and each of their sides is touched by one
(`isTight_bounds`). They are found at the four corners alone because a coordinate of the image is an
affine function of the point: along a segment it lies between its values at the ends
(`le_of_le_ends`), and a rectangle is segments between two segments. An extent that is tight around
a set is determined by the set (`IsTight.unique`).
-/

namespace Folio

namespace Extent

/-- The points of a rectangle, its sides included. -/
def points (r : Extent ℚ) : Set (Point ℚ) :=
  {p | (r.left ≤ p.x ∧ p.x ≤ r.left + r.width) ∧ r.top ≤ p.y ∧ p.y ≤ r.top + r.height}

/-- The corners of a rectangle. -/
def corners (r : Extent ℚ) : Set (Point ℚ) :=
  {⟨r.left, r.top⟩, ⟨r.left + r.width, r.top⟩, ⟨r.left, r.top + r.height⟩,
    ⟨r.left + r.width, r.top + r.height⟩}

theorem corners_subset_points {r : Extent ℚ} (hwidth : 0 ≤ r.width) (hheight : 0 ≤ r.height) :
    r.corners ⊆ r.points := by
  have hright : r.left ≤ r.left + r.width := le_add_of_nonneg_right hwidth
  have hbottom : r.top ≤ r.top + r.height := le_add_of_nonneg_right hheight
  rintro p (rfl | rfl | rfl | rfl)
  · exact ⟨⟨le_rfl, hright⟩, le_rfl, hbottom⟩
  · exact ⟨⟨hright, le_rfl⟩, le_rfl, hbottom⟩
  · exact ⟨⟨le_rfl, hright⟩, hbottom, le_rfl⟩
  · exact ⟨⟨hright, le_rfl⟩, hbottom, le_rfl⟩

/-- The extent has all points of the set, and each of its sides is touched by one. -/
structure IsTight (box : Extent ℚ) (s : Set (Point ℚ)) : Prop where
  contains : s ⊆ box.points
  left : ∃ p ∈ s, p.x = box.left
  right : ∃ p ∈ s, p.x = box.left + box.width
  top : ∃ p ∈ s, p.y = box.top
  bottom : ∃ p ∈ s, p.y = box.top + box.height

/-- No side of an extent that is tight is outside another that has all points. -/
theorem IsTight.subset {box box' : Extent ℚ} {s : Set (Point ℚ)} (h : box.IsTight s)
    (h' : s ⊆ box'.points) :
    (box'.left ≤ box.left ∧ box.left + box.width ≤ box'.left + box'.width)
      ∧ box'.top ≤ box.top ∧ box.top + box.height ≤ box'.top + box'.height := by
  obtain ⟨p, hp, hleft⟩ := h.left
  obtain ⟨q, hq, hright⟩ := h.right
  obtain ⟨u, hu, htop⟩ := h.top
  obtain ⟨v, hv, hbottom⟩ := h.bottom
  rw [← hright, ← hbottom, ← hleft, ← htop]
  exact ⟨⟨(h' hp).1.1, (h' hq).1.2⟩, (h' hu).2.1, (h' hv).2.2⟩

theorem IsTight.unique {box box' : Extent ℚ} {s : Set (Point ℚ)} (h : box.IsTight s)
    (h' : box'.IsTight s) : box = box' := by
  obtain ⟨⟨hleft, hright⟩, htop, hbottom⟩ := h.subset h'.contains
  obtain ⟨⟨hleft', hright'⟩, htop', hbottom'⟩ := h'.subset h.contains
  cases box
  cases box'
  simp only [mk.injEq] at *
  refine ⟨?_, ?_, ?_, ?_⟩ <;> linarith

end Extent

namespace Affine

variable (t s : Affine ℚ)

/-- Where a map sends the points of a set. -/
def image (set : Set (Point ℚ)) : Set (Point ℚ) := (fun p => t.apply p.x p.y) '' set

theorem apply_concatenate (x y : ℚ) :
    (t.concatenate s).apply x y = t.apply (s.apply x y).x (s.apply x y).y := by
  simp only [concatenate, apply, Point.mk.injEq]
  constructor <;> ring

theorem image_concatenate (set : Set (Point ℚ)) :
    (t.concatenate s).image set = t.image (s.image set) := by
  simp only [image, Set.image_image, apply_concatenate]

/-! ## Corners -/

theorem isLeast_least4 (p q u v : ℚ) : IsLeast {p, q, u, v} (least4 p q u v) := by
  simp only [least4, Scalar.lesser_eq_min, min_assoc]
  exact ((isLeast_singleton.insert u).insert q).insert p

theorem isGreatest_greatest4 (p q u v : ℚ) : IsGreatest {p, q, u, v} (greatest4 p q u v) := by
  simp only [greatest4, Scalar.greater_eq_max, max_assoc]
  exact ((isGreatest_singleton.insert u).insert q).insert p

/-- An affine function is nowhere on a segment below both its values at the ends. -/
theorem le_of_le_ends {m k n first length x : ℚ} (hfirst : m ≤ k * first + n)
    (hlast : m ≤ k * (first + length) + n) (hx : first ≤ x ∧ x ≤ first + length) :
    m ≤ k * x + n := by
  rcases le_total 0 k with hk | hk
  · exact hfirst.trans (by gcongr; exact hx.1)
  · have hmul : k * (first + length) ≤ k * x := mul_le_mul_of_nonpos_left hx.2 hk
    linarith

/-- A coordinate of a map's image of a point, by its three coefficients in the map. -/
def coordinate (k l n : ℚ) (p : Point ℚ) : ℚ := k * p.x + l * p.y + n

variable {r : Extent ℚ}

/-- Nor is it on a rectangle below all its values at the corners. -/
theorem le_coordinate_of_le_corners {m k l n : ℚ} (h : ∀ p ∈ r.corners, m ≤ coordinate k l n p)
    {p : Point ℚ} (hp : p ∈ r.points) : m ≤ coordinate k l n p := by
  simp only [Extent.corners, Set.forall_mem_insert, Set.mem_singleton_iff, forall_eq,
    coordinate] at h
  obtain ⟨hp₁, hp₂, hp₃, hp₄⟩ := h
  rw [coordinate]
  -- First along the sides on the left and on the right, then between those two points.
  have hleft : m ≤ l * p.y + (k * r.left + n) :=
    le_of_le_ends (by linarith) (by linarith) hp.2
  have hright : m ≤ l * p.y + (k * (r.left + r.width) + n) :=
    le_of_le_ends (by linarith) (by linarith) hp.2
  have hbetween : m ≤ k * p.x + (l * p.y + n) :=
    le_of_le_ends (by linarith) (by linarith) hp.1
  linarith

theorem coordinate_neg (k l n : ℚ) (p : Point ℚ) :
    coordinate (-k) (-l) (-n) p = -coordinate k l n p := by
  simp only [coordinate]
  ring

theorem coordinate_le_of_corners_le {m k l n : ℚ} (h : ∀ p ∈ r.corners, coordinate k l n p ≤ m)
    {p : Point ℚ} (hp : p ∈ r.points) : coordinate k l n p ≤ m := by
  have hneg : -m ≤ coordinate (-k) (-l) (-n) p := le_coordinate_of_le_corners
    (fun q hq => by rw [coordinate_neg]; exact neg_le_neg (h q hq)) hp
  rw [coordinate_neg] at hneg
  exact neg_le_neg_iff.mp hneg

section

variable (hr : r.corners ⊆ r.points) {k l n m : ℚ}
include hr

theorem isLeast_points (h : IsLeast (coordinate k l n '' r.corners) m) :
    IsLeast (coordinate k l n '' r.points) m := by
  refine ⟨Set.image_mono hr h.1, ?_⟩
  rintro _ ⟨p, hp, rfl⟩
  exact le_coordinate_of_le_corners (fun q hq => h.2 ⟨q, hq, rfl⟩) hp

theorem isGreatest_points (h : IsGreatest (coordinate k l n '' r.corners) m) :
    IsGreatest (coordinate k l n '' r.points) m := by
  refine ⟨Set.image_mono hr h.1, ?_⟩
  rintro _ ⟨p, hp, rfl⟩
  exact coordinate_le_of_corners_le (fun q hq => h.2 ⟨q, hq, rfl⟩) hp

end

variable (r) in
theorem coordinate_corners (k l n : ℚ) :
    coordinate k l n '' r.corners
      = {coordinate k l n ⟨r.left, r.top⟩, coordinate k l n ⟨r.left + r.width, r.top⟩,
        coordinate k l n ⟨r.left, r.top + r.height⟩,
        coordinate k l n ⟨r.left + r.width, r.top + r.height⟩} := by
  simp only [Extent.corners, Set.image_insert_eq, Set.image_singleton]

/-- The bounds of a rectangle are the smallest extent with its image. -/
theorem isTight_bounds (hwidth : 0 ≤ r.width) (hheight : 0 ≤ r.height) :
    (t.bounds r).IsTight (t.image r.points) := by
  have hr := Extent.corners_subset_points hwidth hheight
  have hleft : IsLeast (coordinate t.a t.c t.e '' r.points) (t.bounds r).left :=
    isLeast_points hr (coordinate_corners r .. ▸ isLeast_least4 ..)
  have htop : IsLeast (coordinate t.b t.d t.f '' r.points) (t.bounds r).top :=
    isLeast_points hr (coordinate_corners r .. ▸ isLeast_least4 ..)
  -- The size is what is left of the greatest coordinate behind the least.
  have hright : IsGreatest (coordinate t.a t.c t.e '' r.points)
      ((t.bounds r).left + (t.bounds r).width) :=
    (add_sub_cancel (t.bounds r).left _).symm ▸
      isGreatest_points hr (coordinate_corners r .. ▸ isGreatest_greatest4 ..)
  have hbottom : IsGreatest (coordinate t.b t.d t.f '' r.points)
      ((t.bounds r).top + (t.bounds r).height) :=
    (add_sub_cancel (t.bounds r).top _).symm ▸
      isGreatest_points hr (coordinate_corners r .. ▸ isGreatest_greatest4 ..)
  constructor
  case contains =>
    rintro _ ⟨p, hp, rfl⟩
    exact ⟨⟨hleft.2 ⟨p, hp, rfl⟩, hright.2 ⟨p, hp, rfl⟩⟩, htop.2 ⟨p, hp, rfl⟩,
      hbottom.2 ⟨p, hp, rfl⟩⟩
  case left =>
    obtain ⟨p, hp, hvalue⟩ := hleft.1
    exact ⟨_, ⟨p, hp, rfl⟩, hvalue⟩
  case right =>
    obtain ⟨p, hp, hvalue⟩ := hright.1
    exact ⟨_, ⟨p, hp, rfl⟩, hvalue⟩
  case top =>
    obtain ⟨p, hp, hvalue⟩ := htop.1
    exact ⟨_, ⟨p, hp, rfl⟩, hvalue⟩
  case bottom =>
    obtain ⟨p, hp, hvalue⟩ := hbottom.1
    exact ⟨_, ⟨p, hp, rfl⟩, hvalue⟩

end Affine
end Folio
