import Folio.Geometry.Page
import Folio.Proofs.Geometry.Bounds

/-!
# The crop box on its page

A frame puts the crop box of its page onto the rectangle of the page, without stretching it, and
with the corner at the origin that is on the upper left once the page has been turned clockwise
(`frame_of_whole`). Coordinates are exact, and the rotation is any whole number of degrees.

The rotations differ in nothing but the place of the turned crop box and in its corner
(`turned_mem_points`): the map of a frame sends a point to how far the turned point is to the right
of that corner and below it (`apply_transform`), which is all that the rest relies on.
-/

namespace Folio

namespace Point

/-- A quarter turn clockwise about the origin; heights go up. -/
def quarterTurn (p : Point ℚ) : Point ℚ := ⟨p.y, -p.x⟩

/-- The square of the distance of two points. -/
def squaredDistance (p q : Point ℚ) : ℚ := (p.x - q.x) ^ 2 + (p.y - q.y) ^ 2

/-- The point is one of the set, and no other is to the left of it or above it. -/
def IsTopLeft (s : Set (Point ℚ)) (p : Point ℚ) : Prop := p ∈ s ∧ ∀ q ∈ s, p.x ≤ q.x ∧ q.y ≤ p.y

theorem eq_of_coordinates {p q : Point ℚ} (hx : p.x = q.x) (hy : p.y = q.y) : p = q := by
  cases p
  cases q
  exact (mk.injEq ..).mpr ⟨hx, hy⟩

theorem IsTopLeft.unique {s : Set (Point ℚ)} {p q : Point ℚ} (hp : IsTopLeft s p)
    (hq : IsTopLeft s q) : p = q := by
  obtain ⟨hpx, hpy⟩ := hp.2 q hq.1
  obtain ⟨hqx, hqy⟩ := hq.2 p hp.1
  exact eq_of_coordinates (le_antisymm hpx hqx) (le_antisymm hqy hpy)

theorem squaredDistance_quarterTurn (p q : Point ℚ) :
    squaredDistance p.quarterTurn q.quarterTurn = squaredDistance p q := by
  simp only [squaredDistance, quarterTurn]
  ring

theorem quarterTurn_surjective : Function.Surjective quarterTurn :=
  fun p => ⟨⟨-p.y, p.x⟩, by rw [quarterTurn, neg_neg]⟩

end Point

namespace Rotation

/-- A point once the page has been turned, clockwise about the origin. -/
def turned (r : Rotation) : Point ℚ → Point ℚ := Point.quarterTurn^[r.degrees / 90]

@[simp] theorem turned_none (p : Point ℚ) : none.turned p = p := rfl

@[simp] theorem turned_quarter (p : Point ℚ) : quarter.turned p = ⟨p.y, -p.x⟩ := rfl

@[simp] theorem turned_half (p : Point ℚ) : half.turned p = ⟨-p.x, -p.y⟩ := rfl

@[simp] theorem turned_threeQuarters (p : Point ℚ) : threeQuarters.turned p = ⟨-p.y, - -p.x⟩ := rfl

theorem squaredDistance_turned (r : Rotation) (p q : Point ℚ) :
    Point.squaredDistance (r.turned p) (r.turned q) = Point.squaredDistance p q := by
  unfold turned
  induction r.degrees / 90 with
  | zero => rfl
  | succ n ih =>
    rw [Function.iterate_succ_apply', Function.iterate_succ_apply',
      Point.squaredDistance_quarterTurn, ih]

theorem turned_surjective (r : Rotation) : Function.Surjective r.turned :=
  Point.quarterTurn_surjective.iterate _

/-- The angles that are quarter turns are the multiples of ninety degrees. -/
theorem ofDegrees?_eq (n : Int) :
    (∃ r, ofDegrees? n = some r ∧ 90 ∣ n ∧ (r.degrees : Int) = n % 360)
      ∨ ofDegrees? n = Option.none ∧ ¬ 90 ∣ n := by
  have hmod : n.fmod 360 = n % 360 := Int.fmod_eq_emod_of_nonneg n (by decide)
  rw [ofDegrees?, hmod]
  split
  next h => exact .inl ⟨none, rfl, by omega, h.symm⟩
  next h => exact .inl ⟨quarter, rfl, by omega, h.symm⟩
  next h => exact .inl ⟨half, rfl, by omega, h.symm⟩
  next h => exact .inl ⟨threeQuarters, rfl, by omega, h.symm⟩
  next h₀ h₁ h₂ h₃ =>
    refine .inr ⟨rfl, fun hdvd => ?_⟩
    have hquarters : n % 360 = 0 ∨ n % 360 = 90 ∨ n % 360 = 180 ∨ n % 360 = 270 := by omega
    rcases hquarters with h | h | h | h
    exacts [h₀ h, h₁ h, h₂ h, h₃ h]

theorem rotation_whole {α : Type} [Scalar α] (n : Int) :
    ∃ r warning, (Angle.whole (α := α) n).rotation = .ok (r, warning)
      ∧ (r.degrees : Int) = if 90 ∣ n then n % 360 else 0 := by
  rw [Angle.rotation, Angle.degrees, Except.map]
  obtain ⟨r, hr, hdvd, hdegrees⟩ | ⟨hnone, hdvd⟩ := ofDegrees?_eq n
  · rw [hr, if_pos hdvd]
    exact ⟨r, _, rfl, hdegrees⟩
  · rw [hnone, if_neg hdvd]
    exact ⟨none, _, rfl, rfl⟩

end Rotation

namespace CropBox

/-- The points of the crop box, its sides included. -/
def points (crop : CropBox ℚ) : Set (Point ℚ) :=
  {p | (crop.left ≤ p.x ∧ p.x ≤ crop.left + crop.width)
    ∧ crop.bottom ≤ p.y ∧ p.y ≤ crop.bottom + crop.height}

/-- The corner that is on the upper left once the page has been turned. -/
def corner (crop : CropBox ℚ) : Rotation → Point ℚ
  | .none => ⟨crop.left, crop.bottom + crop.height⟩
  | .quarter => ⟨crop.left, crop.bottom⟩
  | .half => ⟨crop.left + crop.width, crop.bottom⟩
  | .threeQuarters => ⟨crop.left + crop.width, crop.bottom + crop.height⟩

/-- The width and the height of the crop box once the page has been turned. -/
def size (crop : CropBox ℚ) (r : Rotation) : ℚ × ℚ :=
  if r.swapsAxes then (crop.height, crop.width) else (crop.width, crop.height)

variable (crop : CropBox ℚ) (r : Rotation)

/-- The turned crop box is the rectangle of its size below and to the right of its corner. -/
theorem turned_mem_points (p : Point ℚ) :
    p ∈ crop.points
      ↔ ((r.turned (crop.corner r)).x ≤ (r.turned p).x
          ∧ (r.turned p).x ≤ (r.turned (crop.corner r)).x + (crop.size r).1)
        ∧ (r.turned (crop.corner r)).y - (crop.size r).2 ≤ (r.turned p).y
          ∧ (r.turned p).y ≤ (r.turned (crop.corner r)).y := by
  have hpoints : p ∈ crop.points ↔ (crop.left ≤ p.x ∧ p.x ≤ crop.left + crop.width)
      ∧ crop.bottom ≤ p.y ∧ p.y ≤ crop.bottom + crop.height := Iff.rfl
  rw [hpoints]
  -- A turn exchanges the sides and changes signs, so that the comparisons are the same four.
  cases r <;> simp only [corner, size, Rotation.swapsAxes, Rotation.turned_none,
    Rotation.turned_quarter, Rotation.turned_half, Rotation.turned_threeQuarters, if_true,
    Bool.false_eq_true, if_false]
  all_goals
    constructor
    · rintro ⟨⟨hleft, hright⟩, hbottom, htop⟩
      refine ⟨⟨?_, ?_⟩, ?_, ?_⟩ <;> linarith
    · rintro ⟨⟨hleft, hright⟩, hbottom, htop⟩
      refine ⟨⟨?_, ?_⟩, ?_, ?_⟩ <;> linarith

variable {crop}

theorem size_nonneg (hwidth : 0 ≤ crop.width) (hheight : 0 ≤ crop.height) :
    0 ≤ (crop.size r).1 ∧ 0 ≤ (crop.size r).2 := by
  unfold size
  split
  · exact ⟨hheight, hwidth⟩
  · exact ⟨hwidth, hheight⟩

theorem isTopLeft_corner (hwidth : 0 ≤ crop.width) (hheight : 0 ≤ crop.height) :
    Point.IsTopLeft (r.turned '' crop.points) (r.turned (crop.corner r)) := by
  obtain ⟨hx, hy⟩ := size_nonneg r hwidth hheight
  refine ⟨⟨crop.corner r, ?_, rfl⟩, ?_⟩
  · exact (turned_mem_points crop r _).mpr
      ⟨⟨le_rfl, le_add_of_nonneg_right hx⟩, sub_le_self _ hy, le_rfl⟩
  · rintro _ ⟨p, hp, rfl⟩
    obtain ⟨⟨hleft, -⟩, -, htop⟩ := (turned_mem_points crop r p).mp hp
    exact ⟨hleft, htop⟩

end CropBox

namespace Page

variable (crop : CropBox ℚ) (r : Rotation)

theorem apply_transform (p : Point ℚ) :
    (transform crop r).apply p.x p.y
      = ⟨(r.turned p).x - (r.turned (crop.corner r)).x,
        (r.turned (crop.corner r)).y - (r.turned p).y⟩ := by
  simp only [transform, Affine.translate, Affine.scale, Affine.turn, Affine.apply_concatenate]
  cases r <;> simp only [Affine.identity, Affine.concatenate, Affine.apply, CropBox.corner,
    Rotation.direction, Rotation.turned_none, Rotation.turned_quarter, Rotation.turned_half,
    Rotation.turned_threeQuarters, Point.mk.injEq] <;> constructor <;> ring

theorem image_transform :
    (transform crop r).image crop.points
      = Extent.points ⟨0, 0, (crop.size r).1, (crop.size r).2⟩ := by
  apply Set.Subset.antisymm
  · rintro _ ⟨p, hp, rfl⟩
    obtain ⟨⟨hleft, hright⟩, hbottom, htop⟩ := (crop.turned_mem_points r p).mp hp
    show (transform crop r).apply p.x p.y ∈ _
    rw [apply_transform]
    refine ⟨⟨?_, ?_⟩, ?_, ?_⟩ <;> dsimp only <;> linarith
  · rintro q ⟨⟨hleft, hright⟩, htop, hbottom⟩
    obtain ⟨p, hp⟩ := r.turned_surjective
      ⟨(r.turned (crop.corner r)).x + q.x, (r.turned (crop.corner r)).y - q.y⟩
    refine ⟨p, (crop.turned_mem_points r p).mpr ?_, ?_⟩
    · rw [hp]
      refine ⟨⟨?_, ?_⟩, ?_, ?_⟩ <;> dsimp only at * <;> linarith
    -- The map counts downwards from the corner what the turned page counts upwards.
    · show (transform crop r).apply p.x p.y = q
      rw [apply_transform, hp, add_sub_cancel_left, sub_sub_cancel]

theorem squaredDistance_transform (p q : Point ℚ) :
    Point.squaredDistance ((transform crop r).apply p.x p.y) ((transform crop r).apply q.x q.y)
      = Point.squaredDistance p q := by
  rw [← r.squaredDistance_turned p q, apply_transform, apply_transform]
  simp only [Point.squaredDistance]
  ring

variable {crop} in
theorem isTopLeft_iff_origin (hwidth : 0 ≤ crop.width) (hheight : 0 ≤ crop.height) (p : Point ℚ) :
    Point.IsTopLeft (r.turned '' crop.points) (r.turned p)
      ↔ (transform crop r).apply p.x p.y = ⟨0, 0⟩ := by
  -- Both say that the turned point is the turned corner.
  have hcorner := CropBox.isTopLeft_corner r hwidth hheight
  rw [apply_transform, Point.mk.injEq, sub_eq_zero, sub_eq_zero]
  constructor
  · intro hp
    rw [hp.unique hcorner]
    exact ⟨rfl, rfl⟩
  · rintro ⟨hx, hy⟩
    have hp : r.turned p = r.turned (crop.corner r) := Point.eq_of_coordinates hx hy.symm
    rw [hp]
    exact hcorner

theorem frame_eq (number : Int) :
    frame number (some crop) r
      = ⟨number, some crop, r, transform crop r, some (crop.size r).1, some (crop.size r).2⟩ := by
  rw [frame, CropBox.size]

/-- A page's frame keeps all distances, puts the crop box onto the rectangle of the page, and puts
the corner at the origin that is on the upper left once the page has been turned by the rotation
that the frame tells. -/
theorem frame_of_whole {crop : CropBox ℚ} (hwidth : 0 ≤ crop.width) (hheight : 0 ≤ crop.height)
    (degrees number : Int) :
    ∃ (page : Frame ℚ) (warning : Option Text) (width height : ℚ),
      (Angle.whole (α := ℚ) degrees).rotation = .ok (page.rotation, warning)
      ∧ (page.rotation.degrees : Int) = (if 90 ∣ degrees then degrees % 360 else 0)
      ∧ frame number (some crop) page.rotation = page
      ∧ page.width = some width ∧ page.height = some height
      ∧ (∀ p q : Point ℚ, Point.squaredDistance (page.transform.apply p.x p.y)
          (page.transform.apply q.x q.y) = Point.squaredDistance p q)
      ∧ page.transform.image crop.points = Extent.points ⟨0, 0, width, height⟩
      ∧ ∀ p : Point ℚ,
        Point.IsTopLeft (page.rotation.turned '' crop.points) (page.rotation.turned p)
          ↔ page.transform.apply p.x p.y = ⟨0, 0⟩ := by
  obtain ⟨r, warning, hrotation, hdegrees⟩ := Rotation.rotation_whole (α := ℚ) degrees
  refine ⟨⟨number, some crop, r, transform crop r, some (crop.size r).1, some (crop.size r).2⟩,
    warning, (crop.size r).1, (crop.size r).2, hrotation, hdegrees, frame_eq crop r number, rfl,
    rfl, ?_, ?_, ?_⟩
  · exact squaredDistance_transform crop r
  · exact image_transform crop r
  · exact isTopLeft_iff_origin r hwidth hheight

/-- A crop box off the origin that is wider than it is high. -/
def wide : CropBox ℚ := ⟨10, 20, 100, 50⟩

/-- A quarter turn back makes it a high one, with its upper right corner on the upper left. -/
theorem frame_of_whole_wide :
    0 ≤ wide.width ∧ 0 ≤ wide.height
      ∧ ∃ page : Frame ℚ, frame 1 (some wide) .threeQuarters = page
        ∧ (Angle.whole (α := ℚ) (-90)).rotation = .ok (page.rotation, none)
        ∧ page.transform.image wide.points = Extent.points ⟨0, 0, 50, 100⟩
        ∧ page.transform.apply 110 70 = ⟨0, 0⟩ := by
  have hwidth : 0 ≤ wide.width := by norm_num [wide]
  have hheight : 0 ≤ wide.height := by norm_num [wide]
  have hrotation : (Angle.whole (α := ℚ) (-90)).rotation = .ok (.threeQuarters, none) := rfl
  obtain ⟨page, warning, width, height, hpage, -, hframe, hsize, hsize', -, himage, horigin⟩ :=
    frame_of_whole hwidth hheight (-90) 1
  obtain ⟨hturned, rfl⟩ := Prod.mk.inj (Except.ok.inj (hrotation.symm.trans hpage))
  rw [← hturned] at hframe horigin
  subst hframe
  obtain rfl : 50 = width := Option.some.inj hsize
  obtain rfl : 100 = height := Option.some.inj hsize'
  have hcorner : wide.corner .threeQuarters = ⟨110, 70⟩ := by
    norm_num [wide, CropBox.corner]
  have htop := CropBox.isTopLeft_corner .threeQuarters hwidth hheight
  rw [hcorner] at htop
  exact ⟨hwidth, hheight, _, rfl, hrotation, himage, (horigin ⟨110, 70⟩).mp htop⟩

end Page

end Folio
