import Folio.Image.Placer
import Folio.Proofs.Geometry.Bounds

/-!
# Where pictures go

A picture is put into the smallest extent with the image of the unit square, however many pixels it
has: `extent_isTight`. The extent is computed as the bounds of the rectangle of all pixels, under a
map that takes this rectangle onto the unit square first (`image_pixels`); bounds are tight around
an image, and only one extent is tight around a set. Coordinates are exact.
-/

namespace Folio

namespace Affine

/-- The points of the square that pictures fill in user space. -/
def unitSquare : Set (Point ℚ) := {p | (0 ≤ p.x ∧ p.x ≤ 1) ∧ 0 ≤ p.y ∧ p.y ≤ 1}

variable {width height : ℚ}

/-- The map of a picture's pixels puts its first row at the top of what the unit square goes to. -/
theorem apply_pixels (t : Affine ℚ) (hheight : height ≠ 0) (x y : ℚ) :
    ((t.scale (1 / width) (-1 / height)).translate 0 (-height)).apply x y
      = t.apply (x / width) (1 - y / height) := by
  rw [translate, scale, apply_concatenate, apply_concatenate]
  simp only [apply, Point.mk.injEq]
  constructor <;> (field_simp; ring)

theorem image_pixels (t : Affine ℚ) (hwidth : 0 < width) (hheight : 0 < height) :
    ((t.scale (1 / width) (-1 / height)).translate 0 (-height)).image
        (Extent.points ⟨0, 0, width, height⟩)
      = t.image unitSquare := by
  simp only [image, apply_pixels t hheight.ne']
  apply Set.Subset.antisymm
  · rintro _ ⟨p, ⟨⟨hleft, hright⟩, htop, hbottom⟩, rfl⟩
    rw [zero_add] at hright hbottom
    have hrow : p.y / height ≤ 1 := (div_le_one hheight).mpr hbottom
    have hrow' : 0 ≤ p.y / height := div_nonneg htop hheight.le
    exact ⟨⟨p.x / width, 1 - p.y / height⟩,
      ⟨⟨div_nonneg hleft hwidth.le, (div_le_one hwidth).mpr hright⟩, sub_nonneg.mpr hrow,
        sub_le_self 1 hrow'⟩, rfl⟩
  · rintro _ ⟨p, ⟨⟨hleft, hright⟩, hbottom, htop⟩, rfl⟩
    have hx : p.x * width / width = p.x := mul_div_cancel_right₀ _ hwidth.ne'
    have hy : 1 - (1 - p.y) * height / height = p.y := by
      rw [mul_div_cancel_right₀ _ hheight.ne', sub_sub_cancel]
    have hrow : 0 ≤ 1 - p.y := sub_nonneg.mpr htop
    refine ⟨⟨p.x * width, (1 - p.y) * height⟩, ⟨⟨by positivity, ?_⟩, by positivity, ?_⟩, ?_⟩
    · rw [zero_add]
      exact mul_le_of_le_one_left hwidth.le hright
    · rw [zero_add]
      exact mul_le_of_le_one_left hheight.le (sub_le_self 1 hbottom)
    · simp only [hx, hy]

end Affine

namespace Placer

/-- A picture's place is the smallest extent with the image of the unit square, and it is the same
for every number of pixels. -/
theorem extent_isTight (page user : Affine ℚ) :
    ∃ box : Extent ℚ, box.IsTight (page.image (user.image Affine.unitSquare))
      ∧ ∀ width height : ℚ, 0 < width → 0 < height →
        extent page user width height = .ok box := by
  have htight : ∀ width height : ℚ, 0 < width → 0 < height →
      ∃ box, extent page user width height = .ok box
        ∧ box.IsTight (page.image (user.image Affine.unitSquare)) := by
    intro width height hwidth hheight
    rw [← Affine.image_concatenate, ← Affine.image_pixels _ hwidth hheight]
    refine ⟨_, ?_, Affine.isTight_bounds _ hwidth.le hheight.le⟩
    have hsize : (width == 0 || height == 0) = false := by
      simp [hwidth.ne', hheight.ne']
    rw [extent, hsize]
    rfl
  -- One pixel gives an extent; any other number of them gives one that is tight as well.
  obtain ⟨box, -, hbox⟩ := htight 1 1 one_pos one_pos
  refine ⟨box, hbox, fun width height hwidth hheight => ?_⟩
  obtain ⟨box', hextent, hbox'⟩ := htight width height hwidth hheight
  rw [hextent, hbox.unique hbox']

/-- A picture that is flattened to a line goes to the same place with fifty pixels and with one. -/
theorem extent_isTight_flat :
    let page : Affine ℚ := ⟨1, 0, 0, -1, 0, 200⟩
    let user : Affine ℚ := ⟨2, 1, -4, -2, 20, 30⟩
    let box : Extent ℚ := ⟨16, 169, 6, 3⟩
    user.determinant = 0 ∧ (0 : ℚ) < 10 ∧ (0 : ℚ) < 5
      ∧ box.IsTight (page.image (user.image Affine.unitSquare))
      ∧ extent page user 1 1 = .ok box ∧ extent page user 10 5 = .ok box := by
  intro page user box
  obtain ⟨box', htight, hextent⟩ := extent_isTight page user
  have hone : extent page user 1 1 = .ok box := by decide +kernel
  obtain rfl : box = box' :=
    Except.ok.inj (hone.symm.trans (hextent 1 1 one_pos one_pos))
  exact ⟨by decide +kernel, by norm_num, by norm_num, htight, hone,
    hextent 10 5 (by norm_num) (by norm_num)⟩

end Placer

end Folio
