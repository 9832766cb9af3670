import Folio.Geometry.Affine

/-!
# Page frames

Documents measure from the lower left corner of a page, HTML from the upper left one. A
`Page.Frame` holds the map between the two for one page, which also turns the page by its
rotation and moves the corner of the crop box to the origin.
-/

namespace Folio

/-- The visible region of a page in user space, from its lower left corner. -/
structure CropBox (α : Type) where
  left : α
  bottom : α
  width : α
  height : α
  deriving DecidableEq, Repr

/-- The quarter turns a page may be shown with, clockwise. -/
inductive Rotation
  | none
  | quarter
  | half
  | threeQuarters
  deriving DecidableEq, Repr

namespace Rotation

def degrees : Rotation → Nat
  | none => 0
  | quarter => 90
  | half => 180
  | threeQuarters => 270

/-- The rotation of that many degrees, whole turns left out. -/
def ofDegrees? (n : Int) : Option Rotation :=
  match n.fmod 360 with
  | 0 => some none
  | 90 => some quarter
  | 180 => some half
  | 270 => some threeQuarters
  | _ => Option.none

/-- Whether the turn puts the page on its side. -/
def swapsAxes : Rotation → Bool
  | quarter | threeQuarters => true
  | none | half => false

/-- The cosine and the sine of the turn. -/
def direction {α : Type} [Scalar α] : Rotation → α × α
  | none => (1, 0)
  | quarter => (0, 1)
  | half => (-1, 0)
  | threeQuarters => (0, -1)

end Rotation

/-- A page's rotation as a document states it, in degrees. -/
inductive Angle (α : Type)
  | whole (degrees : Int)
  | real (degrees : α)
  /-- A text that should write a whole number. -/
  | text (degrees : Text)
  /-- Something else, by what its kind is called. -/
  | other (kind : Text)

namespace Angle

variable {α : Type} [Scalar α]

/-- The angle as it is written. -/
def shown : Angle α → Text
  | whole n => Text.ofInt n
  | real x => Scalar.text x
  | text t => t
  | other kind => kind

/-- So much of a text that writes no whole number is quoted. -/
def quotationLimit : Nat := 200

/-- The complaint about a text that writes no whole number. -/
def complaint (t : Text) : Decimal.Numeral.NotWhole → Text
  | .malformed =>
    Text.lit "invalid literal for int() with base 10: " ++ (Text.quoted t).take quotationLimit
  | .tooLong digits => Text.join [
    Text.lit "Exceeds the limit (", Text.ofNat Decimal.Numeral.digitLimit,
    Text.lit " digits) for integer string conversion: value has ", Text.ofNat digits,
    Text.lit " digits; use sys.set_int_max_str_digits() to increase the limit"]

/-- The whole degrees of the angle; an angle that is no finite number has none. -/
def degrees : Angle α → Except Fault Int
  | whole n => .ok n
  | real x => Scalar.truncate x
  | text t =>
    match Decimal.Numeral.whole t with
    | .ok n => .ok n
    | .error e => .error (.badValue (complaint t e))
  | other kind => .error (.wrongKind (Text.join [
    Text.lit "int() argument must be a string, a bytes-like object or a real number, not \x27",
    kind, Text.lit "\x27"]))

/-- The rotation that the angle asks for, and the warning when it is no quarter turn and counts as
none. -/
def rotation (angle : Angle α) : Except Fault (Rotation × Option Text) :=
  angle.degrees.map fun n =>
    match Rotation.ofDegrees? n with
    | some r => (r, none)
    | none =>
      (.none, some (Text.lit "Unsupported page rotation " ++ angle.shown
        ++ Text.lit ", treating as 0"))

end Angle

namespace Page

/-- The geometry of one page while it is laid out. -/
structure Frame (α : Type) where
  number : Int
  crop : Option (CropBox α)
  rotation : Rotation
  transform : Affine α
  width : Option α
  height : Option α

variable {α : Type} [Scalar α]

/-- The map from user space to the page. -/
def transform (crop : CropBox α) (rotation : Rotation) : Affine α :=
  let moved : Affine α :=
    match rotation with
    | .none => .identity
    | .quarter => Affine.identity.translate crop.height 0
    | .half => Affine.identity.translate crop.width crop.height
    | .threeQuarters => Affine.identity.translate 0 crop.width
  let direction := rotation.direction (α := α)
  (((moved.turn direction.1 direction.2).translate 0 crop.height).scale 1 (-1)).translate
    (-crop.left) (-crop.bottom)

/-- The frame of a page; without a crop box it is untransformed and has no size. -/
def frame (number : Int) (crop : Option (CropBox α)) (rotation : Rotation) : Frame α :=
  match crop with
  | none => ⟨number, none, rotation, .identity, none, none⟩
  | some box =>
    let (width, height) :=
      if rotation.swapsAxes then (box.height, box.width) else (box.width, box.height)
    ⟨number, some box, rotation, transform box rotation, some width, some height⟩

end Page

end Folio
