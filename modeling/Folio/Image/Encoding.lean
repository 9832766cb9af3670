import Folio.Decimal.Exact
import Folio.Image.Raster
import Folio.Log
import Folio.Text.Case

/-!
# Encoding pictures

A raster is written in its own format, a large one compressed. A compressed write that fails is
followed by a plain one, and a plain one that fails by a plain PNG; every failure that another
attempt follows is worth a warning. `encode` fails only when no attempt is left.
-/

namespace Folio

/-- An encoded picture. -/
structure EncodedImage where
  data : Bytes
  format : Text
  /-- In percent; present for compressed writes. -/
  quality : Option Nat
  compressed : Bool
  deriving DecidableEq

namespace EncodedImage

/-- The ending of a file of that format. -/
def fileEnding (image : EncodedImage) : Text :=
  if image.format = Text.lit "jpeg" then Text.lit "jpg"
  else if image.format = Text.lit "tiff" then Text.lit "tif"
  else image.format

def mediaType (image : EncodedImage) : Text := Text.lit "image/" ++ image.format

/-- The picture as an address that holds it. -/
def dataAddress (image : EncodedImage) : Text :=
  Text.lit "data:" ++ image.mediaType ++ Text.lit ";base64," ++ Bytes.base64 image.data

end EncodedImage

namespace ImageEncoding

/-- Bytes in a mebibyte. -/
def mebibyte : Int := 1048576

/-- The quality for a raster of that many bytes, in percent: the larger, the lower. -/
def quality (size : Exact) : Nat :=
  if size.exceeds (5 * mebibyte) then 10
  else if size.exceeds (2 * mebibyte) then 20
  else if size.exceeds mebibyte then 40
  else if size.isAtMost 65536 then 90
  else 50

/-- Whether a raster of that many bytes is compressed. -/
def isLarge (size : Exact) : Bool := size.exceeds mebibyte

/-- The mode in which a format takes a raster. -/
def modeFor (format mode : Text) : Text :=
  let isOneOf (words : List String) : Bool := words.any fun s => mode = Text.lit s
  if format = Text.lit "jpeg" then
    if isOneOf ["RGB", "L", "CMYK"] then mode else Text.lit "RGB"
  else if format = Text.lit "png" then
    if isOneOf ["CMYK", "YCbCr", "LAB"] then Text.lit "RGB"
    else if isOneOf ["F"] then Text.lit "L"
    else mode
  else mode

/-- Writes the raster in a format, in a mode the format takes. -/
def write (raster : Raster) (format : Text) (settings : SaveSettings) : Except Fault Bytes := do
  let mode := modeFor format raster.mode
  if mode != raster.mode then raster.encoder.convert raster.mode mode
  raster.encoder.save (Text.upper format) mode settings

/-- The settings of a compressed write. -/
def compressedSettings (format : Text) (quality : Nat) : SaveSettings :=
  if format = Text.lit "jpeg" then
    { resolution := some (300, 300), quality := some (max 1 quality), optimize := true }
  else if format = Text.lit "png" then
    { resolution := some (300, 300), optimize := true, compressLevel := some 9 }
  else { resolution := some (300, 300) }

/-- The name of a format in the spelling used here. -/
def normalFormat (format : Text) : Text :=
  let lower := Text.lower format
  if lower = Text.lit "jpg" then Text.lit "jpeg" else lower

/-- One way of writing a raster, with the warning for the case that it fails and another one
follows. -/
structure Attempt where
  format : Text
  /-- In percent, for a compressed write. -/
  quality : Option Nat
  warning : Text

/-- The attempts that apply to a raster, in order. -/
def attempts (raster : Raster) (format : Text) : List Attempt :=
  let size := Exact.ofInt raster.estimatedSize
  let png := Text.lit "png"
  let compressed :=
    if isLarge size then
      [⟨format, some (quality size), Text.lit "Image compression failed, writing uncompressed: "⟩]
    else []
  let native : Attempt :=
    ⟨format, none,
      Text.lit "Native " ++ format ++ Text.lit " write failed, falling back to PNG: "⟩
  compressed ++ [native] ++ (if format = png then [] else [⟨png, none, []⟩])

def Attempt.run (attempt : Attempt) (raster : Raster) : Except Fault EncodedImage := do
  let settings :=
    match attempt.quality with
    | some quality => compressedSettings attempt.format quality
    | none => .plain
  let data ← write raster attempt.format settings
  return ⟨data, attempt.format, attempt.quality, attempt.quality.isSome⟩

/-- The answer of the first attempt that succeeds. -/
def firstSuccess (raster : Raster) : List Attempt → Except Fault EncodedImage × Log
  | [] => (.error (.ofProblem .imageEncoding []), [])
  | attempt :: rest =>
    match attempt.run raster with
    | .ok image => (.ok image, [])
    | .error fault =>
      if rest.isEmpty then
        (.error (.ofProblem .imageEncoding
          (Text.lit "Failed to encode image: " ++ fault.message)), [])
      else
        let (answer, log) := firstSuccess raster rest
        (answer, Log.warning (attempt.warning ++ fault.message) ++ log)

/-- Encodes a raster in its own format, or in PNG where that fails. -/
def encode (raster : Raster) : Except Fault EncodedImage × Log :=
  match raster.format? with
  | none =>
    (.error (.ofProblem .imageEncoding
      (Text.lit "Image " ++ raster.title ++ Text.lit " has no native format")), [])
  | some format => firstSuccess raster (attempts raster (normalFormat format))

end ImageEncoding

end Folio
