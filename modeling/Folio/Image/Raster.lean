import Folio.Bytes
import Folio.Fault

/-!
# Rasters

A decoded picture with the means to write it out. What a codec can do is known only by asking it:
an `Encoder` answers for each change of mode and each format and set of settings.
-/

namespace Folio

/-- Settings for writing a raster. -/
structure SaveSettings where
  /-- Dots per unit, across and down. -/
  resolution : Option (Nat × Nat) := none
  /-- In percent. -/
  quality : Option Nat := none
  optimize : Bool := false
  compressLevel : Option Nat := none
  deriving DecidableEq, Repr

namespace SaveSettings

def plain : SaveSettings := {}

end SaveSettings

/-- What a codec can do with one raster. -/
structure Encoder where
  /-- Changes the mode: from the first to the second. -/
  convert : Text → Text → Except Fault Unit
  /-- Writes in a format, given the mode and the settings. -/
  save : (format mode : Text) → SaveSettings → Except Fault Bytes

/-- A decoded picture. -/
structure Raster where
  mode : Text
  width : Int
  height : Int
  /-- The format the document holds it in. -/
  format : Option Text
  bitsPerPixel : Int
  name : Option Text
  encoder : Encoder

/-- What a picture's data turn out to be when they are decoded. -/
inductive Decoded
  /-- A raster. -/
  | raster (raster : Raster)
  /-- Nothing at all. -/
  | nothing
  /-- The decoder gave up. -/
  | failed (cause : Fault)

namespace Raster

/-- The size in bytes before compression. -/
def estimatedSize (raster : Raster) : Int :=
  (raster.width * raster.height * raster.bitsPerPixel).fdiv 8

/-- What the raster is called in messages. -/
def title (raster : Raster) : Text :=
  match raster.name with
  | none | some [] => Text.lit "<inline>"
  | some name => name

/-- The format, if a name is given for it. -/
def format? (raster : Raster) : Option Text :=
  match raster.format with
  | none | some [] => none
  | some format => some format

/-- The bits that a pixel of a mode takes, 24 for modes not listed. -/
def bitsOfMode (mode : Text) : Int :=
  let is (s : String) : Bool := mode = Text.lit s
  if is "1" then 1
  else if is "L" || is "P" then 8
  else if is "LA" || is "I;16" then 16
  else if is "RGBA" || is "CMYK" || is "I" || is "F" then 32
  else 24

end Raster

end Folio
