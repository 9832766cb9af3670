import Folio.Image.Raster

/-!
# Proxy rasters

A raster of which only the description is at hand. Writing one gives a line that names the format,
the mode, the size and the settings, in place of the pixels. A proxy may refuse modes and formats:
a format followed by `+` is refused with settings only, followed by `-` without them only.
-/

namespace Folio

/-- A raster's size and what its codec refuses. -/
structure ProxyRaster where
  width : Int
  height : Int
  refusedFormats : List Text := []
  refusedModes : List Text := []

namespace ProxyRaster

/-- The settings, each in front of a blank, in the order of their names. -/
def settingsText (s : SaveSettings) : Text :=
  let level := s.compressLevel.map fun n => Text.lit " compress_level=" ++ Text.ofNat n
  let resolution := s.resolution.map fun (x, y) =>
    Text.lit " dpi=(" ++ Text.ofNat x ++ Text.lit ", " ++ Text.ofNat y ++ Text.lit ")"
  let optimize := if s.optimize then some (Text.lit " optimize=True") else none
  let quality := s.quality.map fun n => Text.lit " quality=" ++ Text.ofNat n
  Text.join ([level, resolution, optimize, quality].filterMap id)

/-- Whether the proxy refuses to be written in that format. -/
def refuses (proxy : ProxyRaster) (format : Text) (settings : SaveSettings) : Bool :=
  let mark := Text.lit (if settings = .plain then "-" else "+")
  proxy.refusedFormats.contains format || proxy.refusedFormats.contains (format ++ mark)

/-- The line that stands for the raster. -/
def line (proxy : ProxyRaster) (format mode : Text) (settings : SaveSettings) : Text :=
  Text.join [format, Text.lit " ", mode, Text.lit " ", Text.ofInt proxy.width, Text.lit "x",
    Text.ofInt proxy.height, settingsText settings]

/-- The codec of the proxy. -/
def encoder (proxy : ProxyRaster) : Encoder where
  convert source target :=
    if proxy.refusedModes.contains target then
      .error (.badValue (Text.join [Text.lit "conversion from ", source, Text.lit " to ", target,
        Text.lit " not supported"]))
    else .ok ()
  save format mode settings :=
    if proxy.refuses format settings then .error (.device (Text.lit "cannot write " ++ format))
    else
      let line := proxy.line format mode settings
      match line.utf8? with
      | some bytes => .ok bytes
      | none => .error (.unencodable line)

end ProxyRaster

end Folio
