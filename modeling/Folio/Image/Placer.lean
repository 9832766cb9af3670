import Folio.Box
import Folio.Files
import Folio.Image.Encoding
import Folio.Options

/-!
# Placing pictures

A picture fills the unit square of the user space in which it is drawn, first row at the top.
`place` finds its extent on the page, encodes it and gives it an address: the data itself, or the
name of a file that is written to the image directory. Every file gets a new number, which a write
that fails uses up as well.
-/

namespace Folio

/-- The pictures written so far. -/
structure Placer where
  index : Nat := 0
  files : FileTree := {}
  log : Log := []

namespace Placer

def report (log : Log) : Act Placer Unit := modify fun p => { p with log := p.log ++ log }

variable {α : Type} [Scalar α]

/-- The extent on the page of a picture of `width` by `height` pixels. -/
def extent (page user : Affine α) (width height : α) : Except Fault (Extent α) :=
  if width == 0 || height == 0 then .error .divisionByZero
  else
    let device := ((page.concatenate user).scale (1 / width) (-1 / height)).translate 0 (-height)
    .ok (device.bounds ⟨0, 0, width, height⟩)

/-- The image directory, if one has been chosen. -/
def directory (options : Options α) : Except Fault FilePath :=
  match options.imageDir with
  | none =>
    .error (.wrongKind (Text.lit "expected str, bytes or os.PathLike object, not NoneType"))
  | some dir => .ok dir

/-- The name of the file with that number. -/
def fileName (options : Options α) (index : Nat) (image : EncodedImage) : Text := Text.join [
  options.context, Text.lit "-", Text.ofNat index, Text.lit ".", image.fileEnding]

/-- The address of a file in the page. -/
def address (options : Options α) (name : Text) : Text :=
  Text.trimEndWhile (· = CodePoint.ofChar '/') options.imagePrefix ++ Text.lit "/" ++ name

/-- Writes a picture to a file of its own and gives its address. -/
def store (options : Options α) (image : EncodedImage) : Act Placer Text := do
  let directory ← Act.ofExcept (directory options)
  let files ← Act.ofExcept ((← get).files.makeDirectories directory)
  modify fun p => { p with files := files }
  let index := (← get).index
  let name := fileName options index image
  modify fun p => { p with index := index + 1 }
  let files ← Act.ofExcept ((← get).files.writeFile (directory.join name) image.data)
  modify fun p => { p with files := files }
  return address options name

/-- The address of an encoded picture. -/
def emit (options : Options α) (image : EncodedImage) : Act Placer Text := do
  if ← Act.ofExcept options.emission.wantsFiles then store options image
  else return image.dataAddress

/-- Encodes a picture and finds its place; one without a format or without pixels is skipped with a
warning. -/
def place (options : Options α) (raster : Raster) (page user : Affine α) :
    Act Placer (Option (Picture α)) := do
  if raster.format?.isNone then
    report (Log.warning (Text.join [
      Text.lit "Skipping image ", raster.title, Text.lit " without a native format"]))
    return none
  if raster.width ≤ 0 ∨ raster.height ≤ 0 then
    report (Log.warning (Text.join [
      Text.lit "Skipping image ", raster.title, Text.lit " with empty size"]))
    return none
  let width ← Act.ofExcept (Scalar.ofWhole raster.width)
  let height ← Act.ofExcept (Scalar.ofWhole raster.height)
  let extent ← Act.ofExcept (extent page user width height)
  let (answer, log) := ImageEncoding.encode raster
  report log
  let source ← emit options (← Act.ofExcept answer)
  return some ⟨source, extent⟩

end Placer

end Folio
