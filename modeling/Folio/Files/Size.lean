import Folio.Scalar

/-!
# Sizes for readers

A number of bytes in the largest unit of which there is at least one, with one decimal.
-/

namespace Folio.FileSize

variable {α : Type} [Scalar α]

/-- The units below the largest, each 1024 times the one before. -/
def units : List String := ["B", "KB", "MB", "GB", "TB"]

/-- The size in the first of the units of which it is less than 1024, or else in the largest. -/
def inUnits (size : α) : List String → Text
  | [] => Decimal.fixed 1 (Scalar.exact size) ++ Text.lit " PB"
  | unit :: rest =>
    if size < Scalar.ofNat 1024 then
      Decimal.fixed 1 (Scalar.exact size) ++ Text.lit " " ++ Text.lit unit
    else inUnits (size / Scalar.ofNat 1024) rest

def text (size : α) : Text := inUnits size units

end Folio.FileSize
