import Folio.Font.Catalog
import Folio.Log

/-!
# The font table

One document's fonts with the family label of each. A font enters once, is given a label no other
entry has, and keeps it; a font that no page can refer to is rejected once, with a warning.
-/

namespace Folio

/-- What the table knows of a font. -/
structure FontEntry where
  family : Text
  bold : Bool
  italic : Bool
  kind : Font.Kind
  deriving DecidableEq, Repr

/-- The fonts of a document. -/
structure FontTable (α : Type) where
  fallback : Text
  entries : List (Font α × FontEntry) := []
  rejected : List Nat := []

namespace FontTable

variable {α : Type}

/-- The number of fonts in the table. -/
def size (table : FontTable α) : Nat := table.entries.length

def unsupportedCount (table : FontTable α) : Nat := table.rejected.length

def labels (table : FontTable α) : List Text := table.entries.map (·.2.family)

def get? (table : FontTable α) (font : Font α) : Option FontEntry :=
  (table.entries.find? fun e => e.1.key == font.key).map (·.2)

/-- Whether the font has an entry. -/
def contains (table : FontTable α) (font : Font α) : Bool := (table.get? font).isSome

/-- A label followed by its number; the first has none. -/
def numbered (label : Text) (n : Nat) : Text :=
  if n = 1 then label else label ++ Text.lit "_" ++ Text.ofNat n

/-- The first numbered form of the label that is not taken. Of one more form than there are labels
taken, one is free. -/
def freeLabel (taken : List Text) (label : Text) : Text :=
  (((List.range (taken.length + 1)).map fun i => numbered label (i + 1)).find?
    fun candidate => !taken.contains candidate).getD label

/-- The warning about a font that no page can refer to. -/
def rejection (font : Font α) : Text :=
  Text.lit "Font not supported, fontName=" ++ font.title ++ Text.lit ", subtype="
    ++ font.subtype.getD (Text.lit "None")

/-- Enters a font, unless it has been entered or rejected before. -/
def add (table : FontTable α) (font : Font α) : FontTable α × Log :=
  if table.contains font || table.rejected.contains font.key then (table, [])
  else if font.kind = .unsupported then
    ({ table with rejected := table.rejected ++ [font.key] }, Log.warning (rejection font))
  else
    let entry : FontEntry :=
      { family := freeLabel table.labels font.label, bold := font.isBold, italic := font.isItalic,
        kind := font.kind }
    ({ table with entries := table.entries ++ [(font, entry)] }, [])

/-- Enters fonts one after the other. -/
def addAll (table : FontTable α) : List (Font α) → FontTable α × Log
  | [] => (table, [])
  | font :: rest =>
    let (table, log) := table.add font
    let (table, more) := table.addAll rest
    (table, log ++ more)

/-- Enters every font that can be reached from the resources, nested forms included. -/
def update (table : FontTable α) (catalog : Catalog α) (index : Nat) : FontTable α × Log :=
  table.addAll (catalog.reachableFonts index)

/-- The look of text drawn with a font: its own label if it has one, else the fallback family. -/
def face (table : FontTable α) (font : Option (Font α)) : Face :=
  { family := ((font.bind table.get?).map (·.family)).getD table.fallback
    bold := (font.map (·.isBold)).getD false
    italic := (font.map (·.isItalic)).getD false }

end FontTable

end Folio
