import Folio.Pdf.Graph

/-!
# Glyph widths

The advance widths of a font's codes, as runs that are read one after the other; where runs overlap
the last one counts. Composite fonts list groups of two shapes: a first code with the widths from
there on, or a first and a last code with the width of all between.
-/

namespace Folio.Pdf

/-- A run of codes with their widths. -/
inductive WidthRun (α : Type)
  /-- One width after the other from a code on. -/
  | each (first : Int) (widths : List α)
  /-- The same width from one code to another. -/
  | span (first last : Int) (width : α)

namespace WidthRun

variable {α : Type} [Scalar α]

/-- The longest span, less one, that is taken in full. -/
def maxSpan : Int := 65536

/-- The width that the run gives a code. -/
def width? (run : WidthRun α) (code : Int) : Option α :=
  match run with
  | each first widths => if first ≤ code then widths[(code - first).toNat]? else none
  | span first last width => if first ≤ code ∧ code ≤ last then some width else none

/-- The width that the last of the runs with the code gives it. -/
def lookup? (runs : List (WidthRun α)) (code : Int) : Option α :=
  runs.foldl (fun found run => (run.width? code).or found) none

/-- The runs of a composite font's groups. A group that is not complete ends the list. -/
def ofGroups (graph : Graph α) : List (Object α) → Except Fault (List (WidthRun α))
  | first :: .array widths :: rest => do
    let first ← graph.whole 0 first
    let widths ← widths.mapM graph.coordinate
    return .each first widths :: (← ofGroups graph rest)
  | first :: last :: width :: rest => do
    let first ← graph.whole 0 first
    let last ← graph.whole 0 last
    let width ← graph.numberOr 0 width
    return .span first (min last (first + maxSpan)) width :: (← ofGroups graph rest)
  | [first, _] => do
    let _ ← graph.whole 0 first
    return []
  | _ => .ok []

/-- The widths of a simple font. -/
def ofSimple (graph : Graph α) (font : Nat) : Except Fault (List (WidthRun α)) :=
  match graph.items? (graph.entry font "/Widths") with
  | none => .ok []
  | some widths => do
    let first ← graph.whole 0 (graph.entry font "/FirstChar")
    return [.each first (← widths.mapM graph.coordinate)]

/-- The widths of a composite font, which its descendant lists. -/
def ofDescendant (graph : Graph α) (descendant : Nat) : Except Fault (List (WidthRun α)) :=
  match graph.items? (graph.entry descendant "/W") with
  | none => .ok []
  | some groups => ofGroups graph (groups.map graph.resolve)

end WidthRun

end Folio.Pdf
