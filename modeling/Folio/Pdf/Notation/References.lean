import Folio.Pdf.Graph

/-!
# References to numbered objects

References as documents in JSON have them: each leads to the object of its number. Reading a number
or a text goes on to the end, however many references there are on the way; looking for a string or
for items takes one step.
-/

namespace Folio.Pdf

variable {α : Type} [Scalar α]

/-- The complaint about a value that lacks what is asked of it. -/
def Object.lacking (o : Object α) (part : String) : Text :=
  Text.join [Text.lit "\x27", o.kind, Text.lit "\x27 object has no attribute \x27", Text.lit part,
    Text.lit "\x27"]

namespace References

/-- What a reference leads to in one step, which has to be a value proper. -/
def target (objects : List (Int × Object α)) (n : Int) : Except Fault (Object α) :=
  match objects.lookup n with
  | some (.reference _) => .error .referenceToReference
  | some o => .ok o
  | none => .error (.missingObject n)

/-- What a value stands for after at most `steps` steps. -/
def follow (objects : List (Int × Object α)) : Nat → Object α → Except Fault (Object α)
  | steps, .reference n =>
    match objects.lookup n, steps with
    | none, _ => .error (.missingObject n)
    | some _, 0 => .error .endlessReference
    | some o, steps + 1 => follow objects steps o
  | _, o => .ok o

/-- What a reference leads to in the end. A way longer than the number of objects goes in a
circle. -/
def final (objects : List (Int × Object α)) (n : Int) : Except Fault (Object α) :=
  follow objects objects.length (.reference n)

def shownNumber (n : Int) : Text := Text.lit "IndirectObject(" ++ Text.ofInt n ++ Text.lit ", 0)"

/-- References that lead to the objects of a list. -/
def following (nodes : Array (Node α)) (objects : List (Int × Object α)) : References α where
  number n := do
    match ← final objects n with
    | .truth true => return 1
    | .truth false => return 0
    | .whole n => Scalar.ofWhole n
    | .real x => return x
    | o => throw (.referenceToOther (o.lacking "__float__"))
  text n := (final objects n).map (Node.text nodes shownNumber)
  source n := (target objects n).map fun
    | .text _ source => source
    | _ => none
  items n := do
    let o ← target objects n
    match Node.parts? nodes o with
    | some items => return items
    | none => throw (.referenceToOther (o.lacking "__iter__"))
  shown := shownNumber

end References

end Folio.Pdf
