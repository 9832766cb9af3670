import Folio.Scalar
import Folio.Text.Quoted

/-!
# Objects of a document

The values that dictionaries and content hold. A dictionary is a node of the document's graph, so
that one that is shared stays one; a reference stands for an object by its number.

A value is read as a number wherever one is wanted, texts included; what it cannot be read as is a
fault that says why.
-/

namespace Folio.Pdf

/-- A value. -/
inductive Object (α : Type)
  | null
  | truth (value : Bool)
  | whole (value : Int)
  | real (value : α)
  /-- A name or a text, with the bytes it was decoded from if they are known. -/
  | text (value : Text) (source : Option Bytes)
  | bytes (value : Bytes)
  | array (items : List (Object α))
  | reference (number : Int)
  /-- A dictionary or a stream, by its node. -/
  | node (index : Nat)

namespace Object

variable {α : Type} [Scalar α]

def ofText (t : Text) : Object α := text t none

/-- What complaints call the kind of a value. -/
def kind : Object α → Text
  | null => Text.lit "NoneType"
  | truth _ => Text.lit "bool"
  | whole _ => Text.lit "int"
  | real _ => Text.lit "float"
  | text .. => Text.lit "str"
  | bytes _ => Text.lit "bytes"
  | array _ => Text.lit "ArrayObject"
  | reference _ => Text.lit "IndirectObject"
  | node _ => Text.lit "DictionaryObject"

/-- The complaint about a text that writes no number; `shown` is the text in quotes. -/
def noNumeral (shown : Text) : Fault :=
  .badValue (Text.lit "could not convert string to float: " ++ shown)

/-- The complaint about a value that is not of a kind to be read as a number. -/
def noNumber (o : Object α) : Fault :=
  .wrongKind (Text.join [Text.lit "float() argument must be a string or a real number, not \x27",
    o.kind, Text.lit "\x27"])

/-- The number that a value reads as; `reference` reads references. -/
def number (reference : Int → Except Fault α) : Object α → Except Fault α
  | truth true => .ok 1
  | truth false => .ok 0
  | whole n => Scalar.ofWhole n
  | real x => .ok x
  | text t _ =>
    match Decimal.Numeral.read? t with
    | some n => .ok (Scalar.ofNumeral n)
    | none => .error (noNumeral (Text.quoted t))
  | bytes b =>
    match Decimal.Numeral.readBytes? b with
    | some n => .ok (Scalar.ofNumeral n)
    | none => .error (noNumeral (Text.quotedBytes b))
  | .reference n => reference n
  | o => .error o.noNumber

/-- Takes `default` for a value that reads as no number; a number out of range is a fault still. -/
def orDefault (default : α) : Except Fault α → Except Fault α
  | .error (.wrongKind _) => .ok default
  | .error (.badValue _) => .ok default
  | answer => answer

mutual

/-- A value as an item of something written out; `node` writes out dictionaries, `reference`
references. -/
def shown (node : Nat → Text) (reference : Int → Text) : Object α → Text
  | null => Text.lit "None"
  | truth true => Text.lit "True"
  | truth false => Text.lit "False"
  | whole n => Text.ofInt n
  | real x => Scalar.text x
  | text t _ => Text.quoted t
  | bytes b => Text.quotedBytes b
  | array items => Text.lit "[" ++ shownItems node reference items ++ Text.lit "]"
  | .reference n => reference n
  | .node index => node index

def shownItems (node : Nat → Text) (reference : Int → Text) : List (Object α) → Text
  | [] => []
  | [item] => shown node reference item
  | item :: rest => shown node reference item ++ Text.lit ", " ++ shownItems node reference rest

end

/-- A value as a text: texts are as they are, everything else is written out. -/
def name (node : Nat → Text) (reference : Int → Text) : Object α → Text
  | text t _ => t
  | o => o.shown node reference

/-- Whether the value is an array. -/
def items? : Object α → Option (List (Object α))
  | array items => some items
  | _ => none

end Object

end Folio.Pdf
