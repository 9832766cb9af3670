import Folio.Font.Lexicon
import Folio.Image.Raster
import Folio.Pdf.Object

/-!
# The graph of a document

A document's dictionaries and streams as the nodes of a graph, and its numbered objects. What two
references reach by the same number is one and the same node. Looking for a dictionary or an array
takes one step along a reference. What it comes to to read a reference itself, as a number, a text
or item by item, is up to whoever read the document (`References`), and so is what encodings and
glyphs mean.
-/

namespace Folio.Pdf

/-- An operator of a content stream with its operands. -/
structure Instruction (α : Type) where
  operator : Text
  operands : List (Object α)

/-- A content stream: its operators, or why they cannot be read. -/
abbrev Content (α : Type) := Except Fault (List (Instruction α))

/-- The texts of a font's one-byte codes. -/
inductive CodeTable (α : Type)
  /-- Nothing is said. -/
  | none
  /-- The codes are bytes of a named encoding. -/
  | encoding (name : Text)
  /-- The codes stand for glyphs by name. -/
  | glyphs (names : List (Int × Object α))

/-- How a font's codes become text. -/
structure CodeMap (α : Type) where
  table : CodeTable α := .none
  /-- Texts of codes, which come before the table. -/
  texts : List (Text × Object α) := []

/-- A dictionary, or a stream with its dictionary. -/
structure Node (α : Type) where
  entries : List (Text × Object α)
  isStream : Bool := false
  content : Content α := .ok []
  pixels : Decoded := .nothing
  /-- How codes become text, if this is a font; nothing if that cannot be read. -/
  codes : Option (CodeMap α) := some {}

namespace Node

variable {α : Type} [Scalar α]

/-- A node written out; dictionaries further down than `depth` are left empty. -/
def shown (nodes : Array (Node α)) (reference : Int → Text) : Nat → Nat → Text
  | 0, _ => Text.lit "\x7b\x7d"
  | depth + 1, index =>
    let entries := ((nodes[index]?).map (·.entries)).getD []
    let shown := entries.map fun (key, value) =>
      Text.quoted key ++ Text.lit ": " ++ value.shown (shown nodes reference depth) reference
    Text.lit "\x7b" ++ Text.joinWith (Text.lit ", ") shown ++ Text.lit "\x7d"

/-- A value that is no reference as a text. -/
def text (nodes : Array (Node α)) (reference : Int → Text) (o : Object α) : Text :=
  o.name (shown nodes reference nodes.size) reference

/-- What a value gives item by item, if it can be taken apart: a text its characters, bytes their
values, a dictionary its keys. -/
def parts? (nodes : Array (Node α)) : Object α → Option (List (Object α))
  | .array items => some items
  | .text t _ => some (t.map fun c => Object.ofText [c])
  | .bytes b => some (b.map fun n => Object.whole n.toNat)
  | .node index =>
    some ((((nodes[index]?).map (·.entries)).getD []).map fun e => Object.ofText e.1)
  | _ => none

end Node

/-- What it comes to to read a reference, by its number. -/
structure References (α : Type) where
  number : Int → Except Fault α
  text : Int → Except Fault Text
  /-- The bytes that the text was decoded from, if there are any. -/
  source : Int → Except Fault (Option Bytes)
  /-- What it gives item by item. -/
  items : Int → Except Fault (List (Object α))
  /-- The reference itself, as an item of something written out. -/
  shown : Int → Text

/-- References of which none leads anywhere. -/
def References.lost {α : Type} : References α where
  number n := .error (.missingObject n)
  text n := .error (.missingObject n)
  source n := .error (.missingObject n)
  items n := .error (.missingObject n)
  shown := Text.ofInt

/-- A document's objects, with what is known of references, encodings and glyphs. -/
structure Graph (α : Type) where
  nodes : Array (Node α)
  objects : List (Int × Object α)
  references : References α := .lost
  lexicon : Lexicon := {}

namespace Graph

variable {α : Type} [Scalar α]

/-- What a value stands for: a reference for its object, or for nothing if that is missing. -/
def resolve (graph : Graph α) : Object α → Object α
  | .reference n => (graph.objects.lookup n).getD .null
  | o => o

/-- An entry of a node as it is written; one that is missing is null. -/
def entry (graph : Graph α) (node : Nat) (key : String) : Object α :=
  ((graph.nodes[node]?).bind fun n => n.entries.lookup (Text.lit key)).getD .null

/-- Whether a node has an entry. -/
def hasEntry (graph : Graph α) (node : Nat) (key : String) : Bool :=
  ((graph.nodes[node]?).bind fun n => n.entries.lookup (Text.lit key)).isSome

/-- What an entry of a node stands for. -/
def value (graph : Graph α) (node : Nat) (key : String) : Object α :=
  graph.resolve (graph.entry node key)

/-- The node that a value stands for. -/
def node? (graph : Graph α) (o : Object α) : Option Nat :=
  match graph.resolve o with
  | .node index => some index
  | _ => none

/-- The stream that a value stands for. -/
def stream? (graph : Graph α) (o : Object α) : Option Nat :=
  (graph.node? o).filter fun index => ((graph.nodes[index]?).map (·.isStream)).getD false

/-- The items that a value stands for. -/
def items? (graph : Graph α) (o : Object α) : Option (List (Object α)) := (graph.resolve o).items?

def number (graph : Graph α) (o : Object α) : Except Fault α := o.number graph.references.number

/-- The number that a value reads as, or a default. -/
def numberOr (graph : Graph α) (default : α) (o : Object α) : Except Fault α :=
  Object.orDefault default (graph.number o)

/-- The number that an item stands for, zero by default. -/
def coordinate (graph : Graph α) (o : Object α) : Except Fault α :=
  graph.numberOr 0 (graph.resolve o)

/-- The whole part of the number that a value reads as. -/
def whole (graph : Graph α) (default : α) (o : Object α) : Except Fault Int := do
  Scalar.truncate (← graph.numberOr default o)

/-- A value as a text. -/
def text (graph : Graph α) : Object α → Except Fault Text
  | .reference n => graph.references.text n
  | o => .ok (Node.text graph.nodes graph.references.shown o)

/-- A name without its slash; null is no name. -/
def name? (graph : Graph α) (o : Object α) : Except Fault (Option Text) :=
  match o with
  | .null => .ok none
  | o => (graph.text o).map fun t => some (Text.dropOne (CodePoint.ofChar '/') t)

end Graph

end Folio.Pdf
