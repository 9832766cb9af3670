import Folio.Image.Proxy
import Folio.Json.Access
import Folio.Pdf.Document
import Folio.Pdf.Notation.Lexicon
import Folio.Pdf.Notation.References

/-!
# Documents in JSON

A notation for documents whose outer syntax has been taken apart already: a JSON object with the
pages, the numbered objects and what is said of the whole. Numbers, texts, arrays and `null` stand
for themselves. Other objects are told apart by their members:

* `ref` a reference by its number, `hex` bytes, `text` and `bytes` a text with its bytes;
* `dict` a dictionary, with `encoding` for how the codes of a font become text;
* `stream` a stream, with `ops` or `ops_error` for its operators and `image` for its
  pixels.
-/

namespace Folio.Pdf.Notation

mutual

/-- How deep the values of a value are nested. -/
def depth : Json → Nat
  | .array items => depthOfItems items + 1
  | .object members => depthOfMembers members + 1
  | _ => 0

/-- The depth of the deepest item. -/
def depthOfItems : List Json → Nat
  | [] => 0
  | item :: rest => max (depth item) (depthOfItems rest)

/-- The depth of the deepest member. -/
def depthOfMembers : List (Text × Json) → Nat
  | [] => 0
  | (_, value) :: rest => max (depth value) (depthOfMembers rest)

end

/-- The pixels that a description stands for; their size may be given apart. -/
def proxy (j : Json) : ProxyRaster where
  width := j.wholeNumber "pw" (j.wholeNumber "width" 0)
  height := j.wholeNumber "ph" (j.wholeNumber "height" 0)
  refusedFormats := j.texts "fail"
  refusedModes := j.texts "fail_convert"

/-- The raster that a description stands for. -/
def raster (j : Json) : Raster where
  mode := (j.text? "mode").getD (Text.lit "RGB")
  width := j.wholeNumber "width" 0
  height := j.wholeNumber "height" 0
  format := j.text? "format"
  bitsPerPixel := j.wholeNumber "bpp" 24
  name := j.text? "name"
  encoder := (proxy j).encoder

/-- The pixels of a stream, which are as large as they come. Without a description there are none,
and the raster is empty. -/
def pixels (j : Json) : Decoded :=
  match j.text? "error" with
  | some words => .failed (.badValue words)
  | none => .raster { raster j with width := (proxy j).width, height := (proxy j).height }

/-- The nodes read so far, while a graph is being read. -/
abbrev Reading := StateM (Array (Node Float))

/-- Reads bytes in hexadecimal. -/
def bytes (t : Text) : Bytes := (Bytes.ofHex? t).getD []

mutual

/-- Reads a value. Values nested deeper than the depth given read as null. -/
def object : Nat → Json → Reading (Object Float)
  | _, .null => pure .null
  | _, .bool b => pure (.truth b)
  | _, .whole n => pure (.whole n)
  | _, .real x => pure (.real x)
  | _, .text t => pure (.ofText t)
  | 0, _ => pure .null
  | depth + 1, .array items => do return .array (← objects depth items)
  | depth + 1, .object ms => do
    let j := Json.object ms
    match j.member? "ref", j.text? "hex", j.text? "text" with
    | some (.whole n), _, _ => return .reference n
    | _, some h, _ => return .bytes (bytes h)
    | _, _, some t => return .text t ((j.text? "bytes").map bytes)
    | _, _, _ => return .node (← node depth j)
termination_by depth => (depth, 0, 0)

def objects : Nat → List Json → Reading (List (Object Float))
  | _, [] => pure []
  | depth, item :: rest => do
    let o ← object depth item
    return o :: (← objects depth rest)
termination_by depth items => (depth, 1, items.length)

/-- Reads the entries of a dictionary. -/
def entries : Nat → List (Text × Json) → Reading (List (Text × Object Float))
  | _, [] => pure []
  | depth, (key, value) :: rest => do
    let o ← object depth value
    return (key, o) :: (← entries depth rest)
termination_by depth members => (depth, 1, members.length)

def instructions : Nat → List Json → Reading (List (Instruction Float))
  | _, [] => pure []
  | depth, instruction :: rest => do
    match instruction.items with
    | .text operator :: operands =>
      let operands ← objects depth operands
      return ⟨operator, operands⟩ :: (← instructions depth rest)
    | _ => instructions depth rest
termination_by depth instructions => (depth, 2, instructions.length)

/-- Reads how the codes of a font become text. -/
def codes : Nat → Json → Reading (Option (CodeMap Float))
  | depth, j => do
    if (j.member? "error").isSome then return none
    let table : CodeTable Float ←
      match j.member? "encoding" with
      | some (.text name) => pure (.encoding name)
      | some (.object names) =>
        let named ← entries depth names
        pure (.glyphs (named.filterMap fun (code, glyph) =>
          match Json.number? code with
          | some (.whole n) => some (n, glyph)
          | _ => none))
      | _ => pure .none
    let texts ← entries depth (j.table "cmap")
    return some ⟨table, texts⟩
termination_by depth => (depth, 3, 0)

/-- Reads a dictionary or a stream as a new node. -/
def node : Nat → Json → Reading Nat
  | depth, j => do
    let isStream := (j.member? "stream").isSome
    let listed := j.table (if isStream then "stream" else "dict")
    let entries ← entries depth listed
    let content : Content Float ←
      match j.text? "ops_error" with
      | some words => pure (.error (.unreadable words))
      | none => do
        pure (.ok (← instructions depth (j.list "ops")))
    let codes ←
      match j.member? "encoding" with
      | some e => codes depth e
      | none => pure (some {})
    let nodes ← get
    set (nodes.push {
      entries := entries
      isStream := isStream
      content := content
      pixels := pixels (j.member "image")
      codes := codes })
    return nodes.size
termination_by depth => (depth, 4, 0)

end

mutual

/-- Reads a value in which every object is a dictionary, whatever its members. -/
def plain : Json → Reading (Object Float)
  | .null => pure .null
  | .bool b => pure (.truth b)
  | .whole n => pure (.whole n)
  | .real x => pure (.real x)
  | .text t => pure (.ofText t)
  | .array items => do return .array (← plainItems items)
  | .object members => do
    let entries ← plainMembers members
    let nodes ← get
    set (nodes.push { entries := entries })
    return .node nodes.size

/-- Reads items in which every object is a dictionary. -/
def plainItems : List Json → Reading (List (Object Float))
  | [] => pure []
  | item :: rest => do
    let o ← plain item
    return o :: (← plainItems rest)

/-- Reads members in which every object is a dictionary. -/
def plainMembers : List (Text × Json) → Reading (List (Text × Object Float))
  | [] => pure []
  | (key, value) :: rest => do
    let o ← plain value
    return (key, o) :: (← plainMembers rest)

end

def numbered (depth : Nat) (j : Json) : Reading (List (Int × Object Float)) := do
  let read ← entries depth (j.table "objects")
  return read.filterMap fun (key, o) =>
    match Json.number? key with
    | some (.whole n) => some (n, o)
    | _ => none

/-- The angle that a value stands for; nothing, null, a falsehood and whatever is empty are no
turn. -/
def angle : Option Json → Angle Float
  | some (.whole n) => .whole n
  | some (.real x) => .real x
  | some (.text []) => .whole 0
  | some (.text t) => .text t
  | some (.bool true) => .whole 1
  | some (.array (_ :: _)) => .other (Text.lit "list")
  | some (.object (_ :: _)) => .other (Text.lit "dict")
  | _ => .whole 0

def page (depth : Nat) (j : Json) : Reading (Page Float) := do
  let crop : CropBox (Object Float) :=
    match ← objects depth (j.list "crop") with
    | [left, bottom, width, height] => ⟨left, bottom, width, height⟩
    | _ => ⟨.whole 0, .whole 0, .whole 200, .whole 200⟩
  let rotation := angle (j.member? "rotate")
  let resources ← object depth ((j.member? "resources").getD .null)
  let content : Option (Content Float) ←
    match j.text? "ops_error", j.member? "ops" with
    | some words, _ => pure (some (.error (.unreadable words)))
    | none, some ops => do pure (some (.ok (← instructions depth ops.items)))
    | none, none => pure none
  return ⟨crop, rotation, resources, content⟩

def pages (depth : Nat) : List Json → Reading (List (Page Float))
  | [] => pure []
  | j :: rest => do
    let p ← page depth j
    return p :: (← pages depth rest)

/-- The graph of numbered objects, given the nodes that were read. -/
def graph (nodes : Array (Node Float)) (objects : List (Int × Object Float)) : Graph Float where
  nodes := nodes
  objects := objects
  references := .following nodes objects
  lexicon := lexicon

/-- The document that a value stands for, or why there is none. -/
def source (j : Json) : Except ReadFailure (Source Float) :=
  match j.member? "read_error" with
  | some failure =>
    let words := (failure.text? "message").getD []
    match failure.member? "pdf" with
    | some (.bool true) => .error (.damaged words)
    | _ => .error (.unexpected words)
  | none =>
    let depth := depth j
    let read : Reading (List (Page Float) × List (Int × Object Float)) := do
      let objects ← numbered depth j
      return (← pages depth (j.list "pages"), objects)
    let ((pages, objects), nodes) := read.run #[]
    let password := j.text? "password"
    .ok {
      graph := graph nodes objects
      pages := .ok pages
      title := j.text? "title"
      encrypted := .ok password.isSome
      opens := fun given => .ok (password == some given) }

end Folio.Pdf.Notation
