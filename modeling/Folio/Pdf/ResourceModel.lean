import Folio.Font.Catalog
import Folio.Pdf.Decoder

/-!
# Resources of a document

The fonts and external objects that a document's resource dictionaries list, built when they are
first asked for. Each dictionary, font and stream gets one model, however often it is listed. The
model of a resource dictionary is registered before it is filled, and so is that of a form before
its own resources are, which lets forms lead back to where they are listed.
-/

namespace Folio.Pdf

/-- What has been built. The lists go from nodes to what stands for them. -/
structure ResourceModel (α : Type) where
  catalog : Catalog α := .empty
  dictionaries : List (Nat × Nat) := []
  fonts : List (Nat × Font α) := []
  /-- Decoders by the keys of their fonts. -/
  decoders : List (Nat × Decoder α) := []
  objects : List (Nat × ExternalObject) := []

namespace ResourceModel

variable {α : Type} [Scalar α]

def decoder? (model : ResourceModel α) (font : Font α) : Option (Decoder α) :=
  model.decoders.lookup font.key

/-- Registers new resources that are still empty. -/
def newResources : Act (ResourceModel α) Nat := do
  let model ← get
  let index := model.catalog.resources.size
  set { model with
    catalog := { model.catalog with resources := model.catalog.resources.push .empty } }
  return index

def changeResources (index : Nat) (f : Resources α → Resources α) : Act (ResourceModel α) Unit :=
  modify fun model =>
    { model with
      catalog := { model.catalog with resources := model.catalog.resources.modify index f } }

/-- The name of a resource without its slash, unless nothing is left of it. -/
def bareName (key : Text) : Text :=
  match Font.bare key with
  | [] => key
  | name => name

/-- The descendant of a composite font. -/
def descendant? (graph : Graph α) (font : Nat) : Except Fault (Option Nat) := do
  if (← graph.name? (graph.entry font "/Subtype")) = some (Text.lit "Type0") then
    match graph.items? (graph.entry font "/DescendantFonts") with
    | some (first :: _) => return graph.node? first
    | _ => return none
  else return none

/-- The font's descriptor, or its descendant's. -/
def descriptor? (graph : Graph α) (font : Nat) (descendant : Option Nat) : Option Nat :=
  match graph.node? (graph.entry font "/FontDescriptor") with
  | some d => some d
  | none => descendant.bind fun d => graph.node? (graph.entry d "/FontDescriptor")

/-- Four numbers as a font's box. -/
def fontBox? (graph : Graph α) (o : Object α) : Except Fault (Option (FontBox α)) :=
  match graph.items? o with
  | some [l, b, r, t] => do
    return some ⟨← graph.coordinate l, ← graph.coordinate b, ← graph.coordinate r,
      ← graph.coordinate t⟩
  | _ => .ok none

/-- The entry of a descriptor that holds the font program. -/
def fontFile? (graph : Graph α) (descriptor : Option Nat) : Option Text :=
  (["FontFile", "FontFile2", "FontFile3"].find? fun key =>
    (descriptor.map fun d => graph.hasEntry d ("/" ++ key)).getD false).map Text.lit

/-- The font that a node describes. -/
def describe (graph : Graph α) (key : Nat) (name : Text) (font : Nat) (descendant : Option Nat) :
    Except Fault (Font α) := do
  let descriptor := descriptor? graph font descendant
  let entry (name : String) : Object α :=
    (descriptor.map fun d => graph.entry d name).getD .null
  let box ← fontBox? graph (entry "/FontBBox")
  return {
    key := key
    name := bareName name
    baseFont := ← graph.name? (graph.entry font "/BaseFont")
    subtype := ← graph.name? (graph.entry font "/Subtype")
    descendantSubtype := ←
      match descendant with
      | some d => graph.name? (graph.entry d "/Subtype")
      | none => pure none
    fontFile := fontFile? graph descriptor
    ascent := ← graph.numberOr 0 (entry "/Ascent")
    descent := ← graph.numberOr 0 (entry "/Descent")
    capHeight := ← graph.numberOr 0 (entry "/CapHeight")
    box := box
    flags := ← graph.whole 0 (entry "/Flags") }

/-- The font of a node, registered before its decoder is built. -/
def font (graph : Graph α) (name : Text) (node : Nat) : Act (ResourceModel α) (Font α) := do
  let model ← get
  match model.fonts.lookup node with
  | some font => return font
  | none =>
    let descendant ← Act.ofExcept (descendant? graph node)
    let font ← Act.ofExcept (describe graph model.fonts.length name node descendant)
    modify fun model => { model with fonts := model.fonts ++ [(node, font)] }
    let decoder ← Act.ofExcept (Decoder.ofFont graph node descendant font)
    modify fun model => { model with decoders := model.decoders ++ [(font.key, decoder)] }
    return font

/-- The names of a stream's filters. -/
def filters (graph : Graph α) (stream : Nat) : Except Fault (List Text) := do
  let listed := match graph.value stream "/Filter" with
    | .array items => items.map graph.resolve
    | o => [o]
  return (← listed.mapM graph.name?).filterMap id

/-- The picture that a stream decodes to. Its format is that of its filters. -/
def decoded (graph : Graph α) (name : Text) (stream : Nat) : Decoded :=
  match ((graph.nodes[stream]?).map (·.pixels)).getD .nothing, filters graph stream with
  | .raster raster, .ok names =>
    let jpeg := names.contains (Text.lit "DCTDecode")
    .raster { raster with
      format := some (Text.lit (if jpeg then "jpeg" else "png"))
      bitsPerPixel := Raster.bitsOfMode raster.mode
      name := some name }
  | .raster _, .error fault => .failed fault
  | other, _ => other

def picture (graph : Graph α) (key : Nat) (name : Text) (stream : Nat) :
    Except Fault PictureResource := do
  return {
    key := key
    name := name
    width := ← graph.whole 0 (graph.entry stream "/Width")
    height := ← graph.whole 0 (graph.entry stream "/Height")
    decoded := decoded graph name stream }

/-- The map of a form, which moves nothing unless it is given by six numbers. -/
def formMatrix (graph : Graph α) (stream : Nat) : Except Fault (Affine α) :=
  match graph.items? (graph.entry stream "/Matrix") with
  | some [a, b, c, d, e, f] => do
    return ⟨← graph.coordinate a, ← graph.coordinate b, ← graph.coordinate c,
      ← graph.coordinate d, ← graph.coordinate e, ← graph.coordinate f⟩
  | _ => .ok .identity

def register (stream : Nat) (object : ExternalObject) : Act (ResourceModel α) Unit :=
  modify fun model => { model with objects := model.objects ++ [(stream, object)] }

/-- Registers a new form, as yet without resources of its own. -/
def newForm (name : Text) (matrix : Affine α) (stream : Nat) : Act (ResourceModel α) Nat := do
  let model ← get
  let index := model.catalog.forms.size
  set { model with
    catalog :=
      { model.catalog with forms := model.catalog.forms.push ⟨name, matrix, none, some stream⟩ } }
  return index

/-- Gives a form resources of its own. -/
def setFormResources (form index : Nat) : Act (ResourceModel α) Unit :=
  modify fun model =>
    { model with
      catalog :=
        { model.catalog with
          forms := model.catalog.forms.modify form fun f =>
            { f with resources := some index } } }

/-- The external object of a stream that has none yet; `resources` builds a form's own resources. -/
def newObject (graph : Graph α) (resources : Object α → Act (ResourceModel α) Nat) (key : Text)
    (stream : Nat) : Act (ResourceModel α) (Option ExternalObject) := do
  let name := bareName key
  let subtype ← Act.ofExcept (graph.name? (graph.entry stream "/Subtype"))
  if subtype = some (Text.lit "Image") then
    let key := (← get).objects.length
    let object := ExternalObject.picture (← Act.ofExcept (picture graph key name stream))
    register stream object
    return some object
  else if subtype = some (Text.lit "Form") then
    let form ← newForm name (← Act.ofExcept (formMatrix graph stream)) stream
    register stream (.form form)
    if graph.hasEntry stream "/Resources" then
      setFormResources form (← resources (graph.entry stream "/Resources"))
    return some (.form form)
  else return none

/-- The external object of a stream, if it is a picture or a form. -/
def object (graph : Graph α) (resources : Object α → Act (ResourceModel α) Nat) (key : Text)
    (stream : Nat) : Act (ResourceModel α) (Option ExternalObject) := do
  match (← get).objects.lookup stream with
  | some object => return some object
  | none => newObject graph resources key stream

/-- Fills resources with the fonts among the entries of a dictionary. -/
def addFonts (graph : Graph α) (index : Nat) : List (Text × Object α) → Act (ResourceModel α) Unit
  | [] => pure ()
  | (name, value) :: rest => do
    if let some node := graph.node? value then
      let font ← font graph name node
      changeResources index fun r => { r with fonts := r.fonts ++ [(name, font)] }
    addFonts graph index rest

/-- Fills resources with the external objects among the entries of a dictionary. -/
def addObjects (graph : Graph α) (resources : Object α → Act (ResourceModel α) Nat)
    (index : Nat) : List (Text × Object α) → Act (ResourceModel α) Unit
  | [] => pure ()
  | (name, value) :: rest => do
    if let some stream := graph.stream? value then
      if let some object ← object graph resources name stream then
        changeResources index fun r => { r with objects := r.objects ++ [(name, object)] }
    addObjects graph resources index rest

/-- The entries of the dictionary that an entry stands for. -/
def entriesOf (graph : Graph α) (node : Nat) (key : String) : List (Text × Object α) :=
  match graph.node? (graph.entry node key) with
  | some index => ((graph.nodes[index]?).map (·.entries)).getD []
  | none => []

/-- Builds the resources that a value stands for. Every call within a call registers one more
dictionary, so that a depth of one more than there are nodes is never used up. -/
def buildWithin (graph : Graph α) : Nat → Object α → Act (ResourceModel α) Nat
  | 0, _ => newResources
  | depth + 1, value => do
    match graph.node? value with
    | none => newResources
    | some node =>
      match (← get).dictionaries.lookup node with
      | some index => return index
      | none =>
        let index ← newResources
        modify fun model => { model with dictionaries := model.dictionaries ++ [(node, index)] }
        addFonts graph index (entriesOf graph node "/Font")
        addObjects graph (buildWithin graph depth) index (entriesOf graph node "/XObject")
        return index

/-- The resources that a value stands for. What is no dictionary has new, empty resources each
time. -/
def build (graph : Graph α) (value : Object α) : Act (ResourceModel α) Nat :=
  buildWithin graph (graph.nodes.size + 1) value

end ResourceModel

end Folio.Pdf
