import Folio.Font.Basic
import Folio.Image.Raster

/-!
# Resources

The fonts and external objects that content may name. Forms carry resources of their own, and a
form may lead back to the resources it is listed in, so resources and forms live in a `Catalog`
and refer to each other by index. `reachable` lists the resources that can be reached from one of
them through forms, each once, in the order of a depth-first walk.
-/

namespace Folio

/-- A picture among the resources. `key` tells pictures apart. -/
structure PictureResource where
  key : Nat
  name : Text
  width : Int
  height : Int
  decoded : Decoded

/-- An external object: a picture, or the index of a form. -/
inductive ExternalObject
  | picture (picture : PictureResource)
  | form (index : Nat)

/-- The fonts and external objects of a content stream by name, in the order they are listed. -/
structure Resources (α : Type) where
  fonts : List (Text × Font α)
  objects : List (Text × ExternalObject)

/-- Content that is drawn as one object. `resources` is the index of its own resources, `content`
that of the object which holds its operators. -/
structure Form (α : Type) where
  name : Text
  matrix : Affine α
  resources : Option Nat
  content : Option Nat

/-- All resources and forms of a document. -/
structure Catalog (α : Type) where
  resources : Array (Resources α)
  forms : Array (Form α)

namespace Resources

variable {α : Type}

def empty : Resources α := ⟨[], []⟩

def font? (r : Resources α) (name : Text) : Option (Font α) := r.fonts.lookup name

/-- The external object of that name. -/
def object? (r : Resources α) (name : Text) : Option ExternalObject := r.objects.lookup name

end Resources

namespace Catalog

variable {α : Type}

def empty : Catalog α := ⟨#[], #[]⟩

/-- The resources that an index stands for; an index beyond the catalog stands for none. -/
def resourcesAt (catalog : Catalog α) (index : Nat) : Resources α :=
  catalog.resources.getD index .empty

/-- The resources of the form that an external object is, if it has its own. -/
def ofObject (catalog : Catalog α) : ExternalObject → Option Nat
  | .picture _ => none
  | .form index => (catalog.forms[index]?).bind (·.resources)

/-- The resources that the forms listed there carry, in the order of the list. -/
def children (catalog : Catalog α) (index : Nat) : List Nat :=
  (catalog.resourcesAt index).objects.filterMap fun (_, object) => catalog.ofObject object

/-- A depth-first walk from the `pending` resources; only those still `unvisited` are entered. -/
def walk (catalog : Catalog α) (pending unvisited : List Nat) : List Nat :=
  match pending with
  | [] => []
  | index :: rest =>
    if _ : index ∈ unvisited then
      index :: catalog.walk (catalog.children index ++ rest) (unvisited.erase index)
    else catalog.walk rest unvisited
termination_by (unvisited.length, pending.length)
decreasing_by
  · have member : index ∈ unvisited := by assumption
    have := List.length_erase_of_mem member
    have := List.length_pos_of_mem member
    exact Prod.Lex.left _ _ (by omega)
  · exact Prod.Lex.right _ (by simp)

/-- The resources that can be reached from `index`, itself first. -/
def reachable (catalog : Catalog α) (index : Nat) : List Nat :=
  catalog.walk [index] (List.range catalog.resources.size)

/-- The fonts listed in the resources that can be reached from `index`, in the order of the walk. -/
def reachableFonts (catalog : Catalog α) (index : Nat) : List (Font α) :=
  (catalog.reachable index).flatMap fun i => (catalog.resourcesAt i).fonts.map (·.2)

end Catalog

end Folio
