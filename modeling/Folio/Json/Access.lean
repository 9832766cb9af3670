import Folio.Json
import Folio.Scalar

/-!
# Reading from JSON values

Looking into a value of which one knows what it should be. What is not there, or is of another
kind, reads as nothing or as a default.
-/

namespace Folio.Json

def members : Json → List (Text × Json)
  | object members => members
  | _ => []

def items : Json → List Json
  | array items => items
  | _ => []

def member? (j : Json) (name : String) : Option Json := j.members.lookup (Text.lit name)

/-- The member of that name, or null. -/
def member (j : Json) (name : String) : Json := (j.member? name).getD null

/-- The member of that name, if it is not null. -/
def given? (j : Json) (name : String) : Option Json :=
  match j.member? name with
  | some null => none
  | found => found

/-- The items of the member of that name. -/
def list (j : Json) (name : String) : List Json := (j.member name).items

/-- The members of the member of that name. -/
def table (j : Json) (name : String) : List (Text × Json) := (j.member name).members

def asText? : Json → Option Text
  | text t => some t
  | _ => none

/-- The value as a text; the empty one for anything else. -/
def asText (j : Json) : Text := j.asText?.getD []

/-- The member of that name as a text. -/
def text? (j : Json) (name : String) : Option Text := (j.member name).asText?

/-- The texts among the items of the member of that name. -/
def texts (j : Json) (name : String) : List Text := (j.list name).filterMap asText?

mutual

/-- Refuses whole numbers beyond all coordinates: the value itself, the items of an array and the
members of an object that go by one of the names. -/
def inRange (names : List String) : Json → Except Fault Unit
  | whole n => (Scalar.ofWhole (α := Float) n).map fun _ => ()
  | array items => itemsInRange names items
  | object members => membersInRange names members
  | _ => .ok ()

/-- Refuses whole numbers beyond all coordinates among items. -/
def itemsInRange (names : List String) : List Json → Except Fault Unit
  | [] => .ok ()
  | item :: rest => do
    item.inRange names
    itemsInRange names rest

/-- Refuses whole numbers beyond all coordinates among members that go by one of the names. -/
def membersInRange (names : List String) : List (Text × Json) → Except Fault Unit
  | [] => .ok ()
  | (name, value) :: rest => do
    if names.any fun known => name = Text.lit known then value.inRange names
    membersInRange names rest

end

/-- The nearest number to a whole one; beyond all numbers it is infinite. -/
def nearest (n : Int) : Float :=
  (Scalar.ofInt? n).getD (if n < 0 then -1.0 / 0.0 else 1.0 / 0.0)

/-- The value as a number. A text counts for the number that it writes. -/
def asNumber : Json → Float
  | whole n => nearest n
  | real x => x
  | text t => ((Decimal.Numeral.read? t).map (·.nearest)).getD 0
  | bool b => if b then 1 else 0
  | _ => 0

/-- The exact value of a number. -/
def asExact : Json → Exact
  | whole n => .ofInt n
  | j => Scalar.exact j.asNumber

/-- The member of that name as a number. -/
def number (j : Json) (name : String) (default : Float) : Float :=
  ((j.member? name).map asNumber).getD default

/-- The value as a whole number, without what follows the point. -/
def asWhole : Json → Int
  | whole n => n
  | real x => (Scalar.truncate x).toOption.getD 0
  | bool b => if b then 1 else 0
  | _ => 0

/-- The member of that name as a whole number. -/
def wholeNumber (j : Json) (name : String) (default : Int) : Int :=
  ((j.given? name).map asWhole).getD default

/-- The value as a truth value. -/
def asFlag : Json → Bool
  | bool b => b
  | _ => false

/-- The member of that name as a truth value. -/
def flag (j : Json) (name : String) (default : Bool) : Bool :=
  ((j.given? name).map asFlag).getD default

end Folio.Json
