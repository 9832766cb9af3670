import Folio.Text.Basic

/-!
# Command line arguments

Arguments are switches and places. A switch is written in full after two hyphens, or some as a
letter after one; letters can be run together. A value follows its switch as the next argument,
whatever that looks like, or in the same one. After two hyphens alone only places come.
-/

namespace Folio.CommandLine

/-- The switches of the program and its commands. -/
inductive Switch
  | output
  | imageMode
  | imageDir
  | noIndentCorrection
  | quoteSpacing
  | lineMode
  | password
  | verbose
  | help
  | version
  deriving DecidableEq, Repr

/-- Whether a value belongs to the switch. -/
def Switch.takesValue : Switch → Bool
  | output | imageMode | imageDir | password => true
  | _ => false

/-- The switches that a command knows. -/
structure Grammar where
  long : List (String × Switch)
  short : List (Char × Switch) := []
  /-- Whether switches may follow places. -/
  mixed : Bool := true

/-- The switch of that full name, hyphens included. -/
def Grammar.long? (g : Grammar) (name : Text) : Option Switch :=
  (g.long.find? fun s => Text.lit s.1 = name).map (·.2)

def Grammar.short? (g : Grammar) (c : CodePoint) : Option Switch :=
  (g.short.find? fun s => CodePoint.ofChar s.1 = c).map (·.2)

/-- What has been given: switches with their values, and places, both in order. -/
structure Given where
  settings : List (Switch × Text) := []
  places : List Text := []

namespace Given

def addSettings (given : Given) (settings : List (Switch × Text)) : Given :=
  { given with settings := given.settings ++ settings }

def addPlaces (given : Given) (places : List Text) : Given :=
  { given with places := given.places ++ places }

/-- The value given last for a switch. -/
def value? (given : Given) (switch : Switch) : Option Text := given.settings.reverse.lookup switch

def has (given : Given) (switch : Switch) : Bool := (given.value? switch).isSome

end Given

/-- What one argument says. -/
inductive Reading
  /-- These switches, with their values. -/
  | complete (settings : List (Switch × Text))
  /-- These switches, and one more whose value is the next argument. -/
  | waiting (settings : List (Switch × Text)) (switch : Switch)

/-- The reading with a switch in front that takes no value. -/
def Reading.after (switch : Switch) : Reading → Reading
  | complete settings => complete ((switch, []) :: settings)
  | waiting settings last => waiting ((switch, []) :: settings) last

/-- Reads letters that are run together; what follows a letter that takes a value is the value. -/
def readLetters? (g : Grammar) : Text → Option Reading
  | [] => some (.complete [])
  | c :: rest =>
    match g.short? c with
    | none => none
    | some switch =>
      if switch.takesValue then
        if rest.isEmpty then some (.waiting [] switch) else some (.complete [(switch, rest)])
      else (readLetters? g rest).map (Reading.after switch)

/-- Reads an argument that starts with a hyphen. -/
def readSwitch? (g : Grammar) (arg : Text) : Option Reading :=
  let name := arg.takeWhile (· != CodePoint.ofChar '=')
  let value := if name.length < arg.length then some (arg.drop (name.length + 1)) else none
  match g.long? name with
  | some switch =>
    match switch.takesValue, value with
    | true, some value => some (.complete [(switch, value)])
    | true, none => some (.waiting [] switch)
    | false, none => some (.complete [(switch, [])])
    | false, some _ => none
  | none => if (Text.lit "--").isPrefixOf arg then none else readLetters? g (arg.drop 1)

/-- Whether an argument is a switch: a hyphen and something more. -/
def isSwitch : Text → Bool
  | c :: _ :: _ => c == CodePoint.ofChar '-'
  | _ => false

/-- Reads arguments. An unknown switch, one without its value and a value for a switch that takes
none are refused. -/
def collect? (g : Grammar) (given : Given) : List Text → Option Given
  | [] => some given
  | arg :: rest =>
    if arg = Text.lit "--" then some (given.addPlaces rest)
    else if isSwitch arg then
      match readSwitch? g arg with
      | none => none
      | some (.complete settings) => collect? g (given.addSettings settings) rest
      | some (.waiting settings switch) =>
        match rest with
        | [] => none
        | value :: rest => collect? g (given.addSettings (settings ++ [(switch, value)])) rest
    else if g.mixed then collect? g (given.addPlaces [arg]) rest
    else some (given.addPlaces (arg :: rest))

end Folio.CommandLine
