import Folio.Text.Basic

/-!
# Log records

What the library reports besides its answers. Only warnings and errors are kept.
-/

namespace Folio

/-- How grave a record is. -/
inductive Level
  | warning
  | error
  deriving DecidableEq, Repr

/-- One report. -/
structure LogRecord where
  level : Level
  message : Text
  deriving DecidableEq, Repr

/-- Reports in the order they were made. -/
abbrev Log := List LogRecord

namespace Log

def warning (message : Text) : Log := [⟨.warning, message⟩]

def error (message : Text) : Log := [⟨.error, message⟩]

end Log

end Folio
