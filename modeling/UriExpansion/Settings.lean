/-
UriExpansion/Settings.lean

What a caller may decide about an expansion: the pattern after which dates
are written, and what happens to a variable whose value cannot be resolved.
-/
import UriExpansion.Text

namespace UriExpansion

/-- What a value that cannot be resolved does to an expansion. -/
inductive Policy
  /-- It ends the expansion with its error. -/
  | abort
  /-- Its variable counts as unbound. -/
  | undefined
  deriving DecidableEq, Repr, Inhabited

/-- The choices for an expansion. -/
structure Settings where
  /-- A pattern for dates and times; ISO 8601 if there is none or it is empty. -/
  dateFormat : Option Text
  onResolutionError : Policy
  deriving DecidableEq, Repr

namespace Settings

/-- ISO 8601 dates, and every error is final. -/
def standard : Settings := ⟨none, .abort⟩

/-- The pattern for dates and times, if it is not empty. -/
def pattern? (s : Settings) : Option Text :=
  match s.dateFormat with
  | some (c :: rest) => some (c :: rest)
  | _ => none

end Settings

end UriExpansion
