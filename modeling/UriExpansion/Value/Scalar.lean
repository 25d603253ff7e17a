/-
UriExpansion/Value/Scalar.lean

The text of scalar values.

Truth values are `true` and `false`, numbers have their shortest or exact
text, dates and times follow the settings' pattern or ISO 8601.  A member of
an enumeration is written as its value if that is a scalar, and by its name
otherwise.
-/
import UriExpansion.Calendar.Pattern
import UriExpansion.Settings
import UriExpansion.Value.Display

namespace UriExpansion.Value

/-- A date or time after the settings' pattern, or else its standard text. -/
def dateText (s : Settings) (m : Moment) (standard : Text) : Except Fault Text :=
  match s.pattern? with
  | some pattern => Calendar.format pattern m
  | .none => .ok standard

/-- The text of a scalar value; other values have none. -/
def scalarText? (s : Settings) : Value → Option (Except Fault Text)
  | bool b => some (.ok (if b then lit "true" else lit "false"))
  | int n => some (integerText n)
  | float x => some (.ok x.toText)
  | decimal d => some (.ok d.toText)
  | str t => some (.ok t)
  | uuid u => some (.ok u.toText)
  | date d => some (dateText s (Calendar.ofDate d) d.toText)
  | moment m => some (dateText s m m.toText)
  | time t => some (dateText s (Calendar.ofTimeOfDay t) t.toText)
  | enumMember _ _ name v => some ((scalarText? s v).getD (.ok name))
  | _ => .none

/-- Scalars are the values that have a text. -/
theorem isSome_scalarText? (s : Settings) (v : Value) :
    (scalarText? s v).isSome = v.isScalar := by
  cases v <;> rfl

end UriExpansion.Value
