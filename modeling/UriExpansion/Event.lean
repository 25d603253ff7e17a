/-
UriExpansion/Event.lean

What the library reports while it works, and computations that report.

An `Event` is one line of the log.  `Traced ε α` is a computation that emits
events and then ends in a value or in an error; events emitted before an
error stay.  Which events a reader of the log sees depends on a threshold
that is applied when all is done (`Event.visible`), so that the trace itself
never depends on the configuration of the log.
-/
import UriExpansion.Text

namespace UriExpansion

/-- One entry of the log. -/
inductive Event
  /-- A template was read; it has so many expressions. -/
  | templateParsed (source : Text) (expressions : Nat)
  /-- A template was refused with so many errors. -/
  | templateRejected (source : Text) (errors : Nat)
  /-- An expression was expanded to so many units. -/
  | expressionExpanded (expression : Text) (units : Nat)
  /-- A value could not be resolved and its variable counts as unbound. -/
  | resolutionFailed (variableName code detail : Text)
  deriving DecidableEq, Repr

namespace Event

/-- The weight of an entry on the scale 10 (debug), 30 (warning). -/
def level : Event → Nat
  | templateParsed .. => 10
  | templateRejected .. => 10
  | expressionExpanded .. => 10
  | resolutionFailed .. => 30

/-- The entries at or above a threshold. -/
def visible (threshold : Int) (events : List Event) : List Event :=
  events.filter fun e => threshold ≤ (e.level : Int)

end Event

/-- A computation that emits events and ends in a value or an error. -/
structure Traced (ε α : Type) where
  events : List Event
  outcome : Except ε α

namespace Traced

variable {ε α β : Type}

/-- Emits one event. -/
def emit (e : Event) : Traced ε Unit := ⟨[e], .ok ()⟩

/-- A computation that emits nothing. -/
def ofExcept (x : Except ε α) : Traced ε α := ⟨[], x⟩

/-- The second computation runs if the first ends in a value; its events follow. -/
def bind (x : Traced ε α) (f : α → Traced ε β) : Traced ε β :=
  match x.outcome with
  | .error e => ⟨x.events, .error e⟩
  | .ok a =>
    let y := f a
    ⟨x.events ++ y.events, y.outcome⟩

/-- The same computation with its value changed. -/
def map (g : α → β) (x : Traced ε α) : Traced ε β := ⟨x.events, x.outcome.map g⟩

instance : Monad (Traced ε) where
  pure a := ⟨[], .ok a⟩
  bind := bind
  map := map

/-- The same computation with its error seen in another envelope. -/
def mapError {ε' : Type} (f : ε → ε') (x : Traced ε α) : Traced ε' α :=
  ⟨x.events, x.outcome.mapError f⟩

/-- Runs `f` on every element in order and collects the values. -/
def forEach (f : α → Traced ε β) : List α → Traced ε (List β)
  | [] => pure []
  | a :: as => do
    let b ← f a
    (b :: ·) <$> forEach f as

end Traced

end UriExpansion
