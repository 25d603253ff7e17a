/-
UriExpansion/Log.lean

What the environment says about the log.

A level is given by its name in any case; what is no name of a level leaves
the log at its standard level.  The log is written as one JSON object a line
or for a human reader.
-/
import UriExpansion.Event
import UriExpansion.Fault
import UriExpansion.Text.UpperCase

namespace UriExpansion.Log

/-- The weights of the levels that have a name. -/
def levels : List (Text × Int) :=
  [(lit "CRITICAL", 50), (lit "FATAL", 50), (lit "ERROR", 40), (lit "WARNING", 30),
    (lit "WARN", 30), (lit "INFO", 20), (lit "DEBUG", 10), (lit "NOTSET", 0)]

/-- The weight of the level that holds when none is given. -/
def standardLevel : Int := 30

/-- The weight of a level by its name. -/
def levelNamed (name : Text) : Int :=
  let capitals := name.toUpper
  match levels.find? fun e => e.1 = capitals with
  | some (_, weight) => weight
  | none => standardLevel

/-- How the log is kept. -/
structure Configuration where
  /-- Entries below this weight are dropped. -/
  level : Int
  /-- Whether entries are written as JSON. -/
  json : Bool
  deriving DecidableEq, Repr

/-- The configuration that two variables of the environment give, if they are
set. -/
def Configuration.ofEnvironment (level format : Option Text) : Configuration where
  level := (level.map levelNamed).getD standardLevel
  json := format.any fun f => f.toLower = lit "json"

/-- The configuration with another level, if one is given; it has to be the
weight of a level that has a name. -/
def Configuration.withLevel (c : Configuration) (level : Option Int) : Except Fault Configuration :=
  match level with
  | none => .ok c
  | some n => if levels.any fun e => e.2 = n then .ok { c with level := n } else .error (.unknownLevel n)

end UriExpansion.Log
