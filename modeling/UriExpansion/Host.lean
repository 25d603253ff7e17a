/-
UriExpansion/Host.lean

Objects of the program that asks for an expansion.

A host object is an instance of the last of a chain of classes, each of which
inherits the one before it.  It has a state, filled attribute by attribute,
and its classes may declare record fields, properties that compute a value,
plain attributes, and markers that rename or exclude an attribute.  What a
getter does when it is read is part of the description: it returns a value or
it fails.

Everything here is parametric in the type of values, which contains host
objects in its turn.
-/
import UriExpansion.Entries
import UriExpansion.Text

namespace UriExpansion

/-- A note on an attribute: another name for it, or its exclusion. -/
structure Marker where
  label : Option Text
  transient : Bool
  deriving DecidableEq, Repr

/-- How host code fails. -/
inductive Raised
  /-- The code broke while it ran. -/
  | runtime (message : Text)
  /-- The code found a value unfit. -/
  | value (message : Text)
  /-- The code announced an error of resolution with its own code. -/
  | resolution (code message : Text)
  /-- The code called for the whole program to end.  This is no error, so that no
  guard against errors holds it back. -/
  | interrupt (message : Text)
  deriving DecidableEq, Repr

/-- What running host code comes to. -/
inductive Reading (α : Type)
  | returns (v : α)
  | raises (r : Raised)

instance {α : Type} : Inhabited (Reading α) := ⟨.raises (.runtime [])⟩

/-- The code behind a property, with its markers. -/
structure Getter (α : Type) where
  label : Option Text
  transient : Bool
  reading : Reading α

/-- A property; one without a getter cannot be read. -/
structure Property (α : Type) where
  name : Text
  getter : Option (Getter α)

/-- A record field. -/
structure Field (α : Type) where
  name : Text
  default : Option α
  marker : Option Marker

/-- A class. -/
structure HostClass (α : Type) where
  name : Text
  /-- The fields that the class itself declares, if it is a record class. -/
  fields : Option (List (Field α))
  properties : List (Property α)
  /-- Plain attributes of the class. -/
  attributes : List (Text × α)
  /-- Declared markers; what is not a marker is `none` and means nothing. -/
  markers : List (Text × Option Marker)
  callable : Bool
  /-- The method with which an object names its own pairs. -/
  pairs : Option (Reading α)
  deriving Inhabited

/-- An instance of the last class of a chain. -/
structure HostObject (α : Type) where
  /-- Tells objects apart that are described alike. -/
  identity : Nat
  classes : List (HostClass α)
  state : List (Text × α)

namespace HostObject

variable {α : Type}

/-- The name of an object's class. -/
def className (o : HostObject α) : Text := (o.classes.getLast?.map HostClass.name).getD []

/-- Whether the object can be called. -/
def isCallable (o : HostObject α) : Bool := o.classes.any HostClass.callable

end HostObject

end UriExpansion
