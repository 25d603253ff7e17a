/-
UriExpansion/Value.lean

Bound values.

A variable may be bound to anything that the calling program or a document
can hold.  `Value.isScalar` picks out the values that have a text of their
own, `Value.typeName` is what messages call the kind of a value.

What a program makes rather than writes down (a member of an enumeration, a
class, a function, a host object) has an identity, which tells it apart from
what looks alike.
-/
import UriExpansion.Calendar
import UriExpansion.Host
import UriExpansion.Number.Binary64
import UriExpansion.Number.Decimal
import UriExpansion.Number.Uuid

namespace UriExpansion

/-- A value to which a variable can be bound. -/
inductive Value
  /-- The absence of a value. -/
  | none
  | bool (b : Bool)
  | int (n : Int)
  | float (x : Binary64)
  | decimal (d : Decimal)
  | str (t : Text)
  | uuid (u : Uuid)
  | date (d : Date)
  | moment (m : Moment)
  | time (t : TimeOfDay)
  /-- A named member of an enumeration, with a value of its own. -/
  | enumMember (identity : Nat) (className name : Text) (value : Value)
  | list (items : List Value)
  | tuple (items : List Value)
  | map (entries : List (Value × Value))
  /-- A variable store used as a value; it counts as a mapping. -/
  | store (entries : List (Value × Value))
  | bytes (octets : List UInt8)
  | set (items : List Value)
  /-- A class itself, not an instance. -/
  | classObject (identity : Nat) (name : Text)
  | function (identity : Nat) (name : Text)
  | object (o : HostObject Value)

namespace Value

instance : Inhabited Value := ⟨none⟩

/-- Whether the value is the absence of one. -/
def isNone : Value → Bool
  | none => true
  | _ => false

/-- Whether the value has a text of its own. -/
def isScalar : Value → Bool
  | bool _ => true
  | int _ => true
  | float _ => true
  | decimal _ => true
  | str _ => true
  | uuid _ => true
  | date _ => true
  | moment _ => true
  | time _ => true
  | enumMember .. => true
  | _ => false

/-- What messages call the kind of a value. -/
def typeName : Value → Text
  | none => lit "NoneType"
  | bool _ => lit "bool"
  | int _ => lit "int"
  | float _ => lit "float"
  | decimal _ => lit "Decimal"
  | str _ => lit "str"
  | uuid _ => lit "UUID"
  | date _ => lit "date"
  | moment _ => lit "datetime"
  | time _ => lit "time"
  | enumMember _ className _ _ => className
  | list _ => lit "list"
  | tuple _ => lit "tuple"
  | map _ => lit "dict"
  | store _ => lit "VariableStore"
  | bytes _ => lit "bytes"
  | set _ => lit "set"
  | classObject .. => lit "type"
  | function .. => lit "function"
  | object o => o.className

end Value

end UriExpansion
