/-
UriExpansion/Host/Attribute.lean

What the classes of a host object say about its attributes.

Three questions are asked of a chain of classes, and they are answered in
three different ways.  *Reading an attribute by name* takes the most derived
class that binds the name; a property found there hides the state, anything
else is hidden by it.  *The properties* are collected from base to derived,
a redefinition taking the place of the earlier one; a plain attribute of a
derived class does not remove a property from the collection.  *The markers*
are collected class by class: first those of all record fields as the class
sees them, inherited ones included, then those that the class declares.
-/
import UriExpansion.Resolution
import UriExpansion.Value

namespace UriExpansion

/-- A name that is not private. -/
def isPublic (name : Text) : Bool := name.head? ≠ some (CodePoint.scalar '_')

/-- What a class binds to a name. -/
inductive ClassBinding
  | property (getter : Option (Getter Value))
  | value (v : Value)

/-- What the class itself binds to a name; a property comes first, then a
plain attribute, then the default of a field. -/
def HostClass.binding? (c : HostClass Value) (name : Text) : Option ClassBinding :=
  match c.properties.findRev? fun p => p.name = name with
  | some p => some (.property p.getter)
  | none =>
    match Entries.get? (Entries.ofList c.attributes) name with
    | some v => some (.value v)
    | none =>
      let defaults := (c.fields.getD []).filterMap fun f =>
        if f.name = name then f.default else none
      defaults.getLast?.map .value

/-- The fields that a chain of classes has, given base first: a redefined
field keeps its place. -/
def fieldsOf (classes : List (HostClass Value)) : Entries Text (Field Value) :=
  Entries.ofList ((classes.flatMap fun c => c.fields.getD []).map fun f => (f.name, f))

/-- The markers of a list of fields. -/
def fieldMarkers (fields : Entries Text (Field Value)) : List (Text × Marker) :=
  fields.filterMap fun e => e.2.marker.map fun m => (e.1, m)

/-- The markers that a class declares. -/
def declaredMarkers (c : HostClass Value) : List (Text × Marker) :=
  (Entries.ofList c.markers).filterMap fun e => e.2.map fun m => (e.1, m)

/-- The markers that a chain of classes adds to those collected from the
classes `before` it, base first. -/
def collectMarkers (before : List (HostClass Value)) (found : Entries Text Marker) :
    List (HostClass Value) → Entries Text Marker
  | [] => found
  | c :: rest =>
    let seen := before ++ [c]
    let found := Entries.setAll found (fieldMarkers (fieldsOf seen))
    collectMarkers seen (Entries.setAll found (declaredMarkers c)) rest

namespace HostObject

/-- Whether the object is a record, that is, some class of its chain declares fields. -/
def isRecord (o : HostObject Value) : Bool := o.classes.any fun c => c.fields.isSome

/-- The record fields of the object in order. -/
def fields (o : HostObject Value) : List (Field Value) := (fieldsOf o.classes).map Prod.snd

/-- The instance attributes in order. -/
def attributes (o : HostObject Value) : Entries Text Value := Entries.ofList o.state

/-- The public properties in order of first definition, each as its most
derived class defines it. -/
def properties (o : HostObject Value) : Entries Text (Property Value) :=
  Entries.ofList (((o.classes.flatMap HostClass.properties).filter fun p => isPublic p.name).map
    fun p => (p.name, p))

/-- The markers in force. -/
def markers (o : HostObject Value) : Entries Text Marker := collectMarkers [] [] o.classes

/-- What the most derived class that binds a name binds to it. -/
def classBinding? (o : HostObject Value) (name : Text) : Option ClassBinding :=
  o.classes.reverse.findSome? fun c => c.binding? name

/-- What host code failing unguarded comes to. -/
def unguarded : Raised → Obstacle
  | .runtime message => .fault (.getterRuntime message)
  | .value message => .fault (.getterValue message)
  | .resolution code message => .cause (.announced code message)
  | .interrupt message => .fault (.interrupted message)

/-- The value of an attribute read by name. -/
def read (o : HostObject Value) (name : Text) : Except Obstacle Value :=
  match o.classBinding? name with
  | some (.property none) => .error (.fault (.missingAttribute name))
  | some (.property (some getter)) =>
    match getter.reading with
    | .returns v => .ok v
    | .raises r => .error (unguarded r)
  | some (.value v) => .ok ((Entries.get? o.attributes name).getD v)
  | none =>
    match Entries.get? o.attributes name with
    | some v => .ok v
    | none => .error (.fault (.missingAttribute name))

/-! ### The member that names the pairs -/

/-- The name of the method with which an object names its own pairs. -/
def pairsName : Text := lit "name_value_pairs"

/-- What an object has under that name. -/
inductive PairsMember
  | method (r : Reading Value)
  | property (getter : Option (Getter Value))
  /-- Something that is no method. -/
  | value (v : Value)

/-- What a class itself has under that name; the method comes first. -/
def classPairsMember? (c : HostClass Value) : Option PairsMember :=
  match c.pairs with
  | some r => some (.method r)
  | none => (c.binding? pairsName).map fun b => match b with
    | .property getter => .property getter
    | .value v => .value v

/-- What the object has under that name, if it has anything: a property hides
the state, and the state hides all else. -/
def pairsMember? (o : HostObject Value) : Option PairsMember :=
  let held := Entries.get? o.attributes pairsName
  match o.classes.reverse.findSome? classPairsMember? with
  | some (.property getter) => some (.property getter)
  | some (.method r) => some ((held.map PairsMember.value).getD (.method r))
  | some (.value v) =>
    let held := held.getD v
    if v.isNone && held.isNone then none else some (.value held)
  | none => (held.filter fun v => !v.isNone).map .value

end HostObject

end UriExpansion
