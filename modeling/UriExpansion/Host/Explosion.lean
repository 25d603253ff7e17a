/-
UriExpansion/Host/Explosion.lean

Taking a host object apart into ordered pairs of a label and a value.

An object that names its own pairs is asked for them.  Any other is taken
apart by rule: its public fields, or its public instance attributes if it is
no record, come first; its public properties add to them or replace their
values; markers then rename or exclude.  A value that is absent does not
count.  `HostObject.collected` follows these three steps one after the other.
-/
import UriExpansion.Host.Attribute
import UriExpansion.Value.Sameness

namespace UriExpansion

namespace HostObject

/-- Attributes with their labels and values. -/
abbrev Found := Entries Text (Text × Value)

/-- The first step for a record: its public fields that have a value. -/
def foundFields (o : HostObject Value) : List (Field Value) → Except Obstacle Found
  | [] => .ok []
  | f :: rest =>
    if isPublic f.name then do
      let v ← o.read f.name
      let found ← foundFields o rest
      return if v.isNone then found else (f.name, (f.name, v)) :: found
    else foundFields o rest

/-- The first step for any other object: its public attributes that have a value. -/
def foundAttributes (o : HostObject Value) : Found :=
  (o.attributes.filter fun e => isPublic e.1 && !e.2.isNone).map fun e => (e.1, (e.1, e.2))

/-- How failing host code describes itself. -/
def detail : Raised → Text
  | .runtime message => message
  | .value message => message
  | .resolution code message => lit "<template>: " ++ code ++ lit ": " ++ message
  | .interrupt message => message

/-- What a getter failing under its guard comes to. -/
def propertyFailure (name className : Text) : Raised → Obstacle
  | .interrupt message => .fault (.interrupted message)
  | r => .cause (.getterFailed name className (detail r))

/-- The second step: a property excludes, adds or replaces an attribute. -/
def withProperties (className : Text) (found : Found) :
    List (Text × Property Value) → Except Obstacle Found
  | [] => .ok found
  | (name, p) :: rest =>
    match p.getter with
    | none => withProperties className found rest
    | some getter =>
      if getter.transient then withProperties className (Entries.erase found name) rest
      else match getter.reading with
        | .raises r => .error (propertyFailure name className r)
        | .returns v =>
          if v.isNone then withProperties className found rest
          else withProperties className (Entries.set found name (getter.label.getD name, v)) rest

/-- What a marker does to an attribute that has been found. -/
def applyMarker (found : Found) (name : Text) (marker : Marker) : Found :=
  match Entries.get? found name with
  | none => found
  | some (_, v) =>
    if marker.transient then Entries.erase found name
    else match marker.label with
      | some (c :: label) => Entries.set found name (c :: label, v)
      | _ => found

/-- The third step: markers exclude and rename. -/
def withMarkers (found : Found) (markers : List (Text × Marker)) : Found :=
  markers.foldl (fun found e => applyMarker found e.1 e.2) found

/-- The attributes found by the three steps. -/
def collected (o : HostObject Value) : Except Obstacle Found := do
  let found ← if o.isRecord then o.foundFields o.fields else .ok o.foundAttributes
  let found ← withProperties o.className found o.properties
  return withMarkers found o.markers

/-- The pairs of an object taken apart by rule; of two attributes with one
label the first gives the place and the last the value. -/
def rulePairs (o : HostObject Value) : Except Obstacle (Entries Text Value) :=
  o.collected.map fun found => Entries.ofList (found.map Prod.snd)

end HostObject

namespace Value

/-- The name of a kind of value in messages about iteration. -/
def fullTypeName : Value → Text
  | date _ => lit "datetime.date"
  | moment _ => lit "datetime.datetime"
  | time _ => lit "datetime.time"
  | decimal _ => lit "decimal.Decimal"
  | v => v.typeName

/-- The items that going through a value yields. -/
def items? : Value → Option (List Value)
  | list items => some items
  | tuple items => some items
  | set items => some items
  | str t => some (t.map fun c => str [c])
  | bytes octets => some (octets.map fun b => int b.toNat)
  | map entries => some (entries.map Prod.fst)
  | store entries => some (entries.map Prod.fst)
  | _ => .none

/-- The refusal of a key of a kind. -/
def unhashable (kind : Text) : Text := lit "unhashable type: '" ++ kind ++ lit "'"

mutual

/-- Why a value cannot be a key, if it or a part of it is of such a kind. -/
def notKey? : Value → Option Text
  | list _ => some (unhashable (lit "list"))
  | map _ => some (unhashable (lit "dict"))
  | store _ => some (unhashable (lit "VariableStore"))
  | set _ => some (unhashable (lit "set"))
  | tuple items => anyNotKey? items
  | object o => if o.isRecord then some (unhashable o.className) else .none
  | decimal (.nan _ true _ _) => some (lit "Cannot hash a signaling NaN value")
  | _ => .none

/-- The same for the first such part of a list. -/
def anyNotKey? : List Value → Option Text
  | [] => .none
  | v :: rest => (notKey? v).or (anyNotKey? rest)

end

/-- Reads a sequence of two-element items as entries; `index` items have been
read before.  The error is the wording of what is wrong. -/
def entriesOfItems (index : Nat) (found : List (Value × Value)) :
    List Value → Except Text (List (Value × Value))
  | [] => .ok found
  | item :: rest =>
    match item.items? with
    | .none =>
      .error (lit "cannot convert dictionary update sequence element #" ++ Text.ofNat index
        ++ lit " to a sequence")
    | some [k, v] =>
      match notKey? k with
      | some wording => .error wording
      | .none => entriesOfItems (index + 1) (bind k v found) rest
    | some parts =>
      .error (lit "dictionary update sequence element #" ++ Text.ofNat index
        ++ lit " has length " ++ Text.ofNat parts.length ++ lit "; 2 is required")

/-- The entries of a value that is a mapping or a sequence of two-element items. -/
def toEntries : Value → Except Text (List (Value × Value))
  | map entries => .ok entries
  | store entries => .ok entries
  | v =>
    match v.items? with
    | some items => entriesOfItems 0 [] items
    | .none => .error (lit "'" ++ v.fullTypeName ++ lit "' object is not iterable")

end Value

namespace HostObject

/-- The refusal of an object whose code for naming its pairs failed. -/
def pairsFailure (o : HostObject Value) : Raised → Obstacle
  | .resolution code message => .cause (.announced code message)
  | .interrupt message => .fault (.interrupted message)
  | r => .cause (.pairsFailed o.className (detail r))

/-- The refusal of an object that has something else in place of the method. -/
def notCallable (o : HostObject Value) (v : Value) : Obstacle :=
  .cause (.pairsFailed o.className (lit "'" ++ v.fullTypeName ++ lit "' object is not callable"))

/-- The pairs that an object names itself. -/
def ownPairs (o : HostObject Value) : PairsMember → Except Obstacle (List (Value × Value))
  | .method (.raises r) => .error (o.pairsFailure r)
  | .method (.returns v) =>
    match v.toEntries with
    | .ok entries => .ok entries
    | .error wording => .error (.cause (.pairsFailed o.className wording))
  | .property none =>
    .error (.cause (.pairsFailed o.className (lit "property '" ++ pairsName ++ lit "' of '"
      ++ o.className ++ lit "' object has no getter")))
  | .property (some getter) =>
    match getter.reading with
    | .raises r => .error (o.pairsFailure r)
    | .returns v => .error (o.notCallable v)
  | .value v => .error (o.notCallable v)

/-- The pairs of an object before it is known that there are any. -/
def pairs (o : HostObject Value) : Except Obstacle (List (Value × Value)) :=
  match o.pairsMember? with
  | some m => o.ownPairs m
  | none =>
    if o.isCallable then .error (.cause (.notExplodable o.className))
    else o.rulePairs.map fun pairs => pairs.map fun e => (Value.str e.1, e.2)

end HostObject

namespace Uuid

/-- The octets of an identifier, most significant first. -/
def octets (u : Uuid) : List UInt8 :=
  (List.range 16).map fun i => UInt8.ofNat (u.bits (120 - 8 * i) 8)

/-- The octets with the first three groups least significant first. -/
def swappedOctets (u : Uuid) : List UInt8 :=
  let o := u.octets
  (o.take 4).reverse ++ ((o.drop 4).take 2).reverse ++ ((o.drop 6).take 2).reverse ++ o.drop 8

/-- The layout family of an identifier. -/
def variantText (u : Uuid) : Text :=
  if u.bits 63 1 = 0 then lit "reserved for NCS compatibility"
  else if u.bits 62 1 = 0 then lit "specified in RFC 4122"
  else if u.bits 61 1 = 0 then lit "reserved for Microsoft compatibility"
  else lit "reserved for future definition"

/-- The computed attributes of an identifier. -/
def attributes (u : Uuid) : List (Text × Value) :=
  let nat := fun n : Nat => Value.int n
  let timeLow := u.bits 96 32
  let timeMid := u.bits 80 16
  let timeHigh := u.bits 64 16
  let clockHigh := u.bits 56 8
  let clockLow := u.bits 48 8
  let node := u.bits 0 48
  let standard := u.bits 63 1 = 1 ∧ u.bits 62 1 = 0
  [(lit "bytes", .bytes u.octets),
    (lit "bytes_le", .bytes u.swappedOctets),
    (lit "fields", .tuple (List.map nat [timeLow, timeMid, timeHigh, clockHigh, clockLow, node])),
    (lit "time_low", nat timeLow),
    (lit "time_mid", nat timeMid),
    (lit "time_hi_version", nat timeHigh),
    (lit "clock_seq_hi_variant", nat clockHigh),
    (lit "clock_seq_low", nat clockLow),
    (lit "time", nat (timeHigh % 0x1000 * 0x1000000000000 + timeMid * 0x100000000 + timeLow)),
    (lit "clock_seq", nat (clockHigh % 0x40 * 0x100 + clockLow)),
    (lit "node", nat node),
    (lit "hex", .str u.digits),
    (lit "urn", .str (lit "urn:uuid:" ++ u.toText)),
    (lit "variant", .str u.variantText)]
    ++ (if standard then [(lit "version", nat (u.bits 76 4))] else [])

end Uuid

/-- The pairs of a value, of which there is at least one. -/
def Value.explode (v : Value) : Except Obstacle (List (Value × Value)) := do
  let pairs ← match v with
    | .object o => o.pairs
    | .classObject .. => .error (.cause (.notExplodable v.typeName))
    | .function .. => .error (.cause (.notExplodable v.typeName))
    | .enumMember .. => .error (.cause (.notExplodable v.typeName))
    | .uuid u => .ok (u.attributes.map fun e => (Value.str e.1, e.2))
    | _ => .ok []
  if pairs.isEmpty then throw (.cause (.noPairs v.typeName))
  return pairs

end UriExpansion
