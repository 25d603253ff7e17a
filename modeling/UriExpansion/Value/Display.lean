/-
UriExpansion/Value/Display.lean

The two ways in which a value of any kind is shown.

Inside a larger value, text stands
between quotes and every kind has brackets or a name of its own
(`Value.quoted`).  On its own, text is shown as it is and dates in ISO 8601
form (`Value.shown`); a key of a mapping that has no text of its own is
written that way.
-/
import UriExpansion.Fault
import UriExpansion.Text.Quoted
import UriExpansion.Value.TableOrder

namespace UriExpansion

/-- The decimal text of an integer that is not too long. -/
def integerText (n : Int) : Except Fault Text :=
  if Nat.pow 10 maxDigits ≤ n.natAbs then .error .integerTooLong else .ok (Text.ofInt n)

namespace Value

/-- Texts with `, ` between them. -/
def commaJoined (parts : List Text) : Text := List.intercalate (lit ", ") parts

/-- An offset as a constructor call. -/
def quotedOffset (offset : Option Int) : List Text :=
  match offset with
  | .none => []
  | some 0 => [lit "tzinfo=datetime.timezone.utc"]
  | some n =>
    let days := n / 86400
    let seconds := n % 86400
    let parts := (if days = 0 then [] else [lit "days=" ++ Text.ofInt days])
      ++ (if seconds = 0 then [] else [lit "seconds=" ++ Text.ofInt seconds])
    [lit "tzinfo=datetime.timezone(datetime.timedelta(" ++ commaJoined parts ++ lit "))"]

/-- A time of day as arguments; trailing zeros are left out. -/
def quotedClock (c : Clock) : List Text :=
  [Text.ofNat c.hour, Text.ofNat c.minute]
    ++ (if c.second = 0 ∧ c.microsecond = 0 then [] else [Text.ofNat c.second])
    ++ (if c.microsecond = 0 then [] else [Text.ofNat c.microsecond])

/-- A date as arguments. -/
def quotedDate (d : Date) : List Text := [Text.ofNat d.year, Text.ofNat d.month, Text.ofNat d.day]

mutual

/-- A value as it is shown inside a larger one. -/
def quoted : Value → Text
  | none => lit "None"
  | bool b => if b then lit "True" else lit "False"
  | int n => Text.ofInt n
  | float x => x.toText
  | decimal d => lit "Decimal('" ++ d.toText ++ lit "')"
  | str t => Text.quoted t
  | uuid u => lit "UUID('" ++ u.toText ++ lit "')"
  | date d => lit "datetime.date(" ++ commaJoined (quotedDate d) ++ lit ")"
  | moment m =>
    lit "datetime.datetime(" ++ commaJoined (quotedDate m.date ++ quotedClock m.clock
      ++ quotedOffset m.offset) ++ lit ")"
  | time t => lit "datetime.time(" ++ commaJoined (quotedClock t.clock ++ quotedOffset t.offset)
      ++ lit ")"
  | enumMember _ c n v => lit "<" ++ c ++ lit "." ++ n ++ lit ": " ++ quoted v ++ lit ">"
  | list items => lit "[" ++ commaJoined (quotedItems items) ++ lit "]"
  | tuple [v] => lit "(" ++ quoted v ++ lit ",)"
  | tuple items => lit "(" ++ commaJoined (quotedItems items) ++ lit ")"
  | map entries => lit "\x7b" ++ commaJoined (quotedEntries entries) ++ lit "\x7d"
  | store entries =>
    lit "VariableStore(\x7b" ++ commaJoined (quotedEntries entries) ++ lit "\x7d)"
  | bytes octets => Text.quotedOctets octets
  | set [] => lit "set()"
  | set items => lit "\x7b" ++ commaJoined (quotedItems items) ++ lit "\x7d"
  | classObject _ n => lit "<class '" ++ n ++ lit "'>"
  | function _ n => lit "<function " ++ n ++ lit ">"
  | object o => lit "<" ++ o.className ++ lit " object>"

/-- The items of a sequence or set. -/
def quotedItems : List Value → List Text
  | [] => []
  | v :: rest => quoted v :: quotedItems rest

/-- The entries of a mapping. -/
def quotedEntries : List (Value × Value) → List Text
  | [] => []
  | (k, v) :: rest => (quoted k ++ lit ": " ++ quoted v) :: quotedEntries rest

end

/-- A value as it is shown on its own. -/
def shown : Value → Except Fault Text
  | int n => integerText n
  | str t => .ok t
  | decimal d => .ok d.toText
  | uuid u => .ok u.toText
  | date d => .ok d.toText
  | moment m => .ok (m.toTextWith (lit " "))
  | time t => .ok t.toText
  | enumMember _ c n _ => .ok (c ++ lit "." ++ n)
  | v => .ok (quoted v)

/-- Values in the order of their texts. -/
def inTextOrder (items : List Value) : List Value :=
  items.mergeSort fun a b => (Text.compare a.quoted b.quoted).isLE

/-- The set that the given members make up, added one after the other, in the
order of its table if it has one and in the order of their texts otherwise. -/
def ofMembers (items : List Value) : Value :=
  let members := distinct items
  .set ((tableOrder? members).getD (inTextOrder members))

end Value

end UriExpansion
