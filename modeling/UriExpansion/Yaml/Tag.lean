/-
UriExpansion/Yaml/Tag.lean

The kinds of scalars, and which kind a plain scalar is of.

A plain scalar is a truth value, a number, null, a timestamp, or one of the
marks `<<` and `=`, if it is spelled like one under YAML 1.1; else it is
text.  Each spelling is a predicate on the characters.
-/
import UriExpansion.Yaml.ScalarText

namespace UriExpansion.Yaml

/-- The common beginning of the standard tags. -/
def standardTag (name : String) : Text := lit "tag:yaml.org,2002:" ++ lit name

/-- Characters without a line feed at their end, unless it is the only one. -/
def withoutLastBreak (cs : List Char) : List Char :=
  if cs.getLast? = some '\n' && 1 < cs.length then cs.dropLast else cs

/-! ### Spellings -/

/-- A digit or a separator of digits. -/
def isDigitOrBar (c : Char) : Bool := c.isDigit || c = '_'

/-- The characters after an optional sign. -/
def unsigned : List Char → List Char
  | '+' :: rest => rest
  | '-' :: rest => rest
  | cs => cs

/-- Truth values. -/
def isBoolean (cs : List Char) : Bool :=
  String.ofList cs ∈ ["yes", "Yes", "YES", "no", "No", "NO", "true", "True", "TRUE", "false", "False",
    "FALSE", "on", "On", "ON", "off", "Off", "OFF"]

/-- Null. -/
def isNull (cs : List Char) : Bool := String.ofList cs ∈ ["", "~", "null", "Null", "NULL"]

/-- Nothing, or `e`, a sign and digits. -/
def isExponent : List Char → Bool
  | [] => true
  | e :: sign :: digits =>
    (e = 'e' || e = 'E') && (sign = '+' || sign = '-') && !digits.isEmpty && digits.all Char.isDigit
  | _ => false

/-- The tail of a number in base sixty: groups of one or two digits below
sixty, each after a colon, and what `last` accepts. -/
def isSexagesimalTail (last : List Char → Bool) : List Char → Bool
  | ':' :: a :: b :: rest =>
    (a.isDigit && a < '6' && b.isDigit && (last rest || isSexagesimalTail last rest))
      || (a.isDigit && (last (b :: rest) || isSexagesimalTail last (b :: rest)))
  | ':' :: a :: rest => a.isDigit && last rest
  | _ => false

/-- A number with a point; an exponent needs its sign. -/
def isFloat (cs : List Char) : Bool :=
  let body := unsigned cs
  let digits := body.takeWhile isDigitOrBar
  let rest := body.drop digits.length
  let decimal := match rest with
    | '.' :: fraction => isExponent (fraction.dropWhile isDigitOrBar)
    | _ => false
  let sexagesimal := isSexagesimalTail (fun last => match last with
    | '.' :: fraction => fraction.all isDigitOrBar
    | _ => false) rest
  let bare := match cs with
    | '.' :: first :: fraction => first.isDigit && isExponent (fraction.dropWhile isDigitOrBar)
    | _ => false
  ((digits.head?.any Char.isDigit) && (decimal || sexagesimal)) || bare
    || String.ofList body ∈ [".inf", ".Inf", ".INF"] || String.ofList cs ∈ [".nan", ".NaN", ".NAN"]

/-- An integer in base two, eight, ten, sixteen or sixty. -/
def isInteger (cs : List Char) : Bool :=
  match unsigned cs with
  | ['0'] => true
  | '0' :: 'b' :: digits => !digits.isEmpty && digits.all fun c => c = '0' || c = '1' || c = '_'
  | '0' :: 'x' :: digits => !digits.isEmpty && digits.all fun c => isHex c || c = '_'
  | '0' :: digits => digits.all fun c => ('0' ≤ c && c ≤ '7') || c = '_'
  | first :: rest =>
    first.isDigit
      && (let more := rest.dropWhile isDigitOrBar
          more.isEmpty || isSexagesimalTail List.isEmpty more)
  | [] => false

/-! ### Timestamps -/

/-- The parts of a timestamp as they are written. -/
structure Timestamp where
  year : List Char
  month : List Char
  day : List Char
  /-- Hour, minute, second and fraction, if a time is given. -/
  time : Option (List Char × List Char × List Char × List Char)
  /-- `none` without a zone; else the sign, hour and minute, all empty for `Z`. -/
  zone : Option (List Char × List Char × List Char)

/-- Exactly `n` digits, and the rest. -/
def digitsExactly? (n : Nat) (cs : List Char) : Option (List Char × List Char) :=
  let run := cs.take n
  if run.length = n && run.all Char.isDigit then some (run, cs.drop n) else none

/-- Two digits, or else one, and the rest. -/
def oneOrTwoDigits? (cs : List Char) : Option (List Char × List Char) :=
  (digitsExactly? 2 cs).or (digitsExactly? 1 cs)

/-- The characters after a given one. -/
def after? (c : Char) : List Char → Option (List Char)
  | d :: rest => if c = d then some rest else none
  | [] => none

/-- A zone that takes up all characters, or nothing. -/
def zone? (cs : List Char) : Option (Option (List Char × List Char × List Char)) :=
  if cs.isEmpty then some none
  else match cs.dropWhile (fun c => c = ' ' || c = '\t') with
    | ['Z'] => some (some ([], [], []))
    | sign :: rest =>
      if sign = '+' || sign = '-' then do
        let (hour, rest) ← oneOrTwoDigits? rest
        match rest with
        | [] => some (some ([sign], hour, []))
        | _ =>
          let rest ← after? ':' rest
          let (minute, rest) ← digitsExactly? 2 rest
          if rest.isEmpty then some (some ([sign], hour, minute)) else none
      else none
    | [] => none

/-- Reads a timestamp: a date, or a date and a time with an optional fraction
and zone. -/
def timestamp? (cs : List Char) : Option Timestamp := do
  let (year, rest) ← digitsExactly? 4 cs
  let rest ← after? '-' rest
  let (month, rest) ← oneOrTwoDigits? rest
  let rest ← after? '-' rest
  let (day, rest) ← oneOrTwoDigits? rest
  match rest with
  | [] => some ⟨year, month, day, none, none⟩
  | between :: rest =>
    let rest ← if between = 'T' || between = 't' then some rest
      else if between = ' ' || between = '\t' then
        some (rest.dropWhile fun c => c = ' ' || c = '\t')
      else none
    let (hour, rest) ← oneOrTwoDigits? rest
    let rest ← after? ':' rest
    let (minute, rest) ← digitsExactly? 2 rest
    let rest ← after? ':' rest
    let (second, rest) ← digitsExactly? 2 rest
    let (fraction, rest) := match rest with
      | '.' :: more => (more.takeWhile Char.isDigit, more.dropWhile Char.isDigit)
      | _ => ([], rest)
    let zone ← zone? rest
    some ⟨year, month, day, some (hour, minute, second, fraction), zone⟩

/-- Whether a plain scalar is a timestamp: a date alone needs two digits for
month and day. -/
def isTimestamp (cs : List Char) : Bool :=
  match timestamp? cs with
  | none => false
  | some t => t.time.isSome || (t.month.length = 2 && t.day.length = 2)

/-! ### The kind of a plain scalar -/

/-- The tag of a scalar that is written without one and without quotes. -/
def plainTag (cs : List Char) : Text :=
  if isBoolean cs then standardTag "bool"
  else if isFloat cs then standardTag "float"
  else if isInteger cs then standardTag "int"
  else if cs = ['<', '<'] then standardTag "merge"
  else if isNull cs then standardTag "null"
  else if isTimestamp cs then standardTag "timestamp"
  else if cs = ['='] then standardTag "value"
  else if cs = ['!'] || cs = ['&'] || cs = ['*'] then standardTag "yaml"
  else standardTag "str"

/-- The tag of the text of a scalar that is to be judged like a plain one.  A
line feed at its end does not count. -/
def plainTagOf (t : Text) : Text :=
  match t.toString? with
  | some s => plainTag (withoutLastBreak s.toList)
  | none => standardTag "str"

end UriExpansion.Yaml
