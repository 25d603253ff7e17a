/-
UriExpansion/Json/Reader.lean

Reading a JSON document.

Besides what the format has, the three names `NaN`, `Infinity` and
`-Infinity` are numbers.  Of two members with one name the first gives the
place and the last the value.  An escaped surrogate is joined with the one
that completes it, and kept if there is none.

A reader returns what it leaves unread, and a refusal says how many
characters were left where it arose; `read` turns that number into an offset
(`Refusal.render`).
-/
import UriExpansion.Value.Display

namespace UriExpansion.Json

/-- What is wrong with a document. -/
inductive Reason
  | expectedValue
  | expectedName
  | expectedColon
  | expectedComma
  | extraData
  | controlCharacter
  | unterminatedString
  | badEscape
  | badNumericEscape
  | byteOrderMark
  deriving DecidableEq, Repr

/-- The wording of a reason. -/
def Reason.message : Reason → Text
  | expectedValue => lit "Expecting value"
  | expectedName => lit "Expecting property name enclosed in double quotes"
  | expectedColon => lit "Expecting ':' delimiter"
  | expectedComma => lit "Expecting ',' delimiter"
  | extraData => lit "Extra data"
  | controlCharacter => lit "Invalid control character at"
  | unterminatedString => lit "Unterminated string starting at"
  | badEscape => lit "Invalid \\escape"
  | badNumericEscape => lit "Invalid \\uXXXX escape"
  | byteOrderMark => lit "Unexpected UTF-8 BOM (decode using utf-8-sig)"

/-- Why a document has no value. -/
inductive Failure
  /-- The text is at fault where so many characters are left. -/
  | refused (reason : Reason) (left : Nat)
  | fault (f : Fault)
  deriving DecidableEq, Repr

/-- A refusal of the text at the beginning of `rest`. -/
def refuse {α : Type} (reason : Reason) (rest : List Char) : Except Failure α :=
  .error (.refused reason rest.length)

/-- White space of the format. -/
def isSpace (c : Char) : Bool := c = ' ' || c = '\t' || c = '\n' || c = '\r'

/-- The text after white space. -/
def skip (cs : List Char) : List Char := cs.dropWhile isSpace

/-! ### Strings -/

/-- The number that four hexadecimal digits write. -/
def fourDigits? (a b c d : Char) : Option Nat := Text.hexValue? [.scalar a, .scalar b, .scalar c, .scalar d]

/-- The character that a one-letter escape stands for. -/
def escape? (c : Char) : Option Char :=
  match c with
  | '"' => some '"'
  | '\\' => some '\\'
  | '/' => some '/'
  | 'b' => some '\x08'
  | 'f' => some '\x0c'
  | 'n' => some '\n'
  | 'r' => some '\r'
  | 't' => some '\t'
  | _ => none

/-- The code point that a surrogate and the one after it form. -/
def joined (high low : Nat) : CodePoint :=
  (CodePoint.ofNat? (0x10000 + (high - 0xD800) * 0x400 + (low - 0xDC00))).getD default

/-- A code point by its number, which has four hexadecimal digits. -/
def codePoint (n : Nat) : CodePoint := (CodePoint.ofNat? n).getD default

/-- The number of a second half written as an escape at the beginning of `rest`,
`none` if there is no escape; a text must go on behind it. -/
def secondHalf? (rest : List Char) : Except Failure (Option Nat) :=
  match rest with
  | '\\' :: 'u' :: a :: b :: c :: d :: _ :: _ =>
    match fourDigits? a b c d with
    | some n => .ok (some n)
    | none => refuse .badNumericEscape (rest.drop 1)
  | _ => .ok none

/-- The text of a string up to its closing quote, and what follows the quote;
`opening` is the rest at the opening quote. -/
def string (opening : List Char) : List Char → Except Failure (Text × List Char)
  | [] => refuse .unterminatedString opening
  | '"' :: rest => .ok ([], rest)
  | ['\\'] => refuse .unterminatedString opening
  | '\\' :: 'u' :: rest =>
    match rest with
    | a :: b :: c :: d :: e :: rest' =>
      match fourDigits? a b c d with
      | none => refuse .badNumericEscape ('u' :: rest)
      | some n =>
        if 0xD800 ≤ n ∧ n < 0xDC00 then
          match secondHalf? (e :: rest') with
          | .error f => .error f
          | .ok (some m) =>
            if 0xDC00 ≤ m ∧ m < 0xE000 then
              match rest' with
              | _ :: _ :: _ :: _ :: _ :: rest'' => do
                let (t, after) ← string opening rest''
                return (joined n m :: t, after)
              | _ => refuse .unterminatedString opening
            else do
              let (t, after) ← string opening (e :: rest')
              return (codePoint n :: t, after)
          | .ok none => do
            let (t, after) ← string opening (e :: rest')
            return (codePoint n :: t, after)
        else do
          let (t, after) ← string opening (e :: rest')
          return (codePoint n :: t, after)
    | _ => refuse .badNumericEscape ('u' :: rest)
  | '\\' :: c :: rest =>
    match escape? c with
    | none => refuse .badEscape ('\\' :: c :: rest)
    | some e => do
      let (t, after) ← string opening rest
      return (.scalar e :: t, after)
  | c :: rest =>
    if c.toNat < 0x20 then refuse .controlCharacter (c :: rest)
    else do
      let (t, after) ← string opening rest
      return (.scalar c :: t, after)

/-! ### Numbers -/

/-- Characters as text. -/
def ofChars (cs : List Char) : Text := cs.map CodePoint.scalar

/-- The digits at the beginning of a text, and the rest. -/
def digitRun (cs : List Char) : List Char × List Char :=
  (cs.takeWhile Char.isDigit, cs.dropWhile Char.isDigit)

/-- A fraction at the beginning of a text: its digits, if there are any. -/
def fraction : List Char → Option (List Char) × List Char
  | '.' :: d :: rest =>
    if d.isDigit then (some (digitRun (d :: rest)).1, (digitRun (d :: rest)).2)
    else (none, '.' :: d :: rest)
  | cs => (none, cs)

/-- An exponent at the beginning of a text, if there is one. -/
def exponent (cs : List Char) : Option Int × List Char :=
  match cs with
  | e :: rest =>
    if e = 'e' ∨ e = 'E' then
      let (negative, digits) := match rest with
        | '-' :: more => (true, more)
        | '+' :: more => (false, more)
        | _ => (false, rest)
      let (run, after) := digitRun digits
      if run.isEmpty then (none, cs)
      else
        let n : Int := Text.decimalValue (ofChars run)
        (some (if negative then -n else n), after)
    else (none, cs)
  | [] => (none, [])

/-- The whole digits of a number: a zero, or digits that begin with another. -/
def whole? : List Char → Option (List Char × List Char)
  | '0' :: rest => some (['0'], rest)
  | c :: rest => if c.isDigit then some (digitRun (c :: rest)) else none
  | [] => none

/-- A number at the beginning of a text. -/
def number (cs : List Char) : Except Failure (Value × List Char) :=
  let (negative, body) := match cs with
    | '-' :: rest => (true, rest)
    | _ => (false, cs)
  match whole? body with
  | none => refuse .expectedValue cs
  | some (digits, rest) =>
    let (fraction?, rest) := fraction rest
    let (exponent?, rest) := exponent rest
    match fraction?, exponent? with
    | none, none =>
      if maxDigits < digits.length then .error (.fault .integerTooLong)
      else
        let n : Int := Text.decimalValue (ofChars digits)
        .ok (.int (if negative then -n else n), rest)
    | _, _ =>
      let places := fraction?.getD []
      .ok (.float (Binary64.ofDecimal negative (Text.decimalValue (ofChars (digits ++ places)))
        (exponent?.getD 0 - places.length)), rest)

/-! ### Values -/

/-- A name that is a value, and the rest. -/
def named? (cs : List Char) : Option (Value × List Char) :=
  let names : List (String × Value) := [("null", .none), ("true", .bool true), ("false", .bool false),
    ("NaN", .float Binary64.nan), ("Infinity", .float (Binary64.infinity false)),
    ("-Infinity", .float (Binary64.infinity true))]
  (names.find? fun e => e.1.toList.isPrefixOf cs).map fun e => (e.2, cs.drop e.1.length)

/-- The number of collections that may enclose one another. -/
def maxDepth : Nat := 985

mutual

/-- A value at the beginning of a text, which `room` collections more may
nest; `bound` limits the number of steps. -/
def value (room : Nat) : Nat → List Char → Except Failure (Value × List Char)
  | 0, cs => refuse .expectedValue cs
  | bound + 1, cs =>
    match cs with
    | '"' :: rest => do
      let (t, after) ← string cs rest
      return (.str t, after)
    | '{' :: rest =>
      if room = 0 then .error (.fault .nestedTooDeep)
      else match skip rest with
        | '}' :: after => .ok (.map [], after)
        | members => do
          let (entries, after) ← object (room - 1) bound members
          return (.map (Value.bindAll entries), after)
    | '[' :: rest =>
      if room = 0 then .error (.fault .nestedTooDeep)
      else match skip rest with
        | ']' :: after => .ok (.list [], after)
        | items => do
          let (values, after) ← array (room - 1) bound items
          return (.list values, after)
    | _ =>
      match named? cs with
      | some r => .ok r
      | none => number cs

/-- Values with commas between them up to the closing bracket. -/
def array (room : Nat) : Nat → List Char → Except Failure (List Value × List Char)
  | 0, cs => refuse .expectedValue cs
  | bound + 1, cs => do
    let (v, after) ← value room bound cs
    match skip after with
    | ']' :: rest => return ([v], rest)
    | ',' :: rest =>
      let (vs, after) ← array room bound (skip rest)
      return (v :: vs, after)
    | rest => refuse .expectedComma rest

/-- Members with commas between them up to the closing brace. -/
def object (room : Nat) : Nat → List Char → Except Failure (List (Value × Value) × List Char)
  | 0, cs => refuse .expectedName cs
  | bound + 1, cs =>
    match cs with
    | '"' :: rest => do
      let (name, after) ← string cs rest
      match skip after with
      | ':' :: rest =>
        let (v, after) ← value room bound (skip rest)
        match skip after with
        | '}' :: rest => return ([(.str name, v)], rest)
        | ',' :: rest =>
          let (members, after) ← object room bound (skip rest)
          return ((.str name, v) :: members, after)
        | rest => refuse .expectedComma rest
      | rest => refuse .expectedColon rest
    | _ => refuse .expectedName cs

end

/-- The value of a document.  A step reads at least one character unless it
goes from a list to its next item, and two such steps never follow each other,
so twice the length of the document bounds the steps. -/
def read (cs : List Char) : Except Failure Value :=
  if cs.head? = some '\uFEFF' then refuse .byteOrderMark cs
  else do
    let (v, after) ← value maxDepth (2 * cs.length + 2) (skip cs)
    match skip after with
    | [] => return v
    | rest => refuse .extraData rest

/-- A refusal with the line, column and offset at which it arose. -/
def render (reason : Reason) (cs : List Char) (left : Nat) : Text :=
  let position := cs.length - left
  let before := cs.take position
  let column := (before.reverse.takeWhile (· ≠ '\n')).length + 1
  reason.message ++ lit ": line " ++ Text.ofNat (before.count '\n' + 1) ++ lit " column "
    ++ Text.ofNat column ++ lit " (char " ++ Text.ofNat position ++ lit ")"

end UriExpansion.Json
