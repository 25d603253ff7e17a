/-
UriExpansion/Yaml/ScalarValue.lean

The values that the texts of scalars denote.

A scalar of a kind other than text denotes a number, a truth value, a date or
octets.  Its text need not have been recognised as one of the kind: a tag can
put any text there, so every reader here has to refuse what it cannot read.
-/
import UriExpansion.Text.Base64
import UriExpansion.Text.Digit
import UriExpansion.Value
import UriExpansion.Yaml.Tag

namespace UriExpansion.Yaml

/-- An integer in the given base, with a sign, white space around it, and the
base's mark before it. -/
def integerIn? (base : Nat) (t : Text) : Option Int :=
  let (negative, t) := Binary64.readSign t.numeral
  let mark := if base = 2 then lit "0b" else if base = 8 then lit "0o"
    else if base = 16 then lit "0x" else []
  let digits := if mark ≠ [] ∧ mark.isPrefixOf t.toLower then t.drop 2 else t
  if digits.isEmpty then none
  else
    let n? := digits.foldlM (fun n c => match c.hexValue? with
      | some d => if d < base then some (n * base + d) else none
      | none => none) 0
    n?.map fun (n : Nat) => if negative then Int.negOfNat n else (n : Int)

/-- A decimal integer that is not too long. -/
def decimalIn (t : Text) : Except Failure Int :=
  if maxDigits < (t.numeral.filter CodePoint.isDigit).length then .error (.fault .integerTooLong)
  else match integerIn? 10 t with
    | some n => .ok n
    | none => .error (.fault .badScalar)

/-- Text without digit separators and sign, and whether the sign is a minus. -/
def splitSign (t : Text) : Except Failure (Bool × Text) :=
  let t := t.filter fun c => c ≠ CodePoint.scalar '_'
  match t with
  | [] => .error (.fault .emptyScalar)
  | _ => .ok (Binary64.readSign t)

/-- The integer that a scalar denotes. -/
def integerOf (t : Text) : Except Failure Int := do
  let (negative, t) ← splitSign t
  let n : Int ←
    if t = lit "0" then pure 0
    else if (lit "0b").isPrefixOf t then
      match integerIn? 2 (t.drop 2) with
      | some n => pure n
      | none => throw (.fault .badScalar)
    else if (lit "0x").isPrefixOf t then
      match integerIn? 16 (t.drop 2) with
      | some n => pure n
      | none => throw (.fault .badScalar)
    else match t with
      | [] => throw (.fault .emptyScalar)
      | c :: _ =>
        if c = '0' then
          match integerIn? 8 t with
          | some n => pure n
          | none => throw (.fault .badScalar)
        else if t.elem (CodePoint.scalar ':') then do
          let parts ← (t.split ':').mapM decimalIn
          pure (parts.foldl (fun n d => n * 60 + d) 0)
        else decimalIn t
  return if negative then -n else n

/-- The number with the opposite sign. -/
def negated (x : Binary64) : Binary64 := ⟨x.bits ^^^ 0x8000000000000000⟩

/-- A power of sixty, unless it is beyond all finite numbers. -/
def powerOfSixty (k : Nat) : Except Failure Binary64 :=
  let x := Binary64.ofRatio false (Nat.pow 60 k) 1
  if x = Binary64.infinity false then .error (.fault .numberTooLarge) else .ok x

/-- The sum of `sum` and parts each worth sixty times the one before it, the
first of them worth `60 ^ k`, added up in this order. -/
def sexagesimalFrom (k : Nat) (sum : Float) : List Binary64 → Except Failure Binary64
  | [] => .ok ⟨sum.toBits⟩
  | x :: rest => do
    let worth ← powerOfSixty k
    sexagesimalFrom (k + 1) (sum + Float.ofBits x.bits * Float.ofBits worth.bits) rest

/-- A floating-point numeral with white space around it. -/
def floatIn (t : Text) : Except Failure Binary64 :=
  match Binary64.read? t.numeral with
  | some x => .ok x
  | none => .error (.fault .badScalar)

/-- The floating-point number that a scalar denotes.  The spelling `.nan` stands
for one and the same; what is not a number otherwise is one of its own, told
apart by `occurrence`. -/
def floatOf (occurrence : Nat) (t : Text) : Except Failure Binary64 := do
  let (negative, t) ← splitSign t.toLower
  let x ←
    if t = lit ".inf" then pure (Binary64.infinity false)
    else if t = lit ".nan" then pure Binary64.nan
    else if t.elem (CodePoint.scalar ':') then do
      let parts ← (t.split ':').mapM floatIn
      sexagesimalFrom 0 0.0 parts.reverse
    else floatIn t
  return if t = lit ".nan" then x else (if negative then negated x else x).withPayload occurrence

/-- The truth value that a scalar denotes. -/
def booleanOf (t : Text) : Except Failure Bool :=
  let name := t.toLower
  if name = lit "yes" ∨ name = lit "true" ∨ name = lit "on" then .ok true
  else if name = lit "no" ∨ name = lit "false" ∨ name = lit "off" then .ok false
  else .error (.fault .unknownSpelling)

/-- The offset in seconds that a zone denotes: less than a day. -/
def offsetOf : Option (List Char × List Char × List Char) → Except Failure (Option Int)
  | none => .ok none
  | some (sign, hour, minute) =>
    let seconds := Text.decimalValue (ofChars hour) * 3600 + Text.decimalValue (ofChars minute) * 60
    if 86400 ≤ seconds then .error (.fault .badScalar)
    else .ok (some (if sign = ['-'] then -(seconds : Int) else (seconds : Int)))

/-- The date or moment that a timestamp denotes. -/
def dateOf (t : Text) : Except Failure Value := do
  let number := fun (cs : List Char) => Text.decimalValue (ofChars cs)
  match t.toString?.bind fun s => timestamp? (withoutLastBreak s.toList) with
  | none => throw (.fault .missingPart)
  | some stamp =>
    let date : Date := ⟨number stamp.year, number stamp.month, number stamp.day⟩
    match stamp.time with
    | none => if date.isValid then return .date date else throw (.fault .badScalar)
    | some (hour, minute, second, fraction) =>
      let digits := fraction.take 6
      let clock : Clock := ⟨number hour, number minute, number second,
        number (digits ++ List.replicate (6 - digits.length) '0')⟩
      let offset ← offsetOf stamp.zone
      if date.isValid && clock.isValid then return .moment ⟨date, clock, offset⟩
      else throw (.fault .badScalar)

/-- Why a text is not one of the first 128 characters: the first of the others, or
where those begin and end that stand in a row there. -/
def notAscii? (t : Text) : Option Text :=
  match t.dropWhile fun c => c.toNat < 128 with
  | [] => none
  | c :: rest =>
    let first := t.length - (rest.length + 1)
    let more := (rest.takeWhile fun c => 128 ≤ c.toNat).length
    let place :=
      if more = 0 then lit "character '" ++ Text.numericEscape c.toNat ++ lit "' in position " ++ Text.ofNat first
      else lit "characters in position " ++ Text.ofNat first ++ lit "-" ++ Text.ofNat (first + more)
    some (lit "'ascii' codec can't encode " ++ place ++ lit ": ordinal not in range(128)")

/-- The octets that a scalar denotes, which begins at `start`. -/
def octetsOf (start : Mark) (t : Text) : Except Failure (List UInt8) :=
  match notAscii? t with
  | some reason => .error (start.failure (lit "failed to convert base64 data into ascii: " ++ reason))
  | none =>
    match Text.base64 t with
    | .ok octets => .ok octets
    | .error reason => .error (start.failure (lit "failed to decode base64 data: " ++ reason))

end UriExpansion.Yaml
