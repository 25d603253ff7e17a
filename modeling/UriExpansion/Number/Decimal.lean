/-
UriExpansion/Number/Decimal.lean

Decimal numbers that keep their digits and exponent, and their text.

`Decimal.toText` is the to-scientific-string conversion of general decimal
arithmetic: the coefficient is written with a decimal point while the
exponent is not positive and the number is at least `1E-6` in magnitude of
its leading digit, and in scientific notation otherwise, so that the
coefficient and the exponent can be read off the text.
-/
import UriExpansion.Text.Digit

namespace UriExpansion

/-- A decimal number. -/
inductive Decimal
  /-- `± coefficient · 10 ^ exponent`. -/
  | finite (negative : Bool) (coefficient : Nat) (exponent : Int)
  | infinite (negative : Bool)
  /-- Not a number, quiet or signaling, with a diagnostic number.  None of
  these equals any other; `occurrence` tells them apart and is not shown. -/
  | nan (negative signaling : Bool) (payload occurrence : Nat)
  deriving DecidableEq, Repr, Inhabited

namespace Decimal

/-- The digits after a sign: a point, if any, may stand anywhere among them. -/
def readFinite? (negative : Bool) (t : Text) : Option Decimal :=
  let mantissa := t.takeWhile (fun (c : CodePoint) => c ≠ 'e' ∧ c ≠ 'E')
  let tail := t.drop mantissa.length
  let whole := mantissa.takeWhile CodePoint.isDigit
  let fraction? : Option Text := match mantissa.drop whole.length with
    | [] => some []
    | c :: rest => if c = '.' ∧ rest.all CodePoint.isDigit then some rest else none
  let exponent? : Option Int := match tail with
    | [] => some 0
    | _ :: rest =>
      let (minus, digits) : Bool × Text := match rest with
        | c :: more => if c = '-' then (true, more) else if c = '+' then (false, more) else (false, rest)
        | [] => (false, [])
      if digits.isEmpty || !digits.all CodePoint.isDigit then none
      else
        let n : Int := Text.decimalValue digits
        some (if minus then -n else n)
  match fraction?, exponent? with
  | some fraction, some e =>
    if whole.isEmpty && fraction.isEmpty then none
    else some (.finite negative (Text.decimalValue (whole ++ fraction)) (e - fraction.length))
  | _, _ => none

/-- The number that a text writes in the digits of any script, with white space
around it and digit separators `_` ignored. -/
def read? (t : Text) : Option Decimal :=
  let t := (t.trim.filter (fun c => c ≠ CodePoint.scalar '_')).map CodePoint.asciiDigit
  let (negative, rest) : Bool × Text := match t with
    | c :: more => if c = '-' then (true, more) else if c = '+' then (false, more) else (false, t)
    | [] => (false, [])
  let name := rest.toLower
  if name = lit "inf" ∨ name = lit "infinity" then some (.infinite negative)
  else
    let letters := name.takeWhile (fun c => !c.isDigit)
    let digits := name.drop letters.length
    if letters = lit "nan" ∧ digits.all CodePoint.isDigit then
      some (.nan negative false (Text.decimalValue digits) 0)
    else if letters = lit "snan" ∧ digits.all CodePoint.isDigit then
      some (.nan negative true (Text.decimalValue digits) 0)
    else readFinite? negative rest

/-- The digits of a coefficient with the exponent shown by a point or by `E`. -/
def layOut (coefficient : Nat) (exponent : Int) : Text :=
  let digits := Text.ofNat coefficient
  let leading := exponent + digits.length - 1
  if exponent ≤ 0 ∧ -6 ≤ leading then
    if exponent = 0 then digits
    else
      let places := (-exponent).toNat
      let padded := List.replicate (places + 1 - digits.length) (CodePoint.scalar '0') ++ digits
      padded.take (padded.length - places) ++ lit "." ++ padded.drop (padded.length - places)
  else
    digits.take 1 ++ (if digits.length = 1 then [] else lit "." ++ digits.drop 1) ++ lit "E"
      ++ (if leading < 0 then lit "-" else lit "+") ++ Text.ofNat leading.natAbs

/-- The same number; one that is not a number gets a mark of its own. -/
def withOccurrence (occurrence : Nat) : Decimal → Decimal
  | nan negative signaling payload _ => nan negative signaling payload occurrence
  | d => d

/-- The text of a number. -/
def toText : Decimal → Text
  | finite negative coefficient exponent =>
    (if negative then lit "-" else []) ++ layOut coefficient exponent
  | infinite negative => (if negative then lit "-" else []) ++ lit "Infinity"
  | nan negative signaling payload _ =>
    (if negative then lit "-" else []) ++ (if signaling then lit "sNaN" else lit "NaN")
      ++ (if payload = 0 then [] else Text.ofNat payload)

end Decimal

end UriExpansion
