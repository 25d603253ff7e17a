/-
UriExpansion/Number/Binary64.lean

Binary floating-point numbers and their shortest decimal text.

A `Binary64` is its 64 bits.  A finite one denotes `± m · 2 ^ q` with natural
`m`, and everything here is exact arithmetic on `m` and `q`:

* `ofRatio` gives the number nearest to a quotient, ties to even `m`;
* `shortest` gives the fewest decimal digits that read back as the same
  number, and among those the nearest to it.  It tests the two neighbours of
  the number on the grids of 1, 2, … 17 digits; the first grid with a
  neighbour inside the interval of reals that round to the number wins;
* `toText` writes these digits positionally while the decimal point falls
  among the first sixteen digits or at most three zeros before them, and with
  an exponent otherwise.
-/
import UriExpansion.Text

namespace UriExpansion

/-- An IEEE 754 binary64 number by its bits. -/
structure Binary64 where
  bits : UInt64
  deriving DecidableEq, Repr, Inhabited

namespace Binary64

/-- What the bits denote. -/
inductive Datum
  /-- `± m · 2 ^ q`. -/
  | finite (negative : Bool) (m : Nat) (q : Int)
  | infinite (negative : Bool)
  | nan
  deriving DecidableEq, Repr

/-- The number that the bits denote. -/
def datum (x : Binary64) : Datum :=
  let n := x.bits.toNat
  let negative := Nat.pow 2 63 ≤ n
  let field : Nat := n / Nat.pow 2 52 % Nat.pow 2 11
  let fraction : Nat := n % Nat.pow 2 52
  if field = 2047 then if fraction = 0 then .infinite negative else .nan
  else if field = 0 then .finite negative fraction (-1074)
  else .finite negative (fraction + Nat.pow 2 52) ((field : Int) - 1075)

/-- The number with the given sign and magnitude bits. -/
def ofMagnitude (negative : Bool) (n : Nat) : Binary64 :=
  ⟨UInt64.ofNat (n + if negative then Nat.pow 2 63 else 0)⟩

/-- Infinity of either sign. -/
def infinity (negative : Bool) : Binary64 := ofMagnitude negative (2047 * Nat.pow 2 52)

/-- A quiet number that is not one.  There are many of these, and none equals
any other; the payload tells them apart. -/
def nanWith (payload : Nat) : Binary64 :=
  ofMagnitude false (2047 * Nat.pow 2 52 + Nat.pow 2 51 + payload)

/-- The number that is not one, without a payload. -/
def nan : Binary64 := nanWith 0

/-- The same number; one that is not a number gets a payload. -/
def withPayload (payload : Nat) (x : Binary64) : Binary64 :=
  if x.datum = .nan then nanWith payload else x

/-- The quotient rounded to a natural number, ties to even. -/
def roundQuotient (num den : Nat) : Nat :=
  let d := num / den
  let r := num % den
  if 2 * r < den then d else if den < 2 * r then d + 1 else d + d % 2

/-- `num / den` as a quotient of natural numbers after division by `2 ^ q`. -/
def scaled (num den : Nat) (q : Int) : Nat × Nat :=
  if 0 ≤ q then (num, den * Nat.pow 2 q.toNat) else (num * Nat.pow 2 (-q).toNat, den)

/-- The number nearest to `num / den`, ties to even; too large a quotient
gives infinity. -/
def ofRatio (negative : Bool) (num den : Nat) : Binary64 :=
  if num = 0 ∨ den = 0 then ofMagnitude negative 0
  else
    let q₀ := max ((num.log2 : Int) - den.log2 - 53) (-1074)
    let (n₀, d₀) := scaled num den q₀
    let q := if Nat.pow 2 53 ≤ n₀ / d₀ then q₀ + 1 else q₀
    let (n, d) := scaled num den q
    let m := roundQuotient n d
    if m < Nat.pow 2 52 then ofMagnitude negative m
    else
      let magnitude := (q + 1075).toNat * Nat.pow 2 52 + (m - Nat.pow 2 52)
      if 2047 * Nat.pow 2 52 ≤ magnitude then infinity negative else ofMagnitude negative magnitude

/-- The number nearest to `digits · 10 ^ exponent`. -/
def ofDecimal (negative : Bool) (digits : Nat) (exponent : Int) : Binary64 :=
  let size := (Nat.toDigits 10 digits).length
  if digits = 0 then ofMagnitude negative 0
  else if 400 < exponent + size then infinity negative
  else if exponent + size < -400 then ofMagnitude negative 0
  else if 0 ≤ exponent then ofRatio negative (digits * Nat.pow 10 exponent.toNat) 1
  else ofRatio negative digits (Nat.pow 10 (-exponent).toNat)

/-! ### Reading decimal text -/

/-- The digits of a run without separators and the text after it. -/
def digitRun (t : Text) : Text × Text := (t.takeWhile CodePoint.isDigit, t.dropWhile CodePoint.isDigit)

/-- An optional sign: whether it is a minus, and the text after it. -/
def readSign : Text → Bool × Text
  | [] => (false, [])
  | c :: rest => if c = '-' then (true, rest) else if c = '+' then (false, rest) else (false, c :: rest)

/-- The exponent part of a decimal numeral: nothing, or `e` and an integer. -/
def readExponent? : Text → Option Int
  | [] => some 0
  | c :: rest =>
    if c = 'e' || c = 'E' then
      let (negative, digits) := readSign rest
      if digits.isEmpty || !digits.all CodePoint.isDigit then none
      else
        let n : Int := Text.decimalValue digits
        some (if negative then -n else n)
    else none

/-- The number written by an unsigned decimal numeral. -/
def readUnsigned? (negative : Bool) (t : Text) : Option Binary64 :=
  let (whole, rest) := digitRun t
  let (fraction, rest) := match rest with
    | c :: after => if c = '.' then digitRun after else ([], c :: after)
    | [] => ([], [])
  if whole.isEmpty && fraction.isEmpty then none
  else (readExponent? rest).map fun e =>
    ofDecimal negative (Text.decimalValue (whole ++ fraction)) (e - fraction.length)

/-- The number that a text writes: a signed decimal numeral, or a name of
infinity or of the number that is not one, in any case. -/
def read? (t : Text) : Option Binary64 :=
  let (negative, rest) := readSign t
  let name := rest.toLower
  if name = lit "inf" || name = lit "infinity" then some (infinity negative)
  else if name = lit "nan" then some nan
  else readUnsigned? negative rest

/-! ### Shortest text -/

/-- How many digits `num / den` has before the decimal point; for a quotient
below one, minus the number of zeros right after the point. -/
def pointPosition (num den : Nat) : Int :=
  if den ≤ num then (Nat.toDigits 10 (num / den)).length
  else
    let zeros := (List.range 400).find? fun j => decide (den ≤ num * Nat.pow 10 (j + 1))
    Int.negOfNat (zeros.getD 400)

/-- The better of the neighbours of `m · 2 ^ q` on the grid of multiples of
`10 ^ i`, if one of them rounds to it: as a count of grid steps. -/
def neighbour? (m : Nat) (q i : Int) : Option Nat :=
  -- everything is scaled by `4 · 2 ^ -q₂ · 10 ^ -i₂`, where `q₂` and `i₂` are the negative parts
  let two := Nat.pow 2 q.toNat * Nat.pow 10 (-i).toNat
  let step := 4 * Nat.pow 2 (-q).toNat * Nat.pow 10 i.toNat
  let value := 4 * m * two
  let high := (4 * m + 2) * two
  let low := (if m = Nat.pow 2 52 ∧ -1074 < q then 4 * m - 1 else 4 * m - 2) * two
  let below := value / step
  let inside := fun n => if m % 2 = 0 then low ≤ n * step ∧ n * step ≤ high
    else low < n * step ∧ n * step < high
  let closer := if value - below * step < (below + 1) * step - value then below
    else if (below + 1) * step - value < value - below * step then below + 1
    else below + below % 2
  if inside closer ∧ 0 < closer then some closer
  else if inside below ∧ 0 < below then some below
  else if inside (below + 1) then some (below + 1)
  else none

/-- The shortest digits of a positive number `m · 2 ^ q` and the position of
the decimal point relative to their beginning. -/
def shortest (m : Nat) (q : Int) : List Char × Int :=
  let point := pointPosition (m * Nat.pow 2 q.toNat) (Nat.pow 2 (-q).toNat)
  let found := (List.range 17).findSome? fun (n : Nat) =>
    (neighbour? m q (point - (n + 1))).map fun d => (d, point - (n + 1))
  let (d, i) := found.getD (m, q)
  let digits := Nat.toDigits 10 d
  ((digits.reverse.dropWhile (· = '0')).reverse, i + digits.length)

/-- Digits with a decimal point, always with a digit on both sides of it, or
with an exponent of at least two digits. -/
def layOut (digits : List Char) (point : Int) : List Char :=
  if -4 < point ∧ point ≤ 0 then
    ['0', '.'] ++ List.replicate (-point).toNat '0' ++ digits
  else if 0 < point ∧ point ≤ 16 then
    let p := point.toNat
    let padded := digits ++ List.replicate (p - digits.length) '0'
    let fraction := padded.drop p
    padded.take p ++ ['.'] ++ (if fraction.isEmpty then ['0'] else fraction)
  else
    let e := point - 1
    let size := Nat.toDigits 10 e.natAbs
    digits.take 1 ++ (if digits.length = 1 then [] else '.' :: digits.drop 1) ++ ['e']
      ++ [if e < 0 then '-' else '+'] ++ List.replicate (2 - size.length) '0' ++ size

/-- The text of a number: the shortest that reads back as the same number. -/
def toText (x : Binary64) : Text :=
  match x.datum with
  | .nan => lit "nan"
  | .infinite negative => if negative then lit "-inf" else lit "inf"
  | .finite negative m q =>
    let sign : Text := if negative then lit "-" else []
    if m = 0 then sign ++ lit "0.0"
    else
      let (digits, point) := shortest m q
      sign ++ (layOut digits point).map CodePoint.scalar

end Binary64

end UriExpansion
