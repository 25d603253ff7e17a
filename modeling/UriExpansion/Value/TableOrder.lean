/-
UriExpansion/Value/TableOrder.lean

The order in which a set goes through its members.

A set keeps its members in a table with a power of two of places.  Every value
has a 64-bit code, and equal numbers of all kinds have one code.  A member goes
to the place that the low bits of its code name or, if that is taken, to one of
the nine places behind it, and after these to a place that more and more bits
of the code decide (`Table.vacancy`).  The table grows fourfold as soon as
three fifths of it are taken.  The order of the set is that of the places.

The codes of texts, dates and host objects change from one run of a program to
the next.  A set that holds one of them has no order of this kind
(`tableOrder?`).
-/
import UriExpansion.Value.Sameness

namespace UriExpansion

namespace Value

/-! ### Codes -/

/-- Codes of numbers are taken modulo this prime. -/
def codeModulus : Nat := Nat.pow 2 61 - 1

/-- A power modulo the prime, its exponent having at most so many bits. -/
def powerModulo (base : Nat) : Nat → Nat → Nat
  | 0, _ => 1
  | bits + 1, exponent =>
    let square := powerModulo (base * base % codeModulus) bits (exponent / 2)
    if exponent % 2 = 0 then square else base * square % codeModulus

/-- A power modulo the prime.  The exponent may be negative, since exponents
count modulo one less than the prime. -/
def unitPower (base : Nat) (exponent : Int) : Nat :=
  powerModulo base 61 (exponent % ((codeModulus : Int) - 1)).toNat

/-- The code of a magnitude with a sign; the code of `-1` is that of `-2`. -/
def signedCode (negative : Bool) (n : Nat) : UInt64 :=
  if negative then 0 - UInt64.ofNat (if n = 1 then 2 else n) else UInt64.ofNat n

/-- The code of a quantity. -/
def Quantity.code : Quantity → UInt64
  | scaled num den tens =>
    let magnitude := num.natAbs % codeModulus * unitPower (den % codeModulus) (-1) % codeModulus
    signedCode (num < 0) (magnitude * unitPower 10 tens % codeModulus)
  | infinite negative => signedCode negative 314159

/-- The code of a tuple with items of these codes. -/
def sequenceCode (codes : List UInt64) : UInt64 :=
  let first : UInt64 := 11400714785074694791
  let second : UInt64 := 14029467366897019727
  let fifth : UInt64 := 2870177450012600261
  let step := fun (sum code : UInt64) =>
    let sum := sum + code * second
    ((sum <<< 31) ||| (sum >>> 33)) * first
  let code := codes.foldl step fifth + (UInt64.ofNat codes.length ^^^ (fifth ^^^ 3527539))
  if code = 0 - 1 then 1546275796 else code

/-- The code of a span of time in microseconds: that of its days, its seconds
and its microseconds. -/
def spanCode (span : Int) : UInt64 :=
  let code := fun (n : Int) => (Quantity.scaled n 1 0).code
  sequenceCode [code (span / 86400000000), code (span % 86400000000 / 1000000),
    code (span % 1000000)]

mutual

/-- The code of a value, if it is the same in every run. -/
def code? : Value → Option UInt64
  | str [] => some 0
  | bytes [] => some 0
  | uuid u => some (Quantity.scaled u.value 1 0).code
  | moment m => if m.offset.isSome then some (spanCode m.instant) else .none
  | time t => if t.offset.isSome then some (spanCode t.instant) else .none
  | tuple items => (codes? items).map sequenceCode
  | v => v.quantity?.map Quantity.code

/-- The codes of values. -/
def codes? : List Value → Option (List UInt64)
  | [] => some []
  | v :: rest =>
    match code? v, codes? rest with
    | some code, some codes => some (code :: codes)
    | _, _ => .none

end

/-! ### Tables -/

/-- The places of a set, the taken ones with a code and its value, and their
number. -/
structure Table where
  places : Array (Option (UInt64 × Value))
  taken : Nat

namespace Table

/-- The first free place among those that stand together from place `i` on:
ten of them, or only `i` itself near the end of the table. -/
def nearby? (places : Array (Option (UInt64 × Value))) (i : Nat) : Option Nat :=
  let count := if i + 9 < places.size then 10 else 1
  ((List.range count).map (i + ·)).find? fun j => (places.getD j .none).isNone

/-- The free place that a code leads to, from place `i` on.  `bits` is what is
left of the code; once it is used up, the walk comes by every place, so its
length is bounded. -/
def vacancy (places : Array (Option (UInt64 × Value))) : Nat → Nat → Nat → Nat
  | 0, i, _ => i
  | steps + 1, i, bits =>
    match nearby? places i with
    | some j => j
    | .none => vacancy places steps ((i * 5 + 1 + bits / 32) % places.size) (bits / 32)

/-- Puts a value in its place. -/
def put (places : Array (Option (UInt64 × Value))) (member : UInt64 × Value) :
    Array (Option (UInt64 × Value)) :=
  let code := member.1.toNat
  places.setIfInBounds (vacancy places (places.size + 14) (code % places.size) code) (some member)

/-- A table without members. -/
def empty : Table := ⟨Array.replicate 8 .none, 0⟩

/-- The members in the order of their places. -/
def members (t : Table) : List (UInt64 × Value) := t.places.toList.filterMap id

/-- The size to which a table with so many members grows. -/
def grownSize (taken : Nat) : Nat :=
  let least := if 50000 < taken then taken * 2 else taken * 4
  max 8 (Nat.pow 2 (least.log2 + 1))

/-- The table with one more member. -/
def add (t : Table) (member : UInt64 × Value) : Table :=
  let places := put t.places member
  let taken := t.taken + 1
  if taken * 5 < (places.size - 1) * 3 then ⟨places, taken⟩
  else
    let wider := Array.replicate (grownSize taken) .none
    ⟨(Table.members ⟨places, taken⟩).foldl put wider, taken⟩

end Table

/-- Different values in the order in which a set goes through them when they
have been added one after the other, if all of them have codes. -/
def tableOrder? (items : List Value) : Option (List Value) :=
  (codes? items).map fun codes =>
    ((codes.zip items).foldl Table.add Table.empty).members.map Prod.snd

end Value

end UriExpansion
