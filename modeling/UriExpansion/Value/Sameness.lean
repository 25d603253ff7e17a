/-
UriExpansion/Value/Sameness.lean

When two values count as the same.

Numbers of all kinds are the same if they are equal, truth values counting as
0 and 1.  Mappings and sets are the same if they hold the same things in
whatever order.  Moments and times with an offset are compared in universal
time and never equal one without.  Host objects and members of enumerations
are the same only if they are one object, and so are numbers that are not
numbers.  `Value.bind` uses this relation for the keys of mappings.
-/
import UriExpansion.Value

namespace UriExpansion.Value

/-- A number as a quotient with a power of ten beside it, or an infinity by
its sign. -/
inductive Quantity
  /-- `num / den · 10 ^ tens`. -/
  | scaled (num : Int) (den : Nat) (tens : Int)
  | infinite (negative : Bool)

/-- An integer with a sign. -/
def signed (negative : Bool) (n : Nat) : Int := if negative then Int.negOfNat n else n

/-- The quantity of a numeric value; what is not a number has none. -/
def quantity? : Value → Option Quantity
  | bool b => some (.scaled (if b then 1 else 0) 1 0)
  | int n => some (.scaled n 1 0)
  | float x =>
    match x.datum with
    | .finite negative m q =>
      some (.scaled (signed negative (m * Nat.pow 2 q.toNat)) (Nat.pow 2 (-q).toNat) 0)
    | .infinite negative => some (.infinite negative)
    | .nan => .none
  | decimal (.finite negative c e) => some (.scaled (signed negative c) 1 e)
  | decimal (.infinite negative) => some (.infinite negative)
  | _ => .none

namespace Quantity

/-- The decimal place of the leading digit of `num / den · 10 ^ tens`, at most
one off: the magnitude lies between `10 ^ (p - 1)` and `10 ^ (p + 1)`. -/
def place (num : Int) (den : Nat) (tens : Int) : Int :=
  ((Nat.toDigits 10 num.natAbs).length : Int) - ((Nat.toDigits 10 den).length : Int) + tens

/-- The order of two quotients, brought to one power of ten. -/
def aligned (a : Int) (b : Nat) (s : Int) (c : Int) (d : Nat) (t : Int) : Ordering :=
  compare (a * (d : Int) * (Nat.pow 10 (s - t).toNat : Int))
    (c * (b : Int) * (Nat.pow 10 (t - s).toNat : Int))

/-- The order of two quantities.  Powers of ten are brought together only
where the signs agree and the leading places are within one of each other, so
that the power they differ by is no longer than the numbers are. -/
def order : Quantity → Quantity → Ordering
  | scaled a b s, scaled c d t =>
    if s = t then compare (a * (d : Int)) (c * (b : Int))
    else if a.sign ≠ c.sign ∨ a = 0 then compare a.sign c.sign
    else if place a b s + 1 < place c d t then if a < 0 then .gt else .lt
    else if place c d t + 1 < place a b s then if a < 0 then .lt else .gt
    else aligned a b s c d t
  | infinite x, infinite y => if x = y then .eq else if x then .lt else .gt
  | infinite x, scaled .. => if x then .lt else .gt
  | scaled .., infinite y => if y then .gt else .lt

/-- Equality of quantities. -/
def same (p q : Quantity) : Bool := p.order q == .eq

end Quantity

/-- Equality of two values at least one of which is not composite. -/
def sameAtom : Value → Value → Bool
  | none, none => true
  | str a, str b => a == b
  | uuid a, uuid b => a == b
  | date a, date b => a == b
  | moment a, moment b =>
    a.offset.isSome == b.offset.isSome && a.instant == b.instant
  | time a, time b =>
    a.offset.isSome == b.offset.isSome && a.instant == b.instant
  | bytes a, bytes b => a == b
  | enumMember a .., enumMember b .. => a == b
  | classObject a _, classObject b _ => a == b
  | function a _, function b _ => a == b
  | object a, object b => a.identity == b.identity
  | float a, float b =>
    a == b || match quantity? (float a), quantity? (float b) with
      | some p, some q => p.same q
      | _, _ => false
  | decimal a, decimal b =>
    a == b || match quantity? (decimal a), quantity? (decimal b) with
      | some p, some q => p.same q
      | _, _ => false
  | a, b =>
    match quantity? a, quantity? b with
    | some p, some q => p.same q
    | _, _ => false

mutual

/-- Whether two values count as the same. -/
def same : Value → Value → Bool
  | list a, list b => sameItems a b
  | tuple a, tuple b => sameItems a b
  | map a, map b => a.length == b.length && sameEntries a b
  | map a, store b => a.length == b.length && sameEntries a b
  | store a, map b => a.length == b.length && sameEntries a b
  | store a, store b => a.length == b.length && sameEntries a b
  | set a, set b => a.length == b.length && sameMembers a b
  | a, b => sameAtom a b

/-- Item by item. -/
def sameItems : List Value → List Value → Bool
  | [], [] => true
  | a :: as, b :: bs => same a b && sameItems as bs
  | _, _ => false

/-- Every entry of the first list is among the second. -/
def sameEntries : List (Value × Value) → List (Value × Value) → Bool
  | [], _ => true
  | (k, v) :: rest, other =>
    other.any (fun e => same k e.1 && same v e.2) && sameEntries rest other

/-- Every member of the first list is among the second. -/
def sameMembers : List Value → List Value → Bool
  | [], _ => true
  | a :: rest, other => other.any (fun b => same a b) && sameMembers rest other

end

/-- Binds a key in the entries of a mapping: a key that is there already keeps
its place and its spelling and takes the new value. -/
def bind {α : Type} (key : Value) (value : α) : List (Value × α) → List (Value × α)
  | [] => [(key, value)]
  | (k, v) :: rest => if same k key then (k, value) :: rest else (k, v) :: bind key value rest

/-- The entries of a mapping to which the given ones are bound in order. -/
def bindAll {α : Type} (entries : List (Value × α)) : List (Value × α) :=
  entries.foldl (fun m e => bind e.1 e.2 m) []

/-- The value of a key. -/
def lookup? (key : Value) (entries : List (Value × Value)) : Option Value :=
  (entries.find? fun e => same e.1 key).map Prod.snd

/-- The members of a set, each once. -/
def distinct (items : List Value) : List Value :=
  items.foldl (fun seen v => if seen.any (same · v) then seen else seen ++ [v]) []

end UriExpansion.Value
