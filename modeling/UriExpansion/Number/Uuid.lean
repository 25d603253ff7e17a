/-
UriExpansion/Number/Uuid.lean

Universally unique identifiers: 128-bit numbers written as 32 hexadecimal
digits in groups of 8-4-4-4-12.
-/
import UriExpansion.Text

namespace UriExpansion

/-- A universally unique identifier. -/
structure Uuid where
  value : Nat
  lt : value < Nat.pow 2 128
  deriving DecidableEq, Repr

namespace Uuid

/-- Removes every occurrence of `part`. -/
def strike (part : Text) : Text → Text
  | [] => []
  | c :: rest =>
    if part ≠ [] ∧ part.isPrefixOf (c :: rest) then strike part ((c :: rest).drop part.length)
    else c :: strike part rest
  termination_by t => t.length
  decreasing_by
    · cases part with
      | nil => simp_all
      | cons p ps => simp only [List.drop_succ_cons, List.length_drop, List.length_cons]; omega
    · simp

/-- The identifier that a text writes: 32 hexadecimal digits, with hyphens
anywhere, braces around them, and the marks of a uniform resource name. -/
def read? (t : Text) : Option Uuid :=
  let isBrace := fun c : CodePoint => c = CodePoint.scalar '{' || c = CodePoint.scalar '}'
  let t := strike (lit "uuid:") (strike (lit "urn:") t)
  let t := Text.dropTrailing isBrace (t.dropWhile isBrace)
  let digits := t.filter (fun c => c ≠ CodePoint.scalar '-')
  if digits.length = 32 then
    match Text.hexValue? digits with
    | some n => if h : n < Nat.pow 2 128 then some ⟨n, h⟩ else none
    | none => none
  else none

/-- The 32 digits in lower case. -/
def digits (u : Uuid) : Text := Text.hex 32 u.value

/-- The digits in their groups. -/
def toText (u : Uuid) : Text :=
  let d := u.digits
  List.intercalate (lit "-")
    [d.take 8, (d.drop 8).take 4, (d.drop 12).take 4, (d.drop 16).take 4, d.drop 20]

/-- The `width` bits of the identifier that end `low` bits above its lowest. -/
def bits (u : Uuid) (low width : Nat) : Nat := u.value / Nat.pow 2 low % Nat.pow 2 width

end Uuid

end UriExpansion
