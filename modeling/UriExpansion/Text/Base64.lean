/-
UriExpansion/Text/Base64.lean

Octets written in base 64.

Characters outside the alphabet are passed over.  The padding that completes
a group ends the text; a text that ends inside a group denotes nothing, and how
many characters of the group there are tells why.
-/
import UriExpansion.Text

namespace UriExpansion.Text

/-- The value of a character of the alphabet. -/
def base64Value? : CodePoint → Option Nat
  | .scalar c =>
    if 'A' ≤ c ∧ c ≤ 'Z' then some (c.toNat - 65)
    else if 'a' ≤ c ∧ c ≤ 'z' then some (c.toNat - 71)
    else if '0' ≤ c ∧ c ≤ '9' then some (c.toNat + 4)
    else if c = '+' then some 62
    else if c = '/' then some 63
    else none
  | .surrogate _ => none

/-- Decodes with `place` characters of the current group read, of which the
bits in `carry` are still to be written, and `pads` paddings right before; or tells
how many characters of the last group are there. -/
def base64From (place carry pads : Nat) : Text → Except Nat (List UInt8)
  | [] => if place = 0 then .ok [] else .error place
  | c :: rest =>
    if c = '=' then
      if 2 ≤ place then
        if 4 ≤ place + (pads + 1) then .ok [] else base64From place carry (pads + 1) rest
      else base64From place carry pads rest
    else match base64Value? c with
      | none => base64From place carry pads rest
      | some v =>
        match place with
        | 0 => base64From 1 v 0 rest
        | 1 => (base64From 2 (v % 16) 0 rest).map (UInt8.ofNat (carry * 4 + v / 16) :: ·)
        | 2 => (base64From 3 (v % 4) 0 rest).map (UInt8.ofNat (carry * 16 + v / 4) :: ·)
        | _ => (base64From 0 0 0 rest).map (UInt8.ofNat (carry * 64 + v) :: ·)

/-- The octets that a text writes in base 64, or why it writes none. -/
def base64 (t : Text) : Except Text (List UInt8) :=
  match base64From 0 0 0 t with
  | .ok octets => .ok octets
  | .error 1 =>
    .error (lit "Invalid base64-encoded string: number of data characters ("
      ++ ofNat (t.filter fun c => (base64Value? c).isSome).length
      ++ lit ") cannot be 1 more than a multiple of 4")
  | .error _ => .error (lit "Incorrect padding")

end UriExpansion.Text
