/-
UriExpansion/Text/Utf8.lean

Why octets are no UTF-8.

The first octet of a character tells how many follow it, and between which two
values the next one lies; the others all continue a character.  What is refused are
the octets of a character up to the one that does not belong there.
-/
import UriExpansion.Text

namespace UriExpansion.Utf8

/-- Octets that stand for no character, by the offsets at which they begin and end. -/
structure Refusal where
  start : Nat
  stop : Nat
  reason : Text

/-- The first octet of a character: how many follow, and the least and the greatest
value of the next one. -/
def followers? (octet : Nat) : Option (Nat × Nat × Nat) :=
  if octet < 0x80 then some (0, 0x80, 0xBF)
  else if octet < 0xC2 then none
  else if octet < 0xE0 then some (1, 0x80, 0xBF)
  else if octet = 0xE0 then some (2, 0xA0, 0xBF)
  else if octet = 0xED then some (2, 0x80, 0x9F)
  else if octet < 0xF0 then some (2, 0x80, 0xBF)
  else if octet = 0xF0 then some (3, 0x90, 0xBF)
  else if octet < 0xF4 then some (3, 0x80, 0xBF)
  else if octet = 0xF4 then some (3, 0x80, 0x8F)
  else none

/-- What is refused first of the octets from `position` on, where `missing` octets
are still to come of the character that begins at `start`, the next of them between
`least` and `greatest`. -/
def refusalFrom? (position start missing least greatest : Nat) : List UInt8 → Option Refusal
  | [] => if missing = 0 then none else some ⟨start, position, lit "unexpected end of data"⟩
  | octet :: rest =>
    if missing = 0 then
      match followers? octet.toNat with
      | none => some ⟨position, position + 1, lit "invalid start byte"⟩
      | some (count, least, greatest) =>
        refusalFrom? (position + 1) position count least greatest rest
    else if least ≤ octet.toNat ∧ octet.toNat ≤ greatest then
      refusalFrom? (position + 1) start (missing - 1) 0x80 0xBF rest
    else some ⟨start, position, lit "invalid continuation byte"⟩

/-- What is refused first of some octets, if anything is. -/
def refusal? (octets : List UInt8) : Option Refusal := refusalFrom? 0 0 0 0x80 0xBF octets

/-- The wording of a refusal: one octet is shown, of several the offsets. -/
def Refusal.message (r : Refusal) (octets : List UInt8) : Text :=
  let place :=
    if r.stop = r.start + 1 then lit "byte 0x" ++ Text.hex 2 (octets.getD r.start 0).toNat
      ++ lit " in position " ++ Text.ofNat r.start
    else lit "bytes in position " ++ Text.ofNat r.start ++ lit "-" ++ Text.ofNat (r.stop - 1)
  lit "'utf-8' codec can't decode " ++ place ++ lit ": " ++ r.reason

end UriExpansion.Utf8
