/-
UriExpansion/Text/Digit.lean

Decimal digits of all scripts.

The general category Decimal Number consists of runs of ten code points, the
digits from zero to nine of one script.  A numeral may be written in any of
them; `Text.numeral` gives it in ASCII digits, without the white space around
it.
-/
import UriExpansion.Text

namespace UriExpansion

namespace CodePoint

/-- The zero of every run of decimal digits, in order. -/
def digitZeros : List Nat := [
  0x30, 0x660, 0x6F0, 0x7C0, 0x966, 0x9E6, 0xA66, 0xAE6, 0xB66, 0xBE6, 0xC66, 0xCE6, 0xD66,
  0xDE6, 0xE50, 0xED0, 0xF20, 0x1040, 0x1090, 0x17E0, 0x1810, 0x1946, 0x19D0, 0x1A80, 0x1A90,
  0x1B50, 0x1BB0, 0x1C40, 0x1C50, 0xA620, 0xA8D0, 0xA900, 0xA9D0, 0xA9F0, 0xAA50, 0xABF0, 0xFF10,
  0x104A0, 0x10D30, 0x11066, 0x110F0, 0x11136, 0x111D0, 0x112F0, 0x11450, 0x114D0, 0x11650,
  0x116C0, 0x11730, 0x118E0, 0x11950, 0x11C50, 0x11D50, 0x11DA0, 0x16A60, 0x16AC0, 0x16B50,
  0x1D7CE, 0x1D7D8, 0x1D7E2, 0x1D7EC, 0x1D7F6, 0x1E140, 0x1E2F0, 0x1E950, 0x1FBF0]

/-- The ASCII digit of the same value as a decimal digit; any other code point
is its own. -/
def asciiDigit (c : CodePoint) : CodePoint :=
  match digitZeros.find? fun first => first ≤ c.toNat && c.toNat < first + 10 with
  | some first => (CodePoint.ofNat? (48 + (c.toNat - first))).getD c
  | none => c

/-- White space that may stand around a numeral: not the four information
separators. -/
def isNumeralSpace (c : CodePoint) : Bool := c.isSpace && !(28 ≤ c.toNat && c.toNat ≤ 31)

end CodePoint

/-- A numeral in ASCII digits, without the white space around it. -/
def Text.numeral (t : Text) : Text :=
  Text.dropTrailing CodePoint.isNumeralSpace
    ((t.map CodePoint.asciiDigit).dropWhile CodePoint.isNumeralSpace)

end UriExpansion
