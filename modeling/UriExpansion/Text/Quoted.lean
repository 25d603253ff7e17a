/-
UriExpansion/Text/Quoted.lean

Text between quotes, as it is shown inside a larger value.

The single quote is used unless the text holds one and no double quote.  The
quote in use and the backslash are escaped, as are the line and tab controls;
a code point without a mark of its own is shown by its number.
-/
import UriExpansion.Text.Printable

namespace UriExpansion.Text

/-- The shortest numeric escape of a code point. -/
def numericEscape (n : Nat) : Text :=
  if n < 0x100 then lit "\\x" ++ hex 2 n
  else if n < 0x10000 then lit "\\u" ++ hex 4 n
  else lit "\\U" ++ hex 8 n

/-- A code point between quotes. -/
def escapeBetween (quote c : CodePoint) : Text :=
  if c = quote ∨ c = '\\' then ['\\', c]
  else if c = '\n' then lit "\\n"
  else if c = '\r' then lit "\\r"
  else if c = '\t' then lit "\\t"
  else if c.isPrintable then [c]
  else numericEscape c.toNat

/-- The text between quotes. -/
def quoted (t : Text) : Text :=
  let quote : CodePoint :=
    if t.elem (CodePoint.scalar '\'') && !t.elem (CodePoint.scalar '"') then '"' else '\''
  [quote] ++ t.flatMap (escapeBetween quote) ++ [quote]

/-- Octets between quotes: printable ASCII stands for itself. -/
def quotedOctets (octets : List UInt8) : Text :=
  let quote : Nat := if octets.elem 39 && !octets.elem 34 then 34 else 39
  let mark : Text := [CodePoint.scalar (Char.ofNat quote)]
  lit "b" ++ mark ++ (octets.flatMap fun b =>
    let n := b.toNat
    if n = quote ∨ n = 92 then lit "\\" ++ [CodePoint.scalar (Char.ofNat n)]
    else if n = 10 then lit "\\n"
    else if n = 13 then lit "\\r"
    else if n = 9 then lit "\\t"
    else if 32 ≤ n ∧ n < 127 then [CodePoint.scalar (Char.ofNat n)]
    else lit "\\x" ++ hex 2 n) ++ mark

end UriExpansion.Text
