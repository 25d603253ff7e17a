/-
UriExpansion/Percent.lean

Percent-encoding of text, one code point at a time.

There are two profiles.  The strict one keeps the unreserved characters of
RFC 3986 and writes everything else as one triplet `%XX` per octet of its
UTF-8 form.  The reserved one also keeps the reserved characters and every
`%` that already begins a triplet.  A surrogate has no UTF-8 form, so a text
that holds one is refused.

The two hexadecimal digits of a kept triplet are unreserved and therefore
pass through by themselves; `encode` only has to look two places ahead when
it meets a `%`.
-/
import UriExpansion.Fault

namespace UriExpansion.Percent

/-- Which characters pass through unencoded. -/
inductive Profile
  /-- Unreserved characters only. -/
  | strict
  /-- Unreserved and reserved characters, and triplets that stand already. -/
  | reserved
  deriving DecidableEq, Repr

/-- The unreserved characters: ASCII letters and digits and the four marks `-._~`. -/
def isUnreserved (c : CodePoint) : Bool :=
  c.isAlphanum || c = '-' || c = '.' || c = '_' || c = '~'

/-- The general delimiters and sub-delimiters of RFC 3986. -/
def isReserved (c : CodePoint) : Bool :=
  c ∈ [':', '/', '?', '#', '[', ']', '@', '!', '$', '&', '\'', '(', ')', '*', '+', ',', ';', '='].map
    CodePoint.scalar

/-- Whether the text begins with two hexadecimal digits. -/
def startsWithTwoHexDigits : Text → Bool
  | a :: b :: _ => a.isHexDigit && b.isHexDigit
  | _ => false

/-- Whether a code point followed by `rest` passes through. -/
def Profile.keeps : Profile → CodePoint → Text → Bool
  | .strict, c, _ => isUnreserved c
  | .reserved, c, rest =>
    isUnreserved c || isReserved c || (c = '%' && startsWithTwoHexDigits rest)

/-- The upper-case hexadecimal digit of a number below sixteen. -/
def hexDigit (n : Nat) : Char := if n < 10 then Char.ofNat (48 + n) else Char.ofNat (55 + n)

/-- The triplet of an octet. -/
def triplet (b : UInt8) : Text :=
  [.scalar '%', .scalar (hexDigit (b.toNat / 16)), .scalar (hexDigit (b.toNat % 16))]

/-- The triplets of a code point's UTF-8 octets; a surrogate has none. -/
def encodeOne : CodePoint → Except Fault Text
  | .scalar c => .ok ((String.utf8EncodeChar c).flatMap triplet)
  | .surrogate _ => .error .unencodable

/-- The percent-encoded form of a text. -/
def encode (p : Profile) : Text → Except Fault Text
  | [] => .ok []
  | c :: rest => do
    let head ← if p.keeps c rest then .ok [c] else encodeOne c
    let tail ← encode p rest
    return head ++ tail

/-- Literal text of a template keeps its reserved characters and triplets. -/
def encodeLiteral (t : Text) : Except Fault Text := encode .reserved t

end UriExpansion.Percent
