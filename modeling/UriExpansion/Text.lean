/-
UriExpansion/Text.lean

Text as a sequence of code points.

A template, a bound value or an error message may hold a surrogate that has
no partner: no encoding form of Unicode can carry it, yet it must travel
unharmed from the place where it was read to the place where it is refused.
`String` cannot hold such a code point, so `Text` is a list of `CodePoint`,
each a scalar value or a surrogate.

* `Text.firstSurrogate?` finds the first code point that cannot be encoded;
* `Text.split` cuts at a separator and is undone by joining
  (`Text.intercalate_split`);
* `Text.ofNat`, `Text.padded` and `Text.hex` write numbers.
-/

namespace UriExpansion

/-- A Unicode code point: a scalar value, or one of the 2048 surrogates, given
by its offset from U+D800. -/
inductive CodePoint
  | scalar (c : Char)
  | surrogate (offset : Fin 0x800)
  deriving DecidableEq, Repr, Inhabited

namespace CodePoint

instance : Coe Char CodePoint := ⟨.scalar⟩

/-- The number of a code point. -/
def toNat : CodePoint → Nat
  | scalar c => c.toNat
  | surrogate i => 0xD800 + i.val

/-- The code point of a number below U+110000. -/
def ofNat? (n : Nat) : Option CodePoint :=
  if h : n.isValidChar then some (.scalar (Char.ofNatAux n h))
  else if h : 0xD800 ≤ n ∧ n < 0xE000 then some (.surrogate ⟨n - 0xD800, by omega⟩)
  else none

/-- A surrogate belongs to no encoding form on its own. -/
def isSurrogate : CodePoint → Bool
  | scalar _ => false
  | surrogate _ => true

/-- The character of a code point that is a scalar value. -/
def char? : CodePoint → Option Char
  | scalar c => some c
  | surrogate _ => none

/-- An ASCII decimal digit. -/
def isDigit : CodePoint → Bool
  | scalar c => c.isDigit
  | surrogate _ => false

/-- An ASCII letter or decimal digit. -/
def isAlphanum : CodePoint → Bool
  | scalar c => c.isAlphanum
  | surrogate _ => false

/-- The value of a hexadecimal digit in either case. -/
def hexValue? : CodePoint → Option Nat
  | scalar c =>
    if '0' ≤ c ∧ c ≤ '9' then some (c.toNat - 48)
    else if 'a' ≤ c ∧ c ≤ 'f' then some (c.toNat - 87)
    else if 'A' ≤ c ∧ c ≤ 'F' then some (c.toNat - 55)
    else none
  | surrogate _ => none

/-- A hexadecimal digit in either case. -/
def isHexDigit (c : CodePoint) : Bool := c.hexValue?.isSome

/-- The value of a decimal digit; other code points count as zero. -/
def digitValue : CodePoint → Nat
  | scalar c => if c.isDigit then c.toNat - 48 else 0
  | surrogate _ => 0

/-- The lower case of an ASCII letter; every other code point is its own. -/
def toLower : CodePoint → CodePoint
  | scalar c => scalar c.toLower
  | surrogate i => surrogate i

/-- The code points with the Unicode property White_Space, and the four
information separators U+001C to U+001F. -/
def isSpace (c : CodePoint) : Bool :=
  let n := c.toNat
  (9 ≤ n && n ≤ 13) || (28 ≤ n && n ≤ 32) || n == 0x85 || n == 0xA0 || n == 0x1680
    || (0x2000 ≤ n && n ≤ 0x200A) || n == 0x2028 || n == 0x2029 || n == 0x202F
    || n == 0x205F || n == 0x3000

end CodePoint

/-- A sequence of code points, possibly with unpaired surrogates. -/
abbrev Text := List CodePoint

/-- The text of a string, which holds scalar values only. -/
def lit (s : String) : Text := s.toList.map CodePoint.scalar

namespace Text

/-- The offset of the first surrogate. -/
def firstSurrogate? (t : Text) : Option Nat := t.findIdx? CodePoint.isSurrogate

/-- The string of a text without surrogates. -/
def toString? (t : Text) : Option String :=
  (t.mapM CodePoint.char?).map String.ofList

/-! ### Cutting and joining -/

/-- The pieces between the occurrences of `sep`; there is always one more
piece than there are separators. -/
def split (sep : CodePoint) : Text → List Text
  | [] => [[]]
  | c :: r =>
    if c = sep then [] :: split sep r
    else match split sep r with
      | [] => [[c]]
      | piece :: pieces => (c :: piece) :: pieces

theorem split_ne_nil (sep : CodePoint) (t : Text) : split sep t ≠ [] := by
  cases t with
  | nil => simp [split]
  | cons c r =>
    unfold split
    split
    · simp
    · cases split sep r <;> simp

/-- Joining the pieces gives the text back. -/
theorem intercalate_split (sep : CodePoint) (t : Text) :
    List.intercalate [sep] (split sep t) = t := by
  induction t with
  | nil => simp [split, List.intercalate]
  | cons c r ih =>
    have hne := split_ne_nil sep r
    unfold split
    split
    · next h =>
      subst h
      cases hs : split c r with
      | nil => exact absurd hs hne
      | cons p ps => rw [hs] at ih; simpa [List.intercalate] using ih
    · cases hs : split sep r with
      | nil => exact absurd hs hne
      | cons p ps =>
        rw [hs] at ih
        cases ps with
        | nil => simpa [List.intercalate] using ih
        | cons q qs => simpa [List.intercalate] using ih

/-- The text before the first `sep` and, if there is one, the text after it. -/
def cutAt (sep : CodePoint) (t : Text) : Text × Option Text :=
  match t.dropWhile (· ≠ sep) with
  | [] => (t.takeWhile (· ≠ sep), none)
  | _ :: r => (t.takeWhile (· ≠ sep), some r)

/-- The text with white space removed at both ends. -/
def trim (t : Text) : Text :=
  ((t.dropWhile CodePoint.isSpace).reverse.dropWhile CodePoint.isSpace).reverse

/-- The text without its trailing code points that satisfy `p`. -/
def dropTrailing (p : CodePoint → Bool) (t : Text) : Text :=
  (t.reverse.dropWhile p).reverse

/-- The text in ASCII lower case. -/
def toLower (t : Text) : Text := t.map CodePoint.toLower

/-! ### Order -/

/-- The order of two texts by code point, a proper beginning coming first. -/
def compare : Text → Text → Ordering
  | [], [] => .eq
  | [], _ :: _ => .lt
  | _ :: _, [] => .gt
  | a :: r, b :: s => (Ord.compare a.toNat b.toNat).then (compare r s)

/-! ### Numbers -/

/-- The decimal digits of a natural number. -/
def ofNat (n : Nat) : Text := (Nat.toDigits 10 n).map CodePoint.scalar

/-- The decimal digits of an integer after its sign, if negative. -/
def ofInt : Int → Text
  | .ofNat n => ofNat n
  | .negSucc n => '-' :: ofNat (n + 1)

/-- A number written with at least `width` digits, filled with `fill`. -/
def paddedWith (fill : Char) (width n : Nat) : Text :=
  let digits := ofNat n
  List.replicate (width - digits.length) (CodePoint.scalar fill) ++ digits

/-- A number written with at least `width` digits, filled with zeros. -/
def padded (width n : Nat) : Text := paddedWith '0' width n

/-- The hexadecimal digits of a number in lower case, at least `width` of them. -/
def hex (width n : Nat) : Text :=
  let digits := (Nat.toDigits 16 n).map CodePoint.scalar
  List.replicate (width - digits.length) (CodePoint.scalar '0') ++ digits

/-- The value of a run of decimal digits. -/
def decimalValue (t : Text) : Nat := t.foldl (fun n c => n * 10 + c.digitValue) 0

/-- The value of a run of hexadecimal digits; none if another code point occurs. -/
def hexValue? (t : Text) : Option Nat :=
  t.foldlM (fun n c => c.hexValue?.map (n * 16 + ·)) 0

end Text

end UriExpansion
