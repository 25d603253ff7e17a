/-
UriExpansion/Template/Operator.lean

The eight expression operators of RFC 6570 and what each of them decides
about the form of an expansion: the text that opens it, the separator between
its units, whether a unit carries its variable's name, what stands after a
name whose value is empty, and whether reserved characters are kept.

The five symbols `= , ! @ |` are reserved for extensions and stand for no
operator.
-/
import UriExpansion.Percent

namespace UriExpansion

/-- The operator of an expression. -/
inductive Operator
  /-- No symbol: simple string expansion. -/
  | simple
  /-- `+`: reserved expansion. -/
  | reserved
  /-- `#`: fragment expansion. -/
  | fragment
  /-- `.`: label expansion. -/
  | label
  /-- `/`: path segment expansion. -/
  | path
  /-- `;`: path-style parameter expansion. -/
  | parameter
  /-- `?`: form-style query expansion. -/
  | query
  /-- `&`: form-style query continuation. -/
  | continuation
  deriving DecidableEq, Repr

namespace Operator

/-- All operators. -/
def all : List Operator :=
  [simple, reserved, fragment, label, path, parameter, query, continuation]

/-- The symbol as it stands in an expression; simple expansion has none. -/
def symbol : Operator → Text
  | simple => []
  | reserved => lit "+"
  | fragment => lit "#"
  | label => lit "."
  | path => lit "/"
  | parameter => lit ";"
  | query => lit "?"
  | continuation => lit "&"

/-- What an expansion with at least one unit begins with. -/
def first : Operator → Text
  | simple => []
  | reserved => []
  | op => op.symbol

/-- What stands between two units. -/
def separator : Operator → CodePoint
  | simple => ','
  | reserved => ','
  | fragment => ','
  | label => '.'
  | path => '/'
  | parameter => ';'
  | query => '&'
  | continuation => '&'

/-- Whether a unit carries a name. -/
def named : Operator → Bool
  | parameter => true
  | query => true
  | continuation => true
  | _ => false

/-- What follows a name whose value is empty. -/
def ifEmpty : Operator → Text
  | query => lit "="
  | continuation => lit "="
  | _ => []

/-- Whether values keep their reserved characters and triplets. -/
def allowReserved : Operator → Bool
  | reserved => true
  | fragment => true
  | _ => false

/-- The encoding of values under an operator. -/
def profile (op : Operator) : Percent.Profile :=
  if op.allowReserved then .reserved else .strict

/-- The operator of a symbol. -/
def ofSymbol? (c : CodePoint) : Option Operator :=
  all.find? fun op => op.symbol == [c]

/-- Symbols that stand for no operator but may not begin a variable list. -/
def isReservedSymbol (c : CodePoint) : Bool :=
  c = '=' || c = ',' || c = '!' || c = '@' || c = '|'

/-- The operator under which the rest of a variable list goes on when its
beginning has been expanded already; the other operators cannot be resumed. -/
def resumed? : Operator → Option Operator
  | query => some continuation
  | continuation => some continuation
  | parameter => some parameter
  | label => some label
  | path => some path
  | _ => none

end Operator

end UriExpansion
