/-
UriExpansion/Template/Expression.lean

Expressions: an operator and a list of variables, each with a modifier.

`VarSpec.toText` and `Expression.toText` write them as they stand in a
template.  An expression keeps the text between its braces as it was read,
and the offset of its opening brace.
-/
import UriExpansion.Template.Operator

namespace UriExpansion

/-- What a variable's modifier asks for. -/
inductive Modifier
  /-- No modifier. -/
  | none
  /-- `:n` keeps the first `n` code points of a scalar value. -/
  | upTo (length : Nat)
  /-- `*` expands every member of a composite value on its own. -/
  | explode
  deriving DecidableEq, Repr

/-- A variable of an expression. -/
structure VarSpec where
  name : Text
  modifier : Modifier
  deriving DecidableEq, Repr

namespace VarSpec

/-- The largest number that may follow the colon. -/
def maxLength : Nat := 10000

/-- Whether the variable has the explode modifier. -/
def explodes (spec : VarSpec) : Bool := spec.modifier = .explode

/-- The variable as it stands in an expression. -/
def toText (spec : VarSpec) : Text :=
  match spec.modifier with
  | .none => spec.name
  | .upTo n => spec.name ++ lit ":" ++ Text.ofNat n
  | .explode => spec.name ++ lit "*"

/-- A list of variables as it stands in an expression. -/
def listToText (specs : List VarSpec) : Text :=
  List.intercalate (lit ",") (specs.map toText)

end VarSpec

/-- An expression of a template. -/
structure Expression where
  /-- The text between the braces. -/
  body : Text
  operator : Operator
  varspecs : List VarSpec
  /-- The offset of the opening brace. -/
  position : Nat
  deriving DecidableEq, Repr

namespace Expression

/-- The names of the variables, in order. -/
def names (e : Expression) : List Text := e.varspecs.map VarSpec.name

/-- A body between braces. -/
def braced (body : Text) : Text := CodePoint.scalar '{' :: (body ++ [CodePoint.scalar '}'])

/-- The expression as it stands in a template. -/
def toText (e : Expression) : Text := braced e.body

end Expression

end UriExpansion
