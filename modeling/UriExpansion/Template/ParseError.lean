/-
UriExpansion/Template/ParseError.lean

Why a text is no template.

A text can fail as a whole, when its braces do not pair up or its literal
text cannot be encoded (`BraceFault`), or in one of its expressions
(`ExpressionFault`).  Both come with the piece of the template that they are
about and the offset at which it stands.
-/
import UriExpansion.Template.Expression

namespace UriExpansion

/-- What is wrong outside the bodies of expressions. -/
inductive BraceFault
  /-- An opening brace inside an open expression. -/
  | nested
  /-- A closing brace outside expressions. -/
  | unmatchedClose
  /-- An expression that never ends. -/
  | unclosed
  /-- A surrogate in literal text. -/
  | surrogate
  deriving DecidableEq, Repr

/-- What is wrong with the body of an expression. -/
inductive ExpressionFault
  /-- There is nothing between the braces. -/
  | empty
  /-- The body begins with a symbol that is reserved for extensions. -/
  | reservedOperator (symbol : CodePoint)
  /-- Nothing follows the operator. -/
  | noVariables
  /-- Nothing stands between two commas, or beside an outer one. -/
  | emptyVariable
  /-- A variable has both modifiers. -/
  | bothModifiers (spec : Text)
  /-- What follows the colon is not a number in range. -/
  | badLength (spec : Text)
  /-- A percent sign in a name lacks its two hexadecimal digits. -/
  | brokenTriplet (name : Text)
  /-- A name is not made of the characters of names. -/
  | badName (name : Text)
  /-- A name occurs a second time. -/
  | duplicateName (name : Text)
  deriving DecidableEq, Repr

/-- A reason to refuse a template. -/
inductive ParseError
  /-- The braces or the literal text are at fault; `excerpt` is the piece concerned. -/
  | malformed (fault : BraceFault) (excerpt : Text) (position : Nat)
  /-- The expression with this body, whose opening brace stands at `position`, is at fault. -/
  | expression (fault : ExpressionFault) (body : Text) (position : Nat)
  deriving DecidableEq, Repr

namespace BraceFault

/-- The stable code of a fault. -/
def code : BraceFault → Text
  | nested => lit "E_NESTED_BRACE"
  | unmatchedClose => lit "E_UNMATCHED_CLOSE"
  | unclosed => lit "E_UNCLOSED_EXPRESSION"
  | surrogate => lit "E_INVALID_UNICODE"

/-- The wording of a fault. -/
def message : BraceFault → Text
  | nested => lit "'\x7b' found inside an open expression"
  | unmatchedClose => lit "'\x7d' without a matching '\x7b'"
  | unclosed => lit "expression is never closed with '\x7d'"
  | surrogate => lit "literal text contains an unpaired surrogate"

end BraceFault

namespace ExpressionFault

/-- The stable code of a fault. -/
def code : ExpressionFault → Text
  | empty => lit "E_EMPTY_EXPRESSION"
  | reservedOperator _ => lit "E_RESERVED_OPERATOR"
  | noVariables => lit "E_EMPTY_VARSPEC"
  | emptyVariable => lit "E_EMPTY_VARSPEC"
  | bothModifiers _ => lit "E_PREFIX_AND_EXPLODE"
  | badLength _ => lit "E_INVALID_PREFIX"
  | brokenTriplet _ => lit "E_INVALID_PCT_ENCODING"
  | badName _ => lit "E_INVALID_VARNAME"
  | duplicateName _ => lit "E_DUPLICATE_VARNAME"

/-- The wording of a fault. -/
def message : ExpressionFault → Text
  | empty => lit "expression is empty"
  | reservedOperator c => lit "operator '" ++ [c] ++ lit "' is reserved and not supported"
  | noVariables => lit "expression has no variables"
  | emptyVariable => lit "empty variable in variable list"
  | bothModifiers spec => lit "'" ++ spec ++ lit "' combines a prefix with explode"
  | badLength spec =>
    lit "prefix length in '" ++ spec ++ lit "' must be an integer from 1 to "
      ++ Text.ofNat VarSpec.maxLength
  | brokenTriplet name => lit "unterminated percent-encoding in '" ++ name ++ lit "'"
  | badName name => lit "invalid variable name: '" ++ name ++ lit "'"
  | duplicateName name => lit "variable '" ++ name ++ lit "' appears twice"

end ExpressionFault

namespace ParseError

/-- The stable code of an error. -/
def code : ParseError → Text
  | malformed fault _ _ => fault.code
  | expression fault _ _ => fault.code

/-- The wording of an error. -/
def message : ParseError → Text
  | malformed fault _ _ => fault.message
  | expression fault _ _ => fault.message

/-- The piece of the template that the error is about. -/
def excerpt : ParseError → Text
  | malformed _ excerpt _ => excerpt
  | expression _ body _ => Expression.braced body

/-- The offset at which the error stands. -/
def position : ParseError → Nat
  | malformed _ _ position => position
  | expression _ _ position => position

end ParseError

end UriExpansion
