/-
UriExpansion/Template/Grammar.lean

Reading the body of an expression:

    body    = [operator] varspec *("," varspec)
    varspec = name [":" length / "*"]
    name    = varchar *(["."] varchar)
    varchar = ASCII letter / digit / "_" / "%" two hexadecimal digits

A length is a number from 1 to 10000 without a leading zero.  No name occurs
twice in one expression.  Variables are read from left to right and the first
one at fault decides the error; within a variable the modifier is looked at
before the name, and the name before its repetition.
-/
import UriExpansion.Template.Token

namespace UriExpansion

namespace VarSpec

/-- A character of a name other than a triplet or a dot. -/
def isNameChar (c : CodePoint) : Bool := c.isAlphanum || c = '_'

/-- Whether some percent sign lacks its two hexadecimal digits. -/
def hasBrokenTriplet : Text → Bool
  | [] => false
  | c :: rest => (c = '%' && !Percent.startsWithTwoHexDigits rest) || hasBrokenTriplet rest

mutual

/-- Whether the text is a name. -/
def isName : Text → Bool
  | [] => false
  | c :: rest =>
    if isNameChar c then isNameRest rest
    else match rest with
      | a :: b :: rest' => c = '%' && a.isHexDigit && b.isHexDigit && isNameRest rest'
      | _ => false

/-- Whether the text can follow a character of a name: it is empty, or
another character follows, possibly after one dot. -/
def isNameRest : Text → Bool
  | [] => true
  | c :: rest =>
    if c = '.' then isName rest
    else if isNameChar c then isNameRest rest
    else match rest with
      | a :: b :: rest' => c = '%' && a.isHexDigit && b.isHexDigit && isNameRest rest'
      | _ => false

end

/-- The number after a colon: 1 to 10000, without a leading zero. -/
def readLength? (t : Text) : Option Nat :=
  match t with
  | [] => none
  | c :: _ =>
    if t.all CodePoint.isDigit && c ≠ '0' && t.length ≤ 5 && Text.decimalValue t ≤ maxLength then
      some (Text.decimalValue t)
    else none

/-- A variable whose modifier has been read, its name still unchecked. -/
def readModifier (t : Text) : Except ExpressionFault VarSpec :=
  if t.isEmpty then .error .emptyVariable
  else if t.getLast? = some (CodePoint.scalar '*') then
    if t.dropLast.contains (CodePoint.scalar ':') then .error (.bothModifiers t)
    else .ok ⟨t.dropLast, .explode⟩
  else match Text.cutAt ':' t with
    | (_, none) => .ok ⟨t, .none⟩
    | (name, some length) =>
      match readLength? length with
      | some n => .ok ⟨name, .upTo n⟩
      | none => .error (.badLength t)

/-- Checks a name against the grammar of names. -/
def checkName (name : Text) : Except ExpressionFault Unit :=
  if hasBrokenTriplet name then .error (.brokenTriplet name)
  else if isName name then .ok ()
  else .error (.badName name)

/-- One variable of a list in which the names `seen` have occurred before. -/
def read (seen : List Text) (t : Text) : Except ExpressionFault VarSpec := do
  let spec ← readModifier t
  checkName spec.name
  if spec.name ∈ seen then throw (.duplicateName spec.name)
  return spec

/-- The variables of a list in which the names `seen` have occurred before. -/
def readAll (seen : List Text) : List Text → Except ExpressionFault (List VarSpec)
  | [] => .ok []
  | t :: rest => do
    let spec ← read seen t
    let specs ← readAll (spec.name :: seen) rest
    return spec :: specs

end VarSpec

namespace Expression

/-- The operator of a body and the variable list after its symbol. -/
def readOperator : Text → Except ExpressionFault (Operator × Text)
  | [] => .error .empty
  | c :: rest =>
    if Operator.isReservedSymbol c then .error (.reservedOperator c)
    else match Operator.ofSymbol? c with
      | some op => if rest.isEmpty then .error .noVariables else .ok (op, rest)
      | none => .ok (.simple, c :: rest)

/-- The operator and the variables of a body. -/
def readBody (body : Text) : Except ExpressionFault (Operator × List VarSpec) := do
  let (op, list) ← readOperator body
  let specs ← VarSpec.readAll [] (list.split ',')
  return (op, specs)

/-- The expression with the given body, its opening brace at `position`. -/
def read (body : Text) (position : Nat) : Except ParseError Expression :=
  match readBody body with
  | .ok (op, specs) => .ok ⟨body, op, specs, position⟩
  | .error fault => .error (.expression fault body position)

end Expression

end UriExpansion
