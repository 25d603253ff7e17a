/-
UriExpansion/Resolution.lean

Why a value cannot be resolved.

A `ResolutionCause` is a refusal that belongs to the value alone; it becomes
a `ResolutionError` where the expression and the variable are known.  An
`Obstacle` is either such a cause or a fault that no policy can soften.
-/
import UriExpansion.Fault

namespace UriExpansion

/-- A refusal to resolve a value. -/
inductive ResolutionCause
  /-- A class, a callable or a member of an enumeration cannot be taken apart. -/
  | notExplodable (typeName : Text)
  /-- A getter failed. -/
  | getterFailed (attributeName className detail : Text)
  /-- The method by which an object names its pairs failed. -/
  | pairsFailed (className detail : Text)
  /-- There is nothing in the object. -/
  | noPairs (typeName : Text)
  /-- A member of a list or mapping has no text of its own. -/
  | nestedComposite (typeName : Text)
  /-- A text cannot be encoded. -/
  | surrogate (index : Nat)
  /-- Host code announced an error of its own. -/
  | announced (code message : Text)
  deriving DecidableEq, Repr

namespace ResolutionCause

/-- The stable code of a refusal. -/
def code : ResolutionCause → Text
  | notExplodable _ => lit "E_NOT_EXPLODABLE"
  | getterFailed .. => lit "E_EXPLODE_FAILED"
  | pairsFailed .. => lit "E_EXPLODE_FAILED"
  | noPairs _ => lit "E_NO_VALUES"
  | nestedComposite _ => lit "E_NESTED_COMPOSITE"
  | surrogate _ => lit "E_INVALID_UNICODE"
  | announced code _ => code

/-- The wording of a refusal. -/
def message : ResolutionCause → Text
  | notExplodable typeName =>
    lit "value of type " ++ typeName ++ lit " must be an object instance"
  | getterFailed attributeName className detail =>
    lit "reading property '" ++ attributeName ++ lit "' of " ++ className ++ lit " failed: " ++ detail
  | pairsFailed className detail =>
    className ++ lit ".name_value_pairs() failed: " ++ detail
  | noPairs typeName => lit "no name/value pairs could be extracted from " ++ typeName
  | nestedComposite typeName => lit "list and map members must be scalars, got " ++ typeName
  | surrogate index => lit "value has an unpaired surrogate at index " ++ Text.ofNat index
  | announced _ message => message

end ResolutionCause

/-- Where in a template a value was needed. -/
structure Site where
  variableName : Text
  /-- The expression as it stands in the template. -/
  expression : Text
  position : Nat
  deriving DecidableEq, Repr

/-- A value that could not be resolved, and where it was needed, if anywhere. -/
structure ResolutionError where
  cause : ResolutionCause
  site : Option Site
  deriving DecidableEq, Repr

namespace ResolutionError

/-- The stable code of an error. -/
def code (e : ResolutionError) : Text := e.cause.code

/-- The wording of an error, naming the variable that needed the value. -/
def message (e : ResolutionError) : Text :=
  match e.site with
  | none => e.cause.message
  | some site => lit "variable '" ++ site.variableName ++ lit "': " ++ e.cause.message

/-- The expression that needed the value. -/
def expression? (e : ResolutionError) : Option Text := e.site.map Site.expression

/-- The offset of that expression. -/
def position? (e : ResolutionError) : Option Nat := e.site.map Site.position

end ResolutionError

/-- What stands in the way of a value's resolution. -/
inductive Obstacle
  | cause (c : ResolutionCause)
  | fault (f : Fault)
  deriving DecidableEq, Repr

end UriExpansion
