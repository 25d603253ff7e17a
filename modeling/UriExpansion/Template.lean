/-
UriExpansion/Template.lean

Templates: literal text and expressions in the order in which they stand.

`Template.tryParse` reports every expression at fault, `Template.parse` the
first error only.  A template keeps its source text; writing its components
one after the other gives that text back.
-/
import UriExpansion.Template.Grammar
import UriExpansion.Event

namespace UriExpansion

/-- A part of a template. -/
inductive Component
  /-- Literal text at an offset. -/
  | literal (text : Text) (position : Nat)
  | expression (e : Expression)
  deriving DecidableEq, Repr

namespace Component

/-- A component as it stands in the template. -/
def toText : Component → Text
  | literal text _ => text
  | expression e => e.toText

/-- The offset at which a component begins. -/
def position : Component → Nat
  | literal _ position => position
  | expression e => e.position

/-- The expression that a component is. -/
def expression? : Component → Option Expression
  | literal .. => none
  | expression e => some e

/-- The component of a token. -/
def ofToken : Token → Except ParseError Component
  | .literal text position => .ok (literal text position)
  | .expression body position => (Expression.read body position).map expression

end Component

/-- A template that has been read. -/
structure Template where
  source : Text
  components : List Component
  deriving DecidableEq, Repr

namespace Template

/-- The expressions of a template, in order. -/
def expressions (t : Template) : List Expression := t.components.filterMap Component.expression?

/-- The names in order of first occurrence, each once. -/
def distinct : List Text → List Text
  | [] => []
  | name :: rest => name :: (distinct rest).filter (· ≠ name)

/-- The names of the variables in order of first occurrence, each once. -/
def variableNames (t : Template) : List Text := distinct (t.expressions.flatMap Expression.names)

/-- Whether some expression has a variable of this name. -/
def hasVariable (t : Template) (name : Text) : Bool :=
  t.expressions.any fun e => e.names.contains name

/-- The errors of the tokens that are no component. -/
def errorsOf (tokens : List Token) : List ParseError :=
  tokens.filterMap fun token =>
    match Component.ofToken token with
    | .ok _ => none
    | .error e => some e

/-- The components of the tokens that are one. -/
def componentsOf (tokens : List Token) : List Component :=
  tokens.filterMap fun token => (Component.ofToken token).toOption

/-- The template with this source, or every reason why there is none. -/
def tryParse (source : Text) : Option Template × List ParseError :=
  match Token.scan source with
  | .error e => (none, [e])
  | .ok tokens =>
    match errorsOf tokens with
    | [] => (some ⟨source, componentsOf tokens⟩, [])
    | e :: errors => (none, e :: errors)

/-- The template with this source, or the first reason why there is none. -/
def parse (source : Text) : Except ParseError Template :=
  match Token.scan source with
  | .error e => .error e
  | .ok tokens =>
    match errorsOf tokens with
    | [] => .ok ⟨source, componentsOf tokens⟩
    | e :: _ => .error e

/-- What trying to read a template reports: refusal only. -/
def tryParseEvents (source : Text) : List Event :=
  match (tryParse source).2 with
  | [] => []
  | errors => [.templateRejected source errors.length]

/-- Reading a template reports its outcome. -/
def parseTraced (source : Text) : Traced ParseError Template :=
  match parse source with
  | .ok t => ⟨[.templateParsed source t.expressions.length], .ok t⟩
  | .error e => ⟨tryParseEvents source, .error e⟩

end Template

end UriExpansion
