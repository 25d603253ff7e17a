/-
UriExpansion/Diagnostic.lean

One shape for all errors that are announced.

Whatever part of the program refuses, a reader is told a stable code, a
wording, and as far as they are known the expression, the offset and the file
concerned.  `Diagnostic.render` puts code and wording behind the place.  The
wording is told as it is, with every line feed that stands in it.
-/
import UriExpansion.Expansion
import UriExpansion.LoadError

namespace UriExpansion

/-- The part of the program that refuses. -/
inductive DiagnosticKind
  | malformedTemplate
  | badExpression
  | resolution
  | load
  | usage
  deriving DecidableEq, Repr

/-- An error as it is announced. -/
structure Diagnostic where
  kind : DiagnosticKind
  code : Text
  message : Text
  expression : Option Text
  position : Option Int
  file : Option Text
  deriving DecidableEq, Repr

namespace Diagnostic

/-- `place: code: message`, the place being the file and the offset as far as
they are known. -/
def render (d : Diagnostic) : Text :=
  let file := match d.file with
    | some (c :: path) => [c :: path]
    | _ => []
  let parts := file ++ (d.position.map Text.ofInt).toList
  let place := if parts.isEmpty then lit "<template>" else List.intercalate (lit ":") parts
  place ++ lit ": " ++ d.code ++ lit ": " ++ d.message

end Diagnostic

/-- An expression's fault as it is announced, the expression standing at an
offset that the caller knows. -/
def ExpressionFault.diagnostic (fault : ExpressionFault) (body : Text) (position : Int) :
    Diagnostic :=
  ⟨.badExpression, fault.code, fault.message, some (Expression.braced body), some position, none⟩

/-- A parse error as it is announced. -/
def ParseError.diagnostic : ParseError → Diagnostic
  | .malformed fault excerpt position =>
    ⟨.malformedTemplate, fault.code, fault.message, some excerpt, some position, none⟩
  | .expression fault body position => fault.diagnostic body position

/-- A resolution error as it is announced. -/
def ResolutionError.diagnostic (e : ResolutionError) : Diagnostic :=
  ⟨.resolution, e.code, e.message, e.expression?, e.position?.map Int.ofNat, none⟩

/-- A load error as it is announced. -/
def LoadError.diagnostic (e : LoadError) : Diagnostic :=
  ⟨.load, e.fault.code, e.fault.message, none, none, some e.file⟩

end UriExpansion
