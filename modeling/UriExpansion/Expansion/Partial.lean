/-
UriExpansion/Expansion/Partial.lean

Expanding what can be expanded now and leaving the rest for later.

An expression all of whose variables are defined is expanded.  If only the
first few are, and the operator can be resumed, these are expanded and the
others go on in a new expression.  Every other expression is kept as it was
written.  The text that results is read as a template again.
-/
import UriExpansion.Expansion

namespace UriExpansion

/-- What partial expansion makes of an expression with the given values. -/
def Expression.renderPartially (e : Expression) (values : List Resolved) : Traced Failure Text :=
  if values.all Resolved.isDefined then e.render values
  else
    let lead := (values.takeWhile Resolved.isDefined).length
    match e.operator.resumed? with
    | none => pure e.toText
    | some op =>
      if lead = 0 ∨ (values.drop lead).any Resolved.isDefined then pure e.toText
      else do
        let head : Expression := { e with varspecs := e.varspecs.take lead }
        let text ← head.render (values.take lead)
        let rest := VarSpec.listToText (e.varspecs.drop lead)
        return text ++ Expression.braced (op.symbol ++ rest)

/-- What partial expansion makes of a component. -/
def Component.expandPartially (store : Store) (s : Settings) : Component → Traced Failure Text
  | .literal text _ => pure text
  | .expression e => do
    let values ← Traced.forEach (e.resolve store s) e.varspecs
    e.renderPartially values

namespace Template

/-- The partial expansion of a template, with what it reports. -/
def expandPartialTraced (t : Template) (store : Store) (s : Settings) : Traced Failure Template := do
  let parts ← Traced.forEach (Component.expandPartially store s) t.components
  (parseTraced parts.flatten).mapError .parse

/-- The partial expansion of a template. -/
def expandPartial (t : Template) (store : Store) (s : Settings) : Except Failure Template :=
  (t.expandPartialTraced store s).outcome

/-- The partial expansion of the template with this source under a store and
further bindings given by keyword. -/
def expandPartialSource (source : Text) (store : Store) (keywords : List (Text × Value))
    (s : Settings) : Traced Failure Template := do
  let t ← (parseTraced source).mapError .parse
  let store ← Traced.ofExcept
    ((store.withKeywords Store.expansionParameters keywords).mapError .fault)
  t.expandPartialTraced store s

end Template

end UriExpansion
