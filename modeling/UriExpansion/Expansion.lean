/-
UriExpansion/Expansion.lean

Expanding a template.

Every variable of an expression is resolved, in order, before anything is
written.  The resolved values turn into units (`VarSpec.units`): a scalar and
an unexploded composite give one unit, an exploded composite one unit per
member, an undefined value none.  The units of all variables are joined with
the operator's separator, and the operator's opening text stands before them
if there is at least one.

An expansion reports each expression with the number of its units, and each
value that could not be resolved when the policy lets the expansion go on.
-/
import UriExpansion.Event
import UriExpansion.Resolved
import UriExpansion.Store
import UriExpansion.Template

namespace UriExpansion

/-- How reading or expanding a template ends without a result. -/
inductive Failure
  | parse (e : ParseError)
  | resolution (e : ResolutionError)
  | fault (f : Fault)
  deriving DecidableEq, Repr

/-! ### Units -/

/-- The encoded forms of texts under an operator. -/
def Operator.encodeAll (op : Operator) : List Text → Except Fault (List Text)
  | [] => .ok []
  | t :: rest => do
    let head ← Percent.encode op.profile t
    let tail ← encodeAll op rest
    return head :: tail

/-- The encoded forms of pairs under an operator. -/
def Operator.encodePairs (op : Operator) : List (Text × Text) → Except Fault (List (Text × Text))
  | [] => .ok []
  | (k, v) :: rest => do
    let key ← Percent.encode op.profile k
    let value ← Percent.encode op.profile v
    let tail ← encodePairs op rest
    return (key, value) :: tail

/-- A unit of an expansion: an encoded value, after its key if the operator
names its units. -/
def Operator.unit (op : Operator) (key encoded : Text) : Text :=
  if op.named then
    if encoded.isEmpty then key ++ op.ifEmpty else key ++ lit "=" ++ encoded
  else encoded

/-- The text of a scalar that a modifier keeps. -/
def Modifier.keep (m : Modifier) (t : Text) : Text :=
  match m with
  | .upTo n => t.take n
  | _ => t

/-- The units of a variable with a resolved value. -/
def VarSpec.units (op : Operator) (spec : VarSpec) : Resolved → Except Fault (List Text)
  | .undefined => .ok []
  | .scalar text => do
    let encoded ← Percent.encode op.profile (spec.modifier.keep text)
    return [op.unit spec.name encoded]
  | .list items => do
    let encoded ← op.encodeAll items
    return if spec.explodes then encoded.map (op.unit spec.name)
      else [op.unit spec.name (List.intercalate (lit ",") encoded)]
  | .map pairs => do
    let encoded ← op.encodePairs pairs
    return if spec.explodes then
        if op.named then encoded.map fun e => op.unit e.1 e.2
        else encoded.map fun e => e.1 ++ lit "=" ++ e.2
      else
        [op.unit spec.name (List.intercalate (lit ",") (encoded.map fun e => e.1 ++ lit "," ++ e.2))]

/-- The units of several variables with their values, in order. -/
def Operator.units (op : Operator) : List (VarSpec × Resolved) → Except Fault (List Text)
  | [] => .ok []
  | (spec, value) :: rest => do
    let head ← spec.units op value
    let tail ← units op rest
    return head ++ tail

/-- The units of an expression joined to its expansion. -/
def Operator.join (op : Operator) (units : List Text) : Text :=
  if units.isEmpty then [] else op.first ++ List.intercalate [op.separator] units

/-! ### Expressions -/

/-- The expansion of an expression whose variables have the given values. -/
def Expression.render (e : Expression) (values : List Resolved) : Traced Failure Text := do
  let units ← Traced.ofExcept ((e.operator.units (e.varspecs.zip values)).mapError .fault)
  Traced.emit (.expressionExpanded e.toText units.length)
  return e.operator.join units

/-- The resolved value of a variable of an expression. -/
def Expression.resolve (e : Expression) (store : Store) (s : Settings) (spec : VarSpec) :
    Traced Failure Resolved :=
  match ((store.get? spec.name).getD .none).resolve s with
  | .ok value => pure value
  | .error (.fault f) => Traced.ofExcept (.error (.fault f))
  | .error (.cause c) =>
    match s.onResolutionError with
    | .abort =>
      Traced.ofExcept (.error (.resolution ⟨c, some ⟨spec.name, e.toText, e.position⟩⟩))
    | .undefined => do
      Traced.emit (.resolutionFailed spec.name c.code c.message)
      return .undefined

/-- The expansion of an expression. -/
def Expression.expand (e : Expression) (store : Store) (s : Settings) : Traced Failure Text := do
  let values ← Traced.forEach (e.resolve store s) e.varspecs
  e.render values

/-! ### Templates -/

/-- The expansion of a component. -/
def Component.expand (store : Store) (s : Settings) : Component → Traced Failure Text
  | .literal text _ => Traced.ofExcept ((Percent.encodeLiteral text).mapError .fault)
  | .expression e => e.expand store s

namespace Template

/-- The expansion of a template, with what it reports. -/
def expandTraced (t : Template) (store : Store) (s : Settings) : Traced Failure Text := do
  let parts ← Traced.forEach (Component.expand store s) t.components
  return parts.flatten

/-- The expansion of a template. -/
def expand (t : Template) (store : Store) (s : Settings) : Except Failure Text :=
  (t.expandTraced store s).outcome

/-- The expansion of the template with this source under a store and further
bindings given by keyword. -/
def expandSource (source : Text) (store : Store) (keywords : List (Text × Value)) (s : Settings) :
    Traced Failure Text := do
  let t ← (parseTraced source).mapError .parse
  let store ← Traced.ofExcept
    ((store.withKeywords Store.expansionParameters keywords).mapError .fault)
  t.expandTraced store s

end Template

end UriExpansion
