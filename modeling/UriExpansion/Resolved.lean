/-
UriExpansion/Resolved.lean

What a bound value means to an expansion: nothing, a scalar, a list or an
associative list, all of them text.

Absent members are left out before anything else is asked of them, and a list
or mapping in which nothing is left counts as undefined.  Members are taken in
order, the key of a pair before its value, and the first that has no text, or
whose text cannot be encoded, ends the resolution.
-/
import UriExpansion.Host.Explosion
import UriExpansion.Value.Scalar

namespace UriExpansion

/-- The meaning of a bound value. -/
inductive Resolved
  | undefined
  | scalar (text : Text)
  | list (items : List Text)
  | map (pairs : List (Text × Text))
  deriving DecidableEq, Repr

namespace Resolved

/-- Whether there is a value. -/
def isDefined : Resolved → Bool
  | undefined => false
  | _ => true

/-- A list of items, undefined if there are none. -/
def ofItems : List Text → Resolved
  | [] => undefined
  | items => list items

/-- A list of pairs, undefined if there are none. -/
def ofPairs : List (Text × Text) → Resolved
  | [] => undefined
  | pairs => map pairs

end Resolved

namespace Value

/-- Passes a text on if it can be encoded. -/
def encodable (t : Text) : Except Obstacle Text :=
  match t.firstSurrogate? with
  | .none => .ok t
  | some i => .error (.cause (.surrogate i))

/-- A scalar's text, if it can be encoded. -/
def encodableText (text : Except Fault Text) : Except Obstacle Text :=
  match text with
  | .ok t => encodable t
  | .error f => .error (.fault f)

/-- The text of a member of a list or mapping. -/
def memberText (s : Settings) (v : Value) : Except Obstacle Text :=
  match v.scalarText? s with
  | some text => encodableText text
  | .none => .error (.cause (.nestedComposite v.typeName))

/-- The text of a key. -/
def keyText (s : Settings) (k : Value) : Except Obstacle Text :=
  match k.scalarText? s with
  | some text => encodableText text
  | .none => encodableText k.shown

/-- The texts of the members that are present. -/
def itemTexts (s : Settings) : List Value → Except Obstacle (List Text)
  | [] => .ok []
  | v :: rest =>
    if v.isNone then itemTexts s rest
    else do
      let text ← memberText s v
      let texts ← itemTexts s rest
      return text :: texts

/-- The texts of the pairs whose values are present. -/
def pairTexts (s : Settings) : List (Value × Value) → Except Obstacle (List (Text × Text))
  | [] => .ok []
  | (k, v) :: rest =>
    if v.isNone then pairTexts s rest
    else do
      let key ← keyText s k
      let text ← memberText s v
      let texts ← pairTexts s rest
      return (key, text) :: texts

/-- The meaning of a value that is no scalar. -/
def resolveComposite (s : Settings) : Value → Except Obstacle Resolved
  | none => .ok .undefined
  | map entries => (pairTexts s entries).map .ofPairs
  | store entries => (pairTexts s entries).map .ofPairs
  | list items => (itemTexts s items).map .ofItems
  | tuple items => (itemTexts s items).map .ofItems
  | v => do
    let pairs ← v.explode
    let texts ← pairTexts s pairs
    return .ofPairs texts

/-- The meaning of a value. -/
def resolve (s : Settings) (v : Value) : Except Obstacle Resolved :=
  match v.scalarText? s with
  | some text => (encodableText text).map .scalar
  | .none => resolveComposite s v

end Value

end UriExpansion
