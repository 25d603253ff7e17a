/-
UriExpansion/Yaml/Meaning.lean

The value that a YAML document denotes.

The shapes of the nodes are put together to a value.  A node that is aliased
gives the same value wherever it is named.  A collection that contains itself
has no finite value; it is given down to `shownDepth` levels, and what is in
it below them counts as absent.  An expansion never looks there: it asks for
the members of a variable's value and for their kinds.
-/
import UriExpansion.Value.Display
import UriExpansion.Yaml.Shape

namespace UriExpansion.Yaml

/-- The value of a shape, given the values of the nodes in it. -/
def Shape.value (valueOf : NodeId → Value) : Shape → Value
  | atom v => v
  | list items => .list (items.map valueOf)
  | pairs items => .list (items.map fun e => .tuple [valueOf e.1, valueOf e.2])
  | map entries => .map (entries.map fun e => (e.1, valueOf e.2))
  | set members => .ofMembers members

/-- The nodes in a shape. -/
def Shape.parts : Shape → List NodeId
  | atom _ => []
  | list items => items
  | pairs items => items.flatMap fun e => [e.1, e.2]
  | map entries => entries.map Prod.snd
  | set _ => []

/-- The values of nodes as far as they are known: nothing before a node has
been visited, and no value while its parts are being visited or if it contains
itself. -/
abbrev Known := Array (Option (Option Value))

namespace Known

/-- The value of a node, if it is known. -/
def value? (known : Known) (id : NodeId) : Option Value := (known.getD id none).join

/-- Finds the values of a node and of all nodes in it that do not contain
themselves.  The nodes that are being visited differ from each other, so their
number bounds the depth of the visit. -/
def visit (shapes : Array (Option Shape)) : Nat → NodeId → StateM Known Unit
  | 0, _ => return
  | bound + 1, id => do
    if ((← get).getD id none).isNone then
      modify fun known => known.setIfInBounds id (some none)
      match shapes.getD id none with
      | none => return
      | some shape =>
        shape.parts.forM (visit shapes bound)
        modify fun known =>
          if shape.parts.all fun part => (known.value? part).isSome then
            known.setIfInBounds id (some (some (shape.value fun part => (known.value? part).getD .none)))
          else known

/-- The values of all nodes: in full if they are known, else down to so many
levels below the node. -/
def approximate (shapes : Array (Option Shape)) (known : Known) : Nat → Array Value
  | 0 => approach fun _ => .none
  | depth + 1 =>
    let below := approximate shapes known depth
    approach fun part => below.getD part .none
where
  /-- The known values, and those of the shapes over the given ones. -/
  approach (valueOf : NodeId → Value) : Array Value :=
    shapes.mapIdx fun id shape => match known.value? id with
      | some v => v
      | none => ((shape.map (Shape.value valueOf)).getD .none)

end Known

/-- The number of levels down to which a collection that contains itself is
given. -/
def shownDepth : Nat := 3

/-- The value of the node `root` of a graph whose nodes have the given shapes. -/
def valueOf (shapes : Array (Option Shape)) (root : NodeId) : Value :=
  let (_, known) := (Known.visit shapes (shapes.size + 1) root).run (Array.replicate shapes.size none)
  match known.value? root with
  | some v => v
  | none => (Known.approximate shapes known shownDepth).getD root .none

/-- The value of a document; an empty stream denotes the absence of one. -/
def read (cs : List Char) : Except Failure Value := do
  let document ← Document.read cs
  match document.root with
  | none => return .none
  | some root => return valueOf (← document.nodes.shapes root) root

end UriExpansion.Yaml
