/-
UriExpansion/Yaml/Shape.lean

What the nodes of a YAML document denote, node by node.

A scalar denotes an atom.  A sequence or mapping denotes a collection, whose
`Shape` refers to the nodes in it; so each node is judged once, however often
it is aliased, and a collection may contain itself.

Collections are filled in the order in which they were met, the outermost
first, and filling one judges the nodes in it.  Hence of several things at
fault the one nearest to the root counts, and the first of those on one
level.  Filling a mapping rewrites its node: merge keys give way to the
entries of the mappings they name, and the mark `=` becomes ordinary text.
-/
import UriExpansion.Value.Sameness
import UriExpansion.Yaml.Node
import UriExpansion.Yaml.ScalarValue

namespace UriExpansion.Yaml

/-- What a node denotes. -/
inductive Shape
  | atom (v : Value)
  | list (items : List NodeId)
  /-- A list of pairs. -/
  | pairs (items : List (NodeId × NodeId))
  | map (entries : List (Value × NodeId))
  | set (members : List Value)
  deriving Inhabited

/-- The kinds of nodes. -/
inductive Kind
  | text
  | null
  | truth
  | integer
  | float
  | timestamp
  | binary
  | sequence
  /-- Pairs, which may be called an ordered mapping. -/
  | pairs ( isOrdered : Bool)
  | mapping
  | set
  deriving DecidableEq

/-- The kind that a tag stands for, if it stands for one. -/
def Kind.ofTag? (tag : Text) : Option Kind :=
  let names : List (String × Kind) := [("str", .text), ("null", .null), ("bool", .truth),
    ("int", .integer), ("float", .float), ("timestamp", .timestamp), ("binary", .binary),
    ("seq", .sequence), ("omap", .pairs true), ("pairs", .pairs false), ("map", .mapping),
    ("set", .set)]
  (names.find? fun e => standardTag e.1 = tag).map Prod.snd

/-- How far the nodes of a document have been judged. -/
structure Judgement where
  nodes : Graph
  shapes : Array (Option Shape)
  /-- The collections in the order in which they were met. -/
  met : Array NodeId
  /-- More than the number of entries of all mappings. -/
  entryBound : Nat

/-- A step of judging. -/
abbrev Judge (α : Type) := StateT Judgement (Except Failure) α

namespace Judge

/-- A node. -/
def node (id : NodeId) : Judge Node := do return (← get).nodes.getD id default

/-- The tag of a node. -/
def tag (id : NodeId) : Judge Text := do return (← node id).tag

/-- Where a node begins. -/
def start (id : NodeId) : Judge Mark := do return (← node id).start

/-- A node is of a kind other than the one expected. -/
def unexpected (expected : String) (n : Node) : Failure :=
  n.start.failure (lit "expected a " ++ lit expected ++ lit " node, but found " ++ n.content.kindName)

/-- The entries of a node, which has to be a mapping. -/
def entries (id : NodeId) : Judge (List (NodeId × NodeId)) := do
  let n ← node id
  match n.content with
  | .mapping entries => return entries
  | _ => throw (unexpected "mapping" n)

/-- Replaces the entries of a mapping. -/
def setEntries (id : NodeId) (entries : List (NodeId × NodeId)) : Judge Unit :=
  modify fun j => { j with nodes := j.nodes.modify id fun n => { n with content := .mapping entries } }

/-- Records what a node denotes. -/
def record (id : NodeId) (s : Shape) : Judge Unit :=
  modify fun j => { j with shapes := j.shapes.setIfInBounds id (some s) }

/-! ### Scalars -/

/-- The text of a scalar node, or of the value marked `=` in a mapping.  Every
step goes on to another node, so more steps than there are nodes never end. -/
def textOf : Nat → NodeId → Judge Text
  | 0, _ => throw (.fault .nestedTooDeep)
  | bound + 1, id => do
    let n ← node id
    match n.content with
    | .scalar text => return text
    | .sequence _ => throw (unexpected "scalar" n)
    | .mapping entries =>
      let marked ← entries.filterM fun e => do return (← tag e.1) = standardTag "value"
      match marked with
      | (_, v) :: _ => textOf bound v
      | [] => throw (unexpected "scalar" n)

/-- The text that a node is judged by. -/
def text (id : NodeId) : Judge Text := do textOf ((← get).nodes.size + 1) id

/-- The date or moment of a node, which has to be a scalar itself. -/
def date (id : NodeId) : Judge Value := do
  let _ ← text id
  match (← node id).content with
  | .scalar t => dateOf t
  | _ => throw (.fault .notScalar)

/-! ### Merging -/

/-- The entries before the first merge key; a key marked `=` among them becomes
ordinary text. -/
def withoutMerges : List (NodeId × NodeId) → Judge (List (NodeId × NodeId))
  | [] => return []
  | e :: rest => do
    let key ← tag e.1
    if key = standardTag "merge" then return []
    if key = standardTag "value" then
      modify fun j => { j with nodes := j.nodes.modify e.1 fun n => { n with tag := standardTag "str" } }
    return e :: (← withoutMerges rest)

/-- What a merge key in the mapping `into` names has to be a mapping, or to be `expected`
otherwise. -/
def unmergeable (into : Mark) (expected : String) (n : Node) : Failure :=
  n.start.failureIn (lit "while constructing a mapping") into
    (lit "expected a mapping " ++ lit expected ++ lit "for merging, but found " ++ n.content.kindName)

mutual

/-- Takes the merge keys out of a mapping and returns the entries that they
bring in.  Every merge key is taken out once, so the number of entries bounds
the number of steps; a mapping that is met again while it is being merged has
no merge keys left but those not yet come to. -/
def takeMerges : Nat → NodeId → Judge (List (NodeId × NodeId))
  | 0, _ => throw (.fault .nestedTooDeep)
  | bound + 1, id => do
    let all ← entries id
    let before ← withoutMerges all
    match all.drop before.length with
    | [] => return []
    | (_, source) :: after => do
      setEntries id (before ++ after)
      let brought ← mergedFrom bound (← start id) source
      return brought ++ (← takeMerges bound id)

/-- The entries that a merge key with the given value brings into the mapping that
begins at `into`: those of a mapping, or of a sequence of mappings, the last one
first. -/
def mergedFrom : Nat → Mark → NodeId → Judge (List (NodeId × NodeId))
  | 0, _, _ => throw (.fault .nestedTooDeep)
  | bound + 1, into, source => do
    let n ← node source
    match n.content with
    | .mapping _ => flattened bound source
    | .sequence items => do
      let parts ← items.mapM fun item => do
        let part ← node item
        match part.content with
        | .mapping _ => flattened bound item
        | _ => throw (unmergeable into "" part)
      return parts.reverse.flatten
    | .scalar _ => throw (unmergeable into "or list of mappings " n)

/-- The entries of a mapping with those that merge keys bring in put first;
the mapping has these entries from now on. -/
def flattened : Nat → NodeId → Judge (List (NodeId × NodeId))
  | 0, _ => throw (.fault .nestedTooDeep)
  | bound + 1, id => do
    let brought ← takeMerges bound id
    let own ← entries id
    if brought.isEmpty then return own
    setEntries id (brought ++ own)
    return brought ++ own

end

/-! ### Nodes -/

/-- Judges a collection, for now as empty. -/
def begin (id : NodeId) (empty : Shape) : Judge Shape := do
  modify fun j => { j with met := j.met.push id }
  return empty

/-- Judges a node, unless that has been done. -/
def visit (id : NodeId) : Judge Shape := do
  match (← get).shapes.getD id none with
  | some s => return s
  | none =>
    let s ← match Kind.ofTag? (← tag id) with
      | some .text => Shape.atom <$> (Value.str <$> text id)
      | some .null => do
        let _ ← text id
        pure (.atom .none)
      | some .truth => do pure (.atom (.bool (← booleanOf (← text id))))
      | some .integer => do pure (.atom (.int (← integerOf (← text id))))
      | some .float => do pure (.atom (.float (← floatOf (id + 1) (← text id))))
      | some .timestamp => Shape.atom <$> date id
      | some .binary => do pure (.atom (.bytes (← octetsOf (← start id) (← text id))))
      | some .sequence => begin id (.list [])
      | some (.pairs _) => begin id (.pairs [])
      | some .mapping => begin id (.map [])
      | some .set => begin id (.set [])
      | none =>
        throw ((← start id).failure (lit "could not determine a constructor for the tag "
          ++ Text.quoted (← tag id)))
    record id s
    return s

/-- The items of a node, which has to be a sequence. -/
def items (id : NodeId) (otherwise : Node → Failure) : Judge (List NodeId) := do
  let n ← node id
  match n.content with
  | .sequence items => return items
  | _ => throw (otherwise n)

/-- Something else stands where pairs are written that begin at `since`. -/
def noPair ( isOrdered : Bool) (since : Mark) (wording : Text) (n : Node) : Failure :=
  n.start.failureIn
    (if isOrdered then lit "while constructing an ordered map" else lit "while constructing pairs")
    since wording

/-- The pair that a mapping with one entry stands for. -/
def pairOf ( isOrdered : Bool) (since : Mark) (id : NodeId) : Judge (NodeId × NodeId) := do
  let n ← node id
  match n.content with
  | .mapping [(k, v)] =>
    let _ ← visit k
    let _ ← visit v
    return (k, v)
  | .mapping entries =>
    throw (noPair isOrdered since (lit "expected a single mapping item, but found "
      ++ Text.ofNat entries.length ++ lit " items") n)
  | content =>
    throw (noPair isOrdered since
      (lit "expected a mapping of length 1, but found " ++ content.kindName) n)

/-- The pairs of a node, which has to be a sequence of such mappings. -/
def pairedItems ( isOrdered : Bool) (id : NodeId) : Judge (List (NodeId × NodeId)) := do
  let since ← start id
  let items ← items id fun n =>
    noPair isOrdered since (lit "expected a sequence, but found " ++ n.content.kindName) n
  items.mapM (pairOf isOrdered since)

/-- The entries of a mapping, whose keys have to be atoms. -/
def pairsOf (id : NodeId) : Judge (List (Value × NodeId)) := do
  let all ← flattened (3 * (← get).entryBound) id
  all.mapM fun (k, v) => do
    match ← visit k with
    | .atom key =>
      let _ ← visit v
      return (key, v)
    | _ =>
      throw ((← start k).failureIn (lit "while constructing a mapping") (← start id)
        (lit "found unhashable key"))

/-- Fills a collection. -/
def fill (id : NodeId) : Judge Unit := do
  match Kind.ofTag? (← tag id) with
  | some .sequence =>
    let items ← items id (unexpected "sequence")
    items.forM fun item => do let _ ← visit item
    record id (.list items)
  | some (.pairs isOrdered) => do record id (.pairs (← pairedItems isOrdered id))
  | some .mapping => do record id (.map (Value.bindAll (← pairsOf id)))
  | some .set => do record id (.set ((← pairsOf id).map Prod.fst))
  | _ => return

/-- Fills the collections from the `k`-th on that has been met. -/
def fillFrom : Nat → Nat → Judge Unit
  | 0, _ => return
  | bound + 1, k => do
    match (← get).met[k]? with
    | some id =>
      fill id
      fillFrom bound (k + 1)
    | none => return

end Judge

/-- The shapes of the nodes of a graph that can be reached from `root`. -/
def Graph.shapes (g : Graph) (root : NodeId) : Except Failure (Array (Option Shape)) := do
  let count := g.foldl (fun n node => match node.content with
    | .mapping entries => n + entries.length
    | _ => n) 1
  let judge : Judge Unit := do
    let _ ← Judge.visit root
    Judge.fillFrom (g.size + 1) 0
  let (_, j) ← judge.run ⟨g, Array.replicate g.size none, #[], count⟩
  return j.shapes

end UriExpansion.Yaml
