/-
UriExpansion/Yaml/Node.lean

The nodes of a YAML document.

A node is a scalar, a sequence or a mapping, and has a tag.  An alias stands
for the very node that its anchor marks, which may be one that encloses it;
so nodes refer to each other by their places in a `Graph`, and a graph may
have cycles.

`Document.read` reads the one node of a stream that holds one document, token
by token as the scan provides them.  Of two things at fault the one counts
that is met first in this order of reading.
-/
import UriExpansion.Yaml.Tag
import UriExpansion.Yaml.Token

namespace UriExpansion.Yaml

/-- The place of a node in its graph. -/
abbrev NodeId := Nat

/-- What is in a node. -/
inductive Content
  | scalar (text : Text)
  | sequence (items : List NodeId)
  | mapping (entries : List (NodeId × NodeId))
  deriving Inhabited

/-- The kind of a content as it is told. -/
def Content.kindName : Content → Text
  | scalar _ => lit "scalar"
  | sequence _ => lit "sequence"
  | mapping _ => lit "mapping"

/-- A node of a document. -/
structure Node where
  tag : Text
  content : Content
  start : Mark
  deriving Inhabited

/-- The nodes of a document by their places. -/
abbrev Graph := Array Node

/-- The node that stands where nothing is written. -/
def Node.empty (place : Mark) : Node := ⟨standardTag "null", .scalar [], place⟩

/-! ### Reading -/

/-- What has been read: the scan of what is left, the nodes and anchors so
far, and the number of collections that enclose the place at hand. -/
structure Reader where
  scan : State
  nodes : Graph
  anchors : List (Text × NodeId)
  depth : Nat

/-- A step of reading. -/
abbrev Read (α : Type) := StateT Reader (Except Failure) α

/-- The number of collections that may enclose one another. -/
def maxDepth : Nat := 488

/-- What stands before the content of a node, and where the node begins. -/
structure Header where
  anchor : Option Text
  tag : Option Text
  start : Mark

/-- The tag of a node, unless it asks for the usual one. -/
def Header.ownTag (h : Header) : Option Text := h.tag.filter (· ≠ lit "!")

namespace Read

/-- The next token. -/
def peek : Read Lexeme := do
  let r ← get
  let (x, scan) ← r.scan.peek
  set { r with scan := scan }
  return x

/-- Passes the next token. -/
def advance : Read Unit := modify fun r => { r with scan := r.scan.drop }

/-- Passes the next token if it is `t`, and returns it. -/
def accept (t : Token) : Read (Option Lexeme) := do
  let x ← peek
  if x.token = t then
    advance
    return some x
  else return none

/-- Passes the next token, which must be `t`. -/
def expect (t : Token) (otherwise : Lexeme → Failure) : Read Unit := do
  let x ← peek
  if x.token = t then advance else throw (otherwise x)

/-- Whether the next token is one of the given ones. -/
def follows (ts : List Token) : Read Bool := do return ts.contains (← peek).token

/-- Adds a node. -/
def add (n : Node) : Read NodeId :=
  modifyGet fun r => (r.nodes.size, { r with nodes := r.nodes.push n })

/-- Adds the node of a place where nothing is written. -/
def addEmpty (place : Mark) : Read NodeId := add (Node.empty place)

/-- Where a node begins. -/
def startOf (id : NodeId) : Read Mark := do return ((← get).nodes.getD id default).start

/-- Adds a node under its anchor; no two nodes have the same one. -/
def addAnchored (anchor : Option Text) (n : Node) : Read NodeId := do
  match anchor with
  | none => add n
  | some name =>
    match (← get).anchors.find? fun e => e.1 = name with
    | some (_, first) =>
      throw (n.start.failureIn
        (lit "found duplicate anchor " ++ Text.quoted name ++ lit "; first occurrence")
        (← startOf first) (lit "second occurrence"))
    | none =>
      let id ← add n
      modify fun r => { r with anchors := (name, id) :: r.anchors }
      return id

/-- Adds a collection, which is there as soon as it begins and gets its
content when that has been read. -/
def addCollection (anchor : Option Text) (n : Node) (content : Read Content) : Read NodeId := do
  let id ← addAnchored anchor n
  if maxDepth ≤ (← get).depth then throw (.fault .nestedTooDeep)
  modify fun r => { r with depth := r.depth + 1 }
  let c ← content
  modify fun r => { r with depth := r.depth - 1, nodes := r.nodes.modify id fun n => { n with content := c } }
  return id

/-- Adds a sequence. -/
def addSequence (h : Header) (items : Read (List NodeId)) : Read NodeId :=
  addCollection h.anchor ⟨h.ownTag.getD (standardTag "seq"), .sequence [], h.start⟩
    (Content.sequence <$> items)

/-- Adds a mapping. -/
def addMapping (h : Header) (entries : Read (List (NodeId × NodeId))) : Read NodeId :=
  addCollection h.anchor ⟨h.ownTag.getD (standardTag "map"), .mapping [], h.start⟩
    (Content.mapping <$> entries)

/-- The tag that a handle and a suffix stand for, which are written at `place` before
the content of a node that begins at `since`. -/
def tagOf (handles : List (Text × Text)) (handle : Option Text) (suffix : Text)
    (since place : Mark) : Except Failure Text :=
  match handle with
  | none => .ok suffix
  | some h =>
    match handles.find? fun e => e.1 = h with
    | some (_, start) => .ok (start ++ suffix)
    | none => .error (place.failureIn (lit "while parsing a node") since
        (lit "found undefined tag handle " ++ Text.quoted h))

/-- The anchor and tag before a node, in either order. -/
def header (handles : List (Text × Text)) : Read Header := do
  let first ← peek
  match first.token with
  | .anchor name =>
    advance
    let second ← peek
    match second.token with
    | .tag handle suffix =>
      advance
      let tag ← tagOf handles handle suffix first.start second.start
      return ⟨some name, some tag, first.start⟩
    | _ => return ⟨some name, none, first.start⟩
  | .tag handle suffix =>
    advance
    let second ← peek
    match second.token with
    | .anchor name =>
      advance
      let tag ← tagOf handles handle suffix first.start first.start
      return ⟨some name, some tag, first.start⟩
    | _ =>
      let tag ← tagOf handles handle suffix first.start first.start
      return ⟨none, some tag, first.start⟩
  | _ => return ⟨none, none, first.start⟩

/-- Adds the node of a place where at most an anchor and a tag are written; a
node must be marked by one of them. -/
def addMarked (h : Header) (block : Bool) : Read NodeId := do
  if h.anchor.isSome || h.tag.isSome then
    addAnchored h.anchor ⟨h.ownTag.getD (standardTag "null"), .scalar [], h.start⟩
  else
    let x ← peek
    throw (x.start.failureIn
      (lit "while parsing a " ++ (if block then lit "block" else lit "flow") ++ lit " node") h.start
      (lit "expected the node content, but found " ++ x.shown))

/-- The node that an alias stands for. -/
def aliased (name : Text) (place : Mark) : Read NodeId := do
  match (← get).anchors.find? fun e => e.1 = name with
  | some (_, id) => return id
  | none => throw (place.failure (lit "found undefined alias " ++ Text.quoted name))

/-- Something else stands where a collection that began at `since` has to go on or to
end. -/
def unended (doing : Text) (since : Mark) (expected : Text) (x : Lexeme) : Failure :=
  x.start.failureIn doing since (expected ++ x.shown)

/-- The node behind the mark `x`, read by `read`; where one of `ends` follows, nothing
is written. -/
def nodeAfter (x : Lexeme) (ends : List Token) (read : Read NodeId) : Read NodeId := do
  if ← follows ends then addEmpty x.stop else read

/-- The value of a pair, if a colon announces one. -/
def valueNode (ends : List Token) (read : Read NodeId) : Read NodeId := do
  match ← accept .value with
  | some colon => nodeAfter colon ends read
  | none => addEmpty (← peek).start

/-- Passes the comma before an item that is not the first one. -/
def comma (first : Bool) (otherwise : Lexeme → Failure) : Read Unit :=
  if first then pure () else expect .flowEntry otherwise

mutual

/-- Reads a node; block collections only where `block` allows them, and a
sequence without indentation of its own only where `indentless` does.  Every
step of the reading uses up a token; `bound` limits their number. -/
def node (handles : List (Text × Text)) (block indentless : Bool) : Nat → Read NodeId
  | 0 => throw (.fault .nestedTooDeep)
  | bound + 1 => do
    let first ← peek
    match first.token with
    | .alias name =>
      advance
      aliased name first.start
    | _ =>
      let h ← header handles
      let x ← peek
      match x.token with
      | .blockEntry =>
        if indentless then addSequence h (indentlessEntries handles bound) else addMarked h block
      | .scalar plain text =>
        advance
        let kind := match h.ownTag with
          | some t => t
          | none => if plain || h.tag.isSome then plainTagOf text else standardTag "str"
        addAnchored h.anchor ⟨kind, .scalar text, h.start⟩
      | .flowSequenceStart =>
        advance
        addSequence h (flowItems handles x.start true bound)
      | .flowMappingStart =>
        advance
        addMapping h (flowEntries handles x.start true bound)
      | .blockSequenceStart =>
        if block then
          advance
          addSequence h (blockEntries handles x.start bound)
        else addMarked h block
      | .blockMappingStart =>
        if block then
          advance
          addMapping h (blockPairs handles x.start bound)
        else addMarked h block
      | _ => addMarked h block

/-- The entries of a block sequence up to its end. -/
def blockEntries (handles : List (Text × Text)) (since : Mark) : Nat → Read (List NodeId)
  | 0 => throw (.fault .nestedTooDeep)
  | bound + 1 => do
    match ← accept .blockEntry with
    | some hyphen =>
      let item ← nodeAfter hyphen [.blockEntry, .blockEnd] (node handles true false bound)
      return item :: (← blockEntries handles since bound)
    | none =>
      expect .blockEnd (unended (lit "while parsing a block collection") since
        (lit "expected <block end>, but found "))
      return []

/-- The entries of a sequence that is indented like the mapping around it. -/
def indentlessEntries (handles : List (Text × Text)) : Nat → Read (List NodeId)
  | 0 => throw (.fault .nestedTooDeep)
  | bound + 1 => do
    match ← accept .blockEntry with
    | some hyphen =>
      let item ← nodeAfter hyphen [.blockEntry, .key, .value, .blockEnd]
        (node handles true false bound)
      return item :: (← indentlessEntries handles bound)
    | none => return []

/-- The pairs of a block mapping up to its end. -/
def blockPairs (handles : List (Text × Text)) (since : Mark) : Nat → Read (List (NodeId × NodeId))
  | 0 => throw (.fault .nestedTooDeep)
  | bound + 1 => do
    match ← accept .key with
    | some mark =>
      let key ← nodeAfter mark [.key, .value, .blockEnd] (node handles true true bound)
      let value ← valueNode [.key, .value, .blockEnd] (node handles true true bound)
      return (key, value) :: (← blockPairs handles since bound)
    | none =>
      expect .blockEnd (unended (lit "while parsing a block mapping") since
        (lit "expected <block end>, but found "))
      return []

/-- The key and value of a pair between brackets that `closing` ends, which the token
`mark` announces. -/
def flowPair (handles : List (Text × Text)) (mark : Lexeme) (closing : Token) :
    Nat → Read (NodeId × NodeId)
  | 0 => throw (.fault .nestedTooDeep)
  | bound + 1 => do
    let key ← nodeAfter mark [.value, .flowEntry, closing] (node handles false false bound)
    let value ← valueNode [.flowEntry, closing] (node handles false false bound)
    return (key, value)

/-- The items of a bracketed sequence up to its end; a comma stands between
two of them. -/
def flowItems (handles : List (Text × Text)) (since : Mark) (first : Bool) :
    Nat → Read (List NodeId)
  | 0 => throw (.fault .nestedTooDeep)
  | bound + 1 => do
    if (← accept .flowSequenceEnd).isSome then return []
    comma first (unended (lit "while parsing a flow sequence") since
      (lit "expected ',' or ']', but got "))
    match ← accept .key with
    | some mark =>
      let item ← addMapping ⟨none, none, mark.start⟩
        ((fun e => [e]) <$> flowPair handles mark .flowSequenceEnd bound)
      return item :: (← flowItems handles since false bound)
    | none =>
      if (← accept .flowSequenceEnd).isSome then return []
      else
        let item ← node handles false false bound
        return item :: (← flowItems handles since false bound)

/-- The pairs of a bracketed mapping up to its end. -/
def flowEntries (handles : List (Text × Text)) (since : Mark) (first : Bool) :
    Nat → Read (List (NodeId × NodeId))
  | 0 => throw (.fault .nestedTooDeep)
  | bound + 1 => do
    if (← accept .flowMappingEnd).isSome then return []
    comma first (unended (lit "while parsing a flow mapping") since
      (lit "expected ',' or '\x7d', but got "))
    match ← accept .key with
    | some mark =>
      let entry ← flowPair handles mark .flowMappingEnd bound
      return entry :: (← flowEntries handles since false bound)
    | none =>
      if (← accept .flowMappingEnd).isSome then return []
      else
        let key ← node handles false false bound
        let value ← addEmpty (← peek).start
        return (key, value) :: (← flowEntries handles since false bound)

end

/-! ### Documents -/

/-- The handles that need no directive. -/
def usualHandles : List (Text × Text) := [(lit "!", lit "!"), (lit "!!", lit "tag:yaml.org,2002:")]

/-- The directives before a document: whether a version was given, and the
handles declared. -/
def directives (versioned : Bool) (handles : List (Text × Text)) :
    Nat → Read (List (Text × Text))
  | 0 => throw (.fault .nestedTooDeep)
  | bound + 1 => do
    let x ← peek
    match x.token with
    | .versionDirective major =>
      advance
      if versioned then throw (x.start.failure (lit "found duplicate YAML directive"))
      if major ≠ 1 then
        throw (x.start.failure (lit "found incompatible YAML document (version 1.* is required)"))
      directives true handles bound
    | .tagDirective handle start =>
      advance
      if handles.any fun e => e.1 = handle then
        throw (x.start.failure (lit "duplicate tag handle " ++ Text.quoted handle))
      directives versioned (handles ++ [(handle, start)]) bound
    | .otherDirective =>
      advance
      directives versioned handles bound
    | _ => return handles

/-- Whether the next token is a directive or one of the given ones. -/
def directiveOr (ts : List Token) : Read Bool := do
  match (← peek).token with
  | .versionDirective _ => return true
  | .tagDirective .. => return true
  | .otherDirective => return true
  | t => return ts.contains t

/-- Passes marks for the end of a document. -/
def passEnds : Nat → Read Unit
  | 0 => return
  | bound + 1 => do if (← accept .documentEnd).isSome then passEnds bound

/-- Passes the directives and the mark before a document, and returns the handles
declared. -/
def documentStart (bound : Nat) : Read (List (Text × Text)) := do
  let handles ← directives false [] bound
  expect .documentStart fun x =>
    x.start.failure (lit "expected '<document start>', but found " ++ x.shown)
  return handles

/-- The node of the first document of a stream that is not empty. -/
def document (bound : Nat) : Read NodeId := do
  if ← directiveOr [.documentStart] then
    let handles ← documentStart bound
    if ← directiveOr [.documentStart, .documentEnd, .streamEnd] then addEmpty (← peek).start
    else node (handles ++ usualHandles) true false bound
  else node usualHandles true false bound

/-- The node of the only document of a stream; a stream may be empty. -/
def stream (bound : Nat) : Read (Option NodeId) := do
  if ← follows [.streamEnd] then return none
  let root ← document bound
  passEnds bound
  let second ← peek
  if second.token = .streamEnd then return some root
  let _ ← documentStart bound
  throw (second.start.failureIn (lit "expected a single document in the stream") (← startOf root)
    (lit "but found another document"))

end Read

/-- What a stream holds: its nodes, and the one that stands for all. -/
structure Document where
  nodes : Graph
  root : Option NodeId

/-- Reads the only document of a stream. -/
def Document.read (cs : List Char) : Except Failure Document := do
  let scan ← State.ofDocument cs
  let (root, r) ← (Read.stream (8 * cs.length + 16)).run ⟨scan, #[], [], 0⟩
  return ⟨r.nodes, root⟩

end UriExpansion.Yaml
