/-
UriExpansion/Yaml/Token.lean

Cutting a YAML document into tokens.

Indentation is turned into tokens of its own: a block sequence or mapping has
a token for its beginning, set where a deeper column is reached, and one for
its end, set where the column is left.  A mapping key need not be announced:
whatever could begin a key is remembered for each level of brackets, and when
its colon follows on the same line the announcement is put in front of it
after the fact (`State.value`).

The document is read no further than needed: `State.settle` reads on until
the next token is there and can no more turn out to be a key.  What is wrong
further on is met only by those who ask for it.
-/
import UriExpansion.Text.Utf8
import UriExpansion.Yaml.ScalarText

namespace UriExpansion.Yaml

/-- A token of a document. -/
inductive Token
  | versionDirective (major : Nat)
  | tagDirective (handle start : Text)
  | otherDirective
  | documentStart
  | documentEnd
  | streamEnd
  | blockSequenceStart
  | blockMappingStart
  | blockEnd
  | flowSequenceStart
  | flowSequenceEnd
  | flowMappingStart
  | flowMappingEnd
  | blockEntry
  | flowEntry
  | key
  | value
  | alias (name : Text)
  | anchor (name : Text)
  | tag (handle : Option Text) (suffix : Text)
  | scalar (plain : Bool) (text : Text)
  deriving DecidableEq, Repr

/-- The kind of a token as it is told. -/
def Token.kindName : Token → Text
  | .versionDirective _ => lit "<directive>"
  | .tagDirective .. => lit "<directive>"
  | .otherDirective => lit "<directive>"
  | .documentStart => lit "<document start>"
  | .documentEnd => lit "<document end>"
  | .streamEnd => lit "<stream end>"
  | .blockSequenceStart => lit "<block sequence start>"
  | .blockMappingStart => lit "<block mapping start>"
  | .blockEnd => lit "<block end>"
  | .flowSequenceStart => lit "["
  | .flowSequenceEnd => lit "]"
  | .flowMappingStart => lit "\x7b"
  | .flowMappingEnd => lit "\x7d"
  | .blockEntry => lit "-"
  | .flowEntry => lit ","
  | .key => lit "?"
  | .value => lit ":"
  | .alias _ => lit "<alias>"
  | .anchor _ => lit "<anchor>"
  | .tag .. => lit "<tag>"
  | .scalar .. => lit "<scalar>"

/-- A token in its place. -/
structure Lexeme where
  token : Token
  start : Mark
  /-- Where the scan goes on behind the token. -/
  stop : Mark

/-- The kind of a token between quotes. -/
def Lexeme.shown (x : Lexeme) : Text := Text.quoted x.token.kindName

/-! ### Names, tags and directives -/

/-- The name of an anchor or alias; the cursor is at its mark. -/
def anchorName (kind : Text) (c : Cursor) : Except Failure (Text × Cursor) :=
  let since := c.mark
  let (name, c) := c.step.span isWordChar
  let ends := isBlankOrEnd c.head || c.head.any (· ∈ ['?', ':', ',', ']', '}', '%', '@', '\u0060'])
  if name.isEmpty || !ends then
    .error (c.mark.failureIn (lit "while scanning an " ++ kind) since
      (lit "expected alphabetic or numeric character, but found " ++ c.found 0))
  else .ok (ofChars name, c)

section
-- The names and texts of tags stand in tags themselves and in directives, and what is
-- wrong with one is told with what it stands in and where that begins.
variable (within : Text) (since : Mark)

/-- Something is wrong with what is being read. -/
def scanFailure (c : Cursor) (wording : Text) : Failure :=
  c.mark.failureIn (lit "while scanning a " ++ within) since wording

/-- The octets of a run of escapes `%XX`. -/
def uriOctets : Nat → Cursor → Except Failure (List UInt8 × Cursor)
  | 0, c => .ok ([], c)
  | bound + 1, c =>
    if c.head = some '%' then
      let c := c.step
      let digits := (c.rest.take 2).takeWhile isHex
      if digits.length < 2 then
        .error (scanFailure within since c
          (lit "expected URI escape sequence of 2 hexadecimal numbers, but found "
            ++ c.found digits.length))
      else do
        let octet := UInt8.ofNat ((Text.hexValue? (ofChars digits)).getD 0)
        let (octets, c) ← uriOctets bound (c.forward 2)
        return (octet :: octets, c)
    else .ok ([], c)

/-- A character of a tag that needs no escape. -/
def isUriChar (c : Char) : Bool :=
  c.isAlphanum || c ∈ ['-', ';', '/', '?', ':', '@', '&', '=', '+', '$', ',', '_', '.', '!', '~',
    '*', '\'', '(', ')', '[', ']']

/-- A run of tag characters and escapes, possibly empty. -/
def uriText : Nat → Cursor → Except Failure (List Char × Cursor)
  | 0, c => .ok ([], c)
  | bound + 1, c => do
    let (run, c) := c.span isUriChar
    if c.head = some '%' then
      let (octets, after) ← uriOctets within since c.bound c
      match String.fromUTF8? ⟨octets.toArray⟩ with
      | some s =>
        let (more, c) ← uriText bound after
        return (run ++ s.toList ++ more, c)
      | none =>
        throw (scanFailure within since c
          (((Utf8.refusal? octets).map fun r => r.message octets).getD []))
    else return (run, c)

/-- A tag without its handle; it is not empty. -/
def tagSuffix (c : Cursor) : Except Failure (Text × Cursor) := do
  let (cs, after) ← uriText within since c.bound c
  if cs.isEmpty && after.index = c.index then
    throw (c.mark.failureIn (lit "while parsing a " ++ within) since
      (lit "expected URI, but found " ++ c.found 0))
  return (ofChars cs, after)

/-- A handle: `!`, or a word between two of them. -/
def tagHandle (c : Cursor) : Except Failure (Text × Cursor) :=
  let failure := fun (c : Cursor) =>
    scanFailure within since c (lit "expected '!', but found " ++ c.found 0)
  if c.head ≠ some '!' then .error (failure c)
  else if c.peek 1 = some ' ' then .ok (ofChars ['!'], c.step)
  else
    let word := (c.rest.drop 1).takeWhile isWordChar
    let after := c.forward (word.length + 1)
    if after.head = some '!' then .ok (ofChars ('!' :: word ++ ['!']), after.step)
    else .error (failure after)

end

/-- A tag; the cursor is at its mark. -/
def tag (c : Cursor) : Except Failure (Token × Cursor) := do
  let since := c.mark
  let within := lit "tag"
  let (t, c) ←
    if c.peek 1 = some '<' then do
      let (suffix, c) ← tagSuffix within since (c.forward 2)
      if c.head ≠ some '>' then
        throw (c.mark.failureIn (lit "while parsing a tag") since
          (lit "expected '>', but found " ++ c.found 0))
      pure (Token.tag none suffix, c.step)
    else if isBlankOrEnd (c.peek 1) then pure (Token.tag none (ofChars ['!']), c.step)
    else
      let word := (c.rest.drop 1).takeWhile fun ch => !isSpaceOrEnd (some ch)
      if word.contains '!' then do
        let (handle, c) ← tagHandle within since c
        let (suffix, c) ← tagSuffix within since c
        pure (Token.tag (some handle) suffix, c)
      else do
        let (suffix, c) ← tagSuffix within since c.step
        pure (Token.tag (some (ofChars ['!'])) suffix, c)
  if isSpaceOrEnd c.head then return (t, c)
  else throw (scanFailure within since c (lit "expected ' ', but found " ++ c.found 0))

/-- Something is wrong with a directive. -/
def directiveFailure (since : Mark) (c : Cursor) (expected : Text) : Failure :=
  c.mark.failureIn (lit "while scanning a directive") since
    (lit "expected " ++ expected ++ lit ", but found " ++ c.found 0)

/-- The number of a version. -/
def versionNumber (since : Mark) (c : Cursor) : Except Failure (Nat × Cursor) :=
  let (digits, after) := c.span Char.isDigit
  if digits.isEmpty then .error (directiveFailure since c (lit "a digit"))
  else if maxDigits < digits.length then .error (.fault .integerTooLong)
  else .ok (Text.decimalValue (ofChars digits), after)

/-- A directive without the rest of its line; the cursor is at its mark. -/
def directive (c : Cursor) : Except Failure (Token × Cursor) := do
  let since := c.mark
  let within := lit "directive"
  let (name, c) := c.step.span isWordChar
  if name.isEmpty || !isSpaceOrEnd c.head then
    throw (directiveFailure since c (lit "alphabetic or numeric character"))
  if name = ['Y', 'A', 'M', 'L'] then
    let (major, c) ← versionNumber since (c.skip (· = ' '))
    if c.head ≠ some '.' then throw (directiveFailure since c (lit "a digit or '.'"))
    let (_, c) ← versionNumber since c.step
    if !isSpaceOrEnd c.head then throw (directiveFailure since c (lit "a digit or ' '"))
    return (.versionDirective major, c)
  else if name = ['T', 'A', 'G'] then
    let (handle, c) ← tagHandle within since (c.skip (· = ' '))
    if c.head ≠ some ' ' then throw (directiveFailure since c (lit "' '"))
    let (start, c) ← tagSuffix within since (c.skip (· = ' '))
    if !isSpaceOrEnd c.head then throw (directiveFailure since c (lit "' '"))
    return (.tagDirective handle start, c)
  else return (.otherDirective, c.skip fun ch => !isBreak ch)

/-! ### The state of the scan -/

/-- What could turn out to be a mapping key. -/
structure PossibleKey where
  /-- How many tokens stand before it, those already taken included. -/
  before : Nat
  /-- Whether nothing but a key may stand in its place. -/
  required : Bool
  mark : Mark

/-- The state of a scan. -/
structure State where
  cursor : Cursor
  /-- The tokens that have been read and not yet taken. -/
  tokens : List Lexeme
  /-- How many tokens have been taken. -/
  taken : Nat
  /-- The indentation of the innermost block, and those around it. -/
  indent : Int
  outer : List Int
  /-- How many brackets are open.  A bracket that closes none counts as well; no token
  behind it is ever asked for. -/
  flowLevel : Int
  /-- Whether a key may begin here without announcement. -/
  allowKey : Bool
  /-- The possible keys by level of brackets. -/
  possibleKeys : List (Int × PossibleKey)
  /-- Whether the last token has been read. -/
  finished : Bool

namespace State

/-- The state before the first token; a byte order mark is passed. -/
def start (cs : List Char) : State :=
  let c := Cursor.start cs
  ⟨if c.head = some '\uFEFF' then c.step else c, [], 0, -1, [], 0, true, [], false⟩

/-- Whether some bracket is open. -/
def inFlow (s : State) : Bool := s.flowLevel ≠ 0

/-- How many tokens have been read. -/
def count (s : State) : Nat := s.taken + s.tokens.length

/-- A token that takes up no characters and stands where the scan does. -/
def here (s : State) (t : Token) : Lexeme := ⟨t, s.cursor.mark, s.cursor.mark⟩

/-- Adds a token. -/
def push (s : State) (x : Lexeme) : State := { s with tokens := s.tokens ++ [x] }

/-- Adds a token before the `position`-th one. -/
def insert (s : State) (position : Nat) (x : Lexeme) : State :=
  let k := position - s.taken
  { s with tokens := s.tokens.take k ++ x :: s.tokens.drop k }

/-- Adds a token that ends before `c`, where the scan goes on. -/
def pass (s : State) (t : Token) (c : Cursor) : State :=
  { s.push ⟨t, s.cursor.mark, c.mark⟩ with cursor := c }

/-- Adds a token of `n` characters. -/
def take (s : State) (n : Nat) (t : Token) : State := s.pass t (s.cursor.forward n)

/-- Closes the blocks that are indented deeper than `column`. -/
def closeBlocks (column : Int) : List Int → State → State
  | [], s => s
  | indent :: outer, s =>
    if column < s.indent then
      closeBlocks column outer { s.push (s.here .blockEnd) with indent := indent, outer := outer }
    else s

/-- Closes the blocks that are left at `column`; brackets keep them open. -/
def unwind (s : State) (column : Int) : State :=
  if s.inFlow then s else closeBlocks column s.outer s

/-- Opens a block at `column` if that is deeper, with the token `x` before the
`position`-th token. -/
def openBlock (s : State) (column position : Nat) (x : Lexeme) : State :=
  if s.indent < column then
    { s.insert position x with outer := s.indent :: s.outer, indent := column }
  else s

/-- What had to be a key is not followed by its colon. -/
def withoutColon (s : State) (k : PossibleKey) : Failure :=
  s.cursor.mark.failureIn (lit "while scanning a simple key") k.mark
    (lit "could not find expected ':'")

/-- Something stands where it is not allowed. -/
def misplaced (s : State) (what : Text) : Failure :=
  s.cursor.mark.failure (what ++ lit " are not allowed here")

/-- Forgets the possible keys that are too far back; one that had to be a key
must not be forgotten. -/
def forgetStale (s : State) : Except Failure State :=
  let isStale := fun (e : Int × PossibleKey) =>
    e.2.mark.line ≠ s.cursor.line || 1024 < s.cursor.index - e.2.mark.index
  match s.possibleKeys.find? fun e => isStale e && e.2.required with
  | some e => .error (s.withoutColon e.2)
  | none => .ok { s with possibleKeys := s.possibleKeys.filter fun e => !isStale e }

/-- The possible key at this level of brackets. -/
def possibleKey? (s : State) : Option PossibleKey :=
  (s.possibleKeys.find? fun e => e.1 = s.flowLevel).map Prod.snd

/-- Forgets the possible key at this level. -/
def forgetKey (s : State) : Except Failure State :=
  match s.possibleKey? with
  | none => .ok s
  | some k =>
    if k.required then .error (s.withoutColon k)
    else .ok { s with possibleKeys := s.possibleKeys.filter fun e => e.1 ≠ s.flowLevel }

/-- Remembers that a key may begin here. -/
def rememberKey (s : State) : Except Failure State :=
  if s.allowKey then do
    let s ← s.forgetKey
    let k : PossibleKey := ⟨s.count, !s.inFlow && s.indent = s.cursor.column, s.cursor.mark⟩
    return { s with possibleKeys := (s.flowLevel, k) :: s.possibleKeys }
  else .ok s

/-- The end of the document text. -/
def finish (s : State) : Except Failure State := do
  let s ← (s.unwind (-1)).forgetKey
  return { s.push (s.here .streamEnd) with allowKey := false, possibleKeys := [], finished := true }

/-- A marker for the beginning or end of a document. -/
def marker (s : State) (t : Token) : Except Failure State := do
  let s ← (s.unwind (-1)).forgetKey
  return { s.take 3 t with allowKey := false }

/-- A directive. -/
def declaration (s : State) : Except Failure State := do
  let s ← (s.unwind (-1)).forgetKey
  let (t, c) ← directive s.cursor
  let after ← c.endLine (lit "while scanning a directive") s.cursor.mark
  return { s.pass t c with cursor := after, allowKey := false }

/-- An opening bracket. -/
def opening (s : State) (t : Token) : Except Failure State := do
  let s ← s.rememberKey
  return { s.take 1 t with flowLevel := s.flowLevel + 1, allowKey := true }

/-- A closing bracket. -/
def closing (s : State) (t : Token) : Except Failure State := do
  let s ← s.forgetKey
  return { s.take 1 t with flowLevel := s.flowLevel - 1, allowKey := false }

/-- A hyphen before an entry of a block sequence. -/
def entry (s : State) : Except Failure State := do
  if !s.inFlow && !s.allowKey then throw (s.misplaced (lit "sequence entries"))
  let s := if s.inFlow then s
    else s.openBlock s.cursor.column s.count (s.here .blockSequenceStart)
  let s ← State.forgetKey { s with allowKey := true }
  return s.take 1 .blockEntry

/-- A question mark before a key. -/
def announcedKey (s : State) : Except Failure State := do
  if !s.inFlow && !s.allowKey then throw (s.misplaced (lit "mapping keys"))
  let s := if s.inFlow then s
    else s.openBlock s.cursor.column s.count (s.here .blockMappingStart)
  let s ← State.forgetKey { s with allowKey := !s.inFlow }
  return s.take 1 .key

/-- A colon before a value. -/
def value (s : State) : Except Failure State := do
  match s.possibleKey? with
  | some k =>
    let s := { s.insert k.before ⟨.key, k.mark, k.mark⟩ with
      possibleKeys := s.possibleKeys.filter fun e => e.1 ≠ s.flowLevel }
    let s := if s.inFlow then s
      else s.openBlock k.mark.column k.before ⟨.blockMappingStart, k.mark, k.mark⟩
    return { s.take 1 .value with allowKey := false }
  | none =>
    if !s.inFlow && !s.allowKey then throw (s.misplaced (lit "mapping values"))
    let s := if s.inFlow then s
      else s.openBlock s.cursor.column s.count (s.here .blockMappingStart)
    let s ← State.forgetKey { s with allowKey := !s.inFlow }
    return s.take 1 .value

/-- A token that may begin a key, read by `read`. -/
def node (s : State) (read : Cursor → Except Failure (Token × Cursor)) : Except Failure State := do
  let s ← s.rememberKey
  let (t, c) ← read s.cursor
  return { s.pass t c with allowKey := false }

/-- A block scalar. -/
def block (s : State) (folded : Bool) : Except Failure State := do
  let s ← State.forgetKey { s with allowKey := true }
  let (text, c) ← blockScalar folded s.indent s.cursor
  return s.pass (.scalar false text) c

/-- A plain scalar. -/
def plain (s : State) : Except Failure State := do
  let s ← s.rememberKey
  let (text, broken, c) := plainScalar s.inFlow (s.indent + 1).toNat s.cursor
  return { s.pass (.scalar true text) c with allowKey := broken }

/-- Passes white space, comments and line breaks; after a line break outside
brackets a key may begin. -/
def skipBlank : Nat → State → State
  | 0, s => s
  | bound + 1, s =>
    let c := s.cursor.skipComment
    if c.atBreak then
      skipBlank bound { s with cursor := c.lineBreak.2, allowKey := !s.inFlow || s.allowKey }
    else { s with cursor := c }

/-- Whether a plain scalar begins here. -/
def atPlain (s : State) : Bool :=
  match s.cursor.head with
  | none => false
  | some ch =>
    !(isBlankOrEnd (some ch) || ch ∈ ['-', '?', ':', ',', '[', ']', '{', '}', '#', '&', '*', '!', '|',
        '>', '\'', '"', '%', '@', '\u0060'])
      || (!isBlankOrEnd (s.cursor.peek 1) && (ch = '-' || (!s.inFlow && (ch = '?' || ch = ':'))))

/-- Reads the next token. -/
def next (s : State) : Except Failure State := do
  let s := skipBlank s.cursor.bound s
  let s := (← s.forgetStale).unwind s.cursor.column
  let c := s.cursor
  let loose := s.inFlow || isBlankOrEnd (c.peek 1)
  match c.head with
  | none => s.finish
  | some ch =>
    if ch = '%' && c.column = 0 then s.declaration
    else if c.column = 0 && c.atMarker ['-', '-', '-'] then s.marker .documentStart
    else if c.column = 0 && c.atMarker ['.', '.', '.'] then s.marker .documentEnd
    else if ch = '[' then s.opening .flowSequenceStart
    else if ch = '{' then s.opening .flowMappingStart
    else if ch = ']' then s.closing .flowSequenceEnd
    else if ch = '}' then s.closing .flowMappingEnd
    else if ch = ',' then do
      let s ← State.forgetKey { s with allowKey := true }
      return s.take 1 .flowEntry
    else if ch = '-' && isBlankOrEnd (c.peek 1) then s.entry
    else if ch = '?' && loose then s.announcedKey
    else if ch = ':' && loose then s.value
    else if ch = '*' then s.node fun c => do
      let (name, c) ← anchorName (lit "alias") c
      return (.alias name, c)
    else if ch = '&' then s.node fun c => do
      let (name, c) ← anchorName (lit "anchor") c
      return (.anchor name, c)
    else if ch = '!' then s.node tag
    else if ch = '|' && !s.inFlow then s.block false
    else if ch = '>' && !s.inFlow then s.block true
    else if ch = '\'' || ch = '"' then s.node fun c => do
      let (text, c) ← quotedScalar (ch = '"') c
      return (.scalar false text, c)
    else if s.atPlain then s.plain
    else throw (.refused (.marked (some ⟨lit "while scanning for the next token", none⟩)
      (lit "found character " ++ c.found 0 ++ lit " that cannot start any token") c.mark))

/-- Reads on until the next token is known: it is there, and no colon can
turn it into a key any more. -/
def settle : Nat → State → Except Failure State
  | 0, s => .ok s
  | bound + 1, s =>
    if s.finished then .ok s
    else if s.tokens.isEmpty then do settle bound (← s.next)
    else do
      let s ← s.forgetStale
      if s.possibleKeys.any fun e => e.2.before = s.taken then settle bound (← s.next) else .ok s

/-- The next token, and the state in which it is known; behind the last one the end
goes on. -/
def peek (s : State) : Except Failure (Lexeme × State) := do
  let s ← s.settle (s.cursor.bound + 1)
  return (s.tokens.head?.getD (s.here .streamEnd), s)

/-- Takes the next token. -/
def drop (s : State) : State := { s with tokens := s.tokens.drop 1, taken := s.taken + 1 }

/-- The state before the first token of a document; every character of it has
to be one that may stand in a document. -/
def ofDocument (cs : List Char) : Except Failure State :=
  match cs.zipIdx.find? fun e => !isAllowed e.1 with
  | some (c, index) => .error (.refused (.character c index))
  | none => .ok (start cs)

end State

end UriExpansion.Yaml
