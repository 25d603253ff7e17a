/-
UriExpansion/Yaml/ScalarText.lean

The text of scalars: plain, between quotes, and in blocks.

In all three styles a single line break between two lines of text is folded
to a space where the style folds, and further breaks are kept.  Inside double
quotes a backslash escapes; an escape may name any code point, a surrogate
included.  A block keeps the indentation beyond its own and ends at the first
line that is indented less.

Each loop carries a bound on its steps, which is more than the number of
characters left; every step passes at least one of them.

What is wrong with a scalar is told with the place where the scalar begins, which
is `since` in what follows.
-/
import UriExpansion.Yaml.Cursor

namespace UriExpansion.Yaml

/-! ### Between quotes -/

/-- The character that a one-letter escape names. -/
def namedEscape? (c : Char) : Option Char :=
  match c with
  | '0' => some '\x00'
  | 'a' => some '\x07'
  | 'b' => some '\x08'
  | 't' => some '\t'
  | '\t' => some '\t'
  | 'n' => some '\n'
  | 'v' => some '\x0b'
  | 'f' => some '\x0c'
  | 'r' => some '\r'
  | 'e' => some '\x1b'
  | ' ' => some ' '
  | '"' => some '"'
  | '\\' => some '\\'
  | '/' => some '/'
  | 'N' => some '\u0085'
  | '_' => some '\u00a0'
  | 'L' => some '\u2028'
  | 'P' => some '\u2029'
  | _ => none

/-- The number of hexadecimal digits after an escape letter. -/
def escapeDigits? (c : Char) : Option Nat :=
  match c with
  | 'x' => some 2
  | 'u' => some 4
  | 'U' => some 8
  | _ => none

/-- Something is wrong with a scalar between quotes of either kind. -/
def quotedFailure (since : Mark) (c : Cursor) (wording : Text) : Failure :=
  c.mark.failureIn (lit "while scanning a quoted scalar") since wording

/-- Something is wrong with an escape, which only double quotes allow. -/
def escapeFailure (since : Mark) (c : Cursor) (wording : Text) : Failure :=
  c.mark.failureIn (lit "while scanning a double-quoted scalar") since wording

/-- Line breaks after a folded one; a document marker must not stand there. -/
def quotedBreaks (since : Mark) : Nat → Cursor → Except Failure (List Char × Cursor)
  | 0, c => .ok ([], c)
  | bound + 1, c =>
    if c.atSeparator then
      .error (quotedFailure since c (lit "found unexpected document separator"))
    else
      let c := c.skip (fun ch => ch = ' ' || ch = '\t')
      if c.atBreak then do
        let (b, c) := c.lineBreak
        let (bs, c) ← quotedBreaks since bound c
        return (b ++ bs, c)
      else .ok ([], c)

/-- The code point with the number that `count` hexadecimal digits write. -/
def numericEscape (since : Mark) (count : Nat) (c : Cursor) : Except Failure (Text × Cursor) :=
  let digits := (c.rest.take count).takeWhile isHex
  if digits.length < count then
    .error (escapeFailure since c (lit "expected escape sequence of " ++ Text.ofNat count
      ++ lit " hexadecimal numbers, but found " ++ c.found digits.length))
  else
    let number := (Text.hexValue? (ofChars digits)).getD 0
    match CodePoint.ofNat? number with
    | some p => .ok ([p], c.forward count)
    | none => .error (.fault (if number < 0x80000000 then .badScalar else .numberTooLarge))

/-- What a backslash and the characters after it stand for; the cursor is
behind the backslash. -/
def escape (since : Mark) (bound : Nat) (c : Cursor) : Except Failure (Text × Cursor) :=
  match c.head.bind namedEscape?, c.head.bind escapeDigits? with
  | some r, _ => .ok ([.scalar r], c.step)
  | none, some count => numericEscape since count c.step
  | none, none =>
    if c.atBreak then do
      let (bs, c) ← quotedBreaks since bound c.lineBreak.2
      return (ofChars bs, c)
    else .error (escapeFailure since c (lit "found unknown escape character " ++ c.found 0))

/-- White space inside quotes: kept within a line, folded at its end. -/
def quotedSpace (since : Mark) (bound : Nat) (c : Cursor) : Except Failure (Text × Cursor) :=
  let (space, c) := c.span (fun ch => ch = ' ' || ch = '\t')
  match c.head with
  | none => .error (quotedFailure since c (lit "found unexpected end of stream"))
  | some ch =>
    if isBreak ch then do
      let (b, c) := c.lineBreak
      let (bs, c) ← quotedBreaks since bound c
      let fold := if b ≠ ['\n'] then b else if bs.isEmpty then [' '] else []
      return (ofChars (fold ++ bs), c)
    else .ok (ofChars space, c)

/-- What stands at the cursor between the quotes, which is not the closing quote. -/
def quotedPart (double : Bool) (since : Mark) (bound : Nat) (c : Cursor) :
    Except Failure (Text × Cursor) :=
  match c.head with
  | none => quotedSpace since bound c
  | some ch =>
    if ch = ' ' || ch = '\t' || isBreak ch then quotedSpace since bound c
    else if double && ch = '\\' then escape since bound c.step
    else if !double && ch = '\'' && c.peek 1 = some '\'' then .ok ([.scalar '\''], c.forward 2)
    else .ok ([.scalar ch], c.step)

/-- The text up to the closing quote, and the place behind it. -/
def quotedText (double : Bool) (since : Mark) : Nat → Cursor → Except Failure (Text × Cursor)
  | 0, c => .ok ([], c)
  | bound + 1, c => do
    let (part, c) ← quotedPart double since bound c
    if c.head = some (if double then '"' else '\'') && !(!double && c.peek 1 = some '\'') then
      return (part, c.step)
    else
      let (more, c) ← quotedText double since bound c
      return (part ++ more, c)

/-- A scalar between quotes; the cursor is at the opening quote. -/
def quotedScalar (double : Bool) (c : Cursor) : Except Failure (Text × Cursor) :=
  let since := c.mark
  let c := c.step
  if c.head = some (if double then '"' else '\'') && !(!double && c.peek 1 = some '\'') then
    .ok ([], c.step)
  else quotedText double since c.bound c

/-! ### Plain -/

/-- Whether a plain scalar ends before the next character. -/
def plainEnds (flow : Bool) : List Char → Bool
  | [] => true
  | ch :: rest =>
    isBlankOrEnd (some ch)
      || (ch = ':' && (isBlankOrEnd rest.head? || (flow && rest.head?.any (· ∈ [',', '[', ']', '{', '}']))))
      || (flow && ch ∈ [',', '?', '[', ']', '{', '}'])

/-- The characters of a plain scalar up to white space or its end. -/
def plainRun (flow : Bool) : List Char → List Char
  | [] => []
  | ch :: rest => if plainEnds flow (ch :: rest) then [] else ch :: plainRun flow rest

/-- Spaces and line breaks between two lines of a plain scalar: the breaks
after the first, or nothing at a document marker. -/
def plainBreaks : Nat → Cursor → Option (List Char) × Cursor
  | 0, c => (some [], c)
  | bound + 1, c =>
    match c.head with
    | none => (some [], c)
    | some ch =>
      if ch = ' ' then plainBreaks bound c.step
      else if isBreak ch then
        let (b, c) := c.lineBreak
        if c.atSeparator then (none, c)
        else
          let (more, c) := plainBreaks bound c
          (more.map (b ++ ·), c)
      else (some [], c)

/-- The white space after a run of a plain scalar as it counts if the scalar
goes on, and whether a line break was passed. -/
def plainSpace (c : Cursor) : List Char × Bool × Cursor :=
  let (space, c) := c.span (· = ' ')
  if c.atBreak then
    let (b, c) := c.lineBreak
    if c.atSeparator then ([], true, c)
    else
      match plainBreaks c.bound c with
      | (none, c) => ([], true, c)
      | (some bs, c) =>
        let fold := if b ≠ ['\n'] then b else if bs.isEmpty then [' '] else []
        (fold ++ bs, true, c)
  else (space, false, c)

/-- A plain scalar whose lines are indented by at least `indent`, the white
space `space` standing before it; whether a line break was passed last. -/
def plainText (flow : Bool) (indent : Nat) (space : List Char) (broken : Bool) :
    Nat → Cursor → List Char × Bool × Cursor
  | 0, c => ([], broken, c)
  | bound + 1, c =>
    let run := if c.head = some '#' then [] else plainRun flow c.rest
    if run.isEmpty then ([], broken, c)
    else
      let (space', broken', c) := plainSpace (c.forward run.length)
      if space'.isEmpty || c.head = some '#' || (!flow && c.column < indent) then
        (space ++ run, broken', c)
      else
        let (more, broken'', c) := plainText flow indent space' broken' bound c
        (space ++ run ++ more, broken'', c)

/-- A plain scalar, and whether a line break was passed after it. -/
def plainScalar (flow : Bool) (indent : Nat) (c : Cursor) : Text × Bool × Cursor :=
  let (cs, broken, c) := plainText flow indent [] false c.bound c
  (ofChars cs, broken, c)

/-! ### Blocks -/

/-- What happens to the line breaks at the end of a block. -/
inductive Chomping
  | strip
  | clip
  | keep
  deriving DecidableEq

/-- Something is wrong with a block. -/
def blockFailure (since : Mark) (c : Cursor) (wording : Text) : Failure :=
  c.mark.failureIn (lit "while scanning a block scalar") since wording

/-- An indicator of chomping, if one stands here. -/
def chompingIndicator (c : Cursor) : Option Chomping × Cursor :=
  match c.head with
  | some '+' => (some .keep, c.step)
  | some '-' => (some .strip, c.step)
  | _ => (none, c)

/-- An indicator of indentation, if one stands here; it is not zero. -/
def indentationIndicator (since : Mark) (c : Cursor) : Except Failure (Option Nat × Cursor) :=
  match c.head.filter Char.isDigit with
  | none => .ok (none, c)
  | some '0' => .error (blockFailure since c
      (lit "expected indentation indicator in the range 1-9, but found 0"))
  | some ch => .ok (some (ch.toNat - 48), c.step)

/-- The indicators after the mark of a block: chomping and indentation, in
either order. -/
def blockIndicators (since : Mark) (c : Cursor) :
    Except Failure (Chomping × Option Nat × Cursor) := do
  let (first, c) := chompingIndicator c
  let (increment, c) ← indentationIndicator since c
  let (chomping, c) := if first.isNone && increment.isSome then chompingIndicator c else (first, c)
  if isSpaceOrEnd c.head then return (chomping.getD .clip, increment, c)
  else throw (blockFailure since c
    (lit "expected chomping or indentation indicators, but found " ++ c.found 0))

/-- Line breaks and indentation before the first line of a block: the breaks
and the deepest indentation met. -/
def blockIndentation : Nat → Cursor → List Char × Nat × Cursor
  | 0, c => ([], 0, c)
  | bound + 1, c =>
    if c.atBreak then
      let (b, c) := c.lineBreak
      let (bs, deepest, c) := blockIndentation bound c
      (b ++ bs, deepest, c)
    else if c.head = some ' ' then
      let c := c.step
      let (bs, deepest, c') := blockIndentation bound c
      (bs, max c.column deepest, c')
    else ([], 0, c)

/-- Passes spaces up to a column. -/
def indentTo (indent : Nat) (c : Cursor) : Cursor :=
  let spaces := (c.rest.takeWhile (· = ' ')).length
  c.forward (min spaces (indent - c.column))

/-- Line breaks between the lines of a block, and the indentation of the next. -/
def blockBreaks (indent : Nat) : Nat → Cursor → List Char × Cursor
  | 0, c => ([], c)
  | bound + 1, c =>
    let c := indentTo indent c
    if c.atBreak then
      let (b, c) := c.lineBreak
      let (bs, c) := blockBreaks indent bound c
      (b ++ bs, c)
    else ([], c)

/-- The lines of a block from one at its indentation on: the text without the
last line break, that line break, and the breaks after it. -/
def blockLines (folded : Bool) (indent : Nat) :
    Nat → Cursor → List Char × List Char × List Char × Cursor
  | 0, c => ([], [], [], c)
  | bound + 1, c =>
    let opensWithText := !(c.head.any fun ch => ch = ' ' || ch = '\t')
    let (line, c) := c.span (fun ch => !isBreak ch)
    let (b, c) := c.lineBreak
    let (bs, c) := blockBreaks indent c.bound c
    if c.column = indent && c.head.isSome then
      let goesOnWithText := !(c.head.any fun ch => ch = ' ' || ch = '\t')
      let fold := if folded && b = ['\n'] && opensWithText && goesOnWithText then
          (if bs.isEmpty then [' '] else [])
        else b
      let (more, lastBreak, tail, c) := blockLines folded indent bound c
      (line ++ fold ++ bs ++ more, lastBreak, tail, c)
    else (line, b, bs, c)

/-- A block scalar under a node indented by `parent`; the cursor is at its mark. -/
def blockScalar (folded : Bool) (parent : Int) (c : Cursor) : Except Failure (Text × Cursor) := do
  let since := c.mark
  let (chomping, increment, c) ← blockIndicators since c.step
  let c ← c.endLine (lit "while scanning a block scalar") since
  let least := (max (parent + 1) 1).toNat
  let bound := c.bound
  let (leading, indent, c) := match increment with
    | none =>
      let (bs, deepest, c) := blockIndentation bound c
      (bs, max least deepest, c)
    | some n =>
      let indent := least + n - 1
      let (bs, c) := blockBreaks indent bound c
      (bs, indent, c)
  let (body, lastBreak, tail, c) :=
    if c.column = indent && c.head.isSome then
      let (text, lastBreak, tail, c) := blockLines folded indent bound c
      (leading ++ text, lastBreak, tail, c)
    else ([], [], leading, c)
  let ending := match chomping with
    | .strip => []
    | .clip => lastBreak
    | .keep => lastBreak ++ tail
  return (ofChars (body ++ ending), c)

end UriExpansion.Yaml
