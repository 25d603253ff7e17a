/-
UriExpansion/Yaml/Cursor.lean

A place in the text of a YAML document.

A `Cursor` holds the characters that are still to be read, and how many
characters, and in which line and column, have been passed; the number of
those that are left bounds every loop over them (`Cursor.bound`).  Lines end at the
line breaks of YAML 1.1: line feed, carriage return, next line, and the two
Unicode separators.  A byte order mark takes no column.
-/
import UriExpansion.Yaml.Problem

namespace UriExpansion.Yaml

/-- A place in a document. -/
structure Cursor where
  rest : List Char
  index : Nat
  line : Nat
  column : Nat
  /-- The number of characters of the whole document. -/
  size : Nat

/-- The end of the document or a line break. -/
def isBreakOrEnd : Option Char → Bool
  | none => true
  | some c => isBreak c

/-- The end of the document, a line break or a space. -/
def isSpaceOrEnd : Option Char → Bool
  | none => true
  | some c => isBreak c || c = ' '

/-- The end of the document, a line break, a space or a tab. -/
def isBlankOrEnd : Option Char → Bool
  | none => true
  | some c => isBreak c || c = ' ' || c = '\t'

/-- A letter, digit, hyphen or underscore of ASCII. -/
def isWordChar (c : Char) : Bool := c.isAlphanum || c = '-' || c = '_'

/-- A hexadecimal digit. -/
def isHex (c : Char) : Bool := (CodePoint.scalar c).isHexDigit

/-- Whether a character may stand in a document unescaped. -/
def isAllowed (c : Char) : Bool :=
  let n := c.toNat
  n = 0x9 || n = 0xA || n = 0xD || (0x20 ≤ n && n ≤ 0x7E) || n = 0x85
    || (0xA0 ≤ n && n ≤ 0xD7FF) || (0xE000 ≤ n && n ≤ 0xFFFD) || 0x10000 ≤ n

namespace Cursor

/-- The beginning of a document. -/
def start (cs : List Char) : Cursor := ⟨cs, 0, 0, 0, cs.length⟩

/-- More than the number of characters that are left. -/
def bound (c : Cursor) : Nat := c.size - c.index + 1

/-- The character `k` places ahead. -/
def peek (c : Cursor) (k : Nat) : Option Char := c.rest[k]?

/-- The next character. -/
def head (c : Cursor) : Option Char := c.rest.head?

/-- The place itself. -/
def mark (c : Cursor) : Mark := ⟨c.index, c.line, c.column⟩

/-- The character `k` places ahead as it is told; the end of the document is told as
a zero character. -/
def found (c : Cursor) (k : Nat) : Text := Text.quoted [.scalar ((c.peek k).getD '\x00')]

/-- Passes one character. -/
def step (c : Cursor) : Cursor :=
  match c.rest with
  | [] => c
  | ch :: rest =>
    let c := { c with rest := rest, index := c.index + 1 }
    if isBreak ch && !(ch = '\r' && rest.head? = some '\n') then
      { c with line := c.line + 1, column := 0 }
    else if ch = '\uFEFF' then c
    else { c with column := c.column + 1 }

/-- Passes `n` characters. -/
def forward : Nat → Cursor → Cursor
  | 0, c => c
  | n + 1, c => forward n c.step

/-- The longest run of characters that satisfy `p`, and the place after it. -/
def span (c : Cursor) (p : Char → Bool) : List Char × Cursor :=
  let run := c.rest.takeWhile p
  (run, c.forward run.length)

/-- Passes the characters that satisfy `p`. -/
def skip (c : Cursor) (p : Char → Bool) : Cursor := (c.span p).2

/-- Whether a line break follows. -/
def atBreak (c : Cursor) : Bool := (c.head.map isBreak).getD false

/-- Passes a line break, if there is one, and tells what it stands for: a
line feed for all but the two separators, which stand for themselves. -/
def lineBreak (c : Cursor) : List Char × Cursor :=
  match c.rest with
  | '\r' :: '\n' :: _ => (['\n'], c.forward 2)
  | ch :: _ =>
    if ch = '\n' || ch = '\r' || ch = '\u0085' then (['\n'], c.step)
    else if ch = '\u2028' || ch = '\u2029' then ([ch], c.step)
    else ([], c)
  | [] => ([], c)

/-- Whether a marker of three characters for the beginning or end of a
document stands here, followed by blank space. -/
def atMarker (c : Cursor) (marker : List Char) : Bool :=
  marker.isPrefixOf c.rest && isBlankOrEnd (c.peek 3)

/-- Whether either marker stands here. -/
def atSeparator (c : Cursor) : Bool := c.atMarker ['-', '-', '-'] || c.atMarker ['.', '.', '.']

/-- Passes spaces and a comment. -/
def skipComment (c : Cursor) : Cursor :=
  let c := c.skip (· = ' ')
  if c.head = some '#' then c.skip (fun ch => !isBreak ch) else c

/-- Passes the rest of a line in which nothing but a comment may stand, the last one of
something that began at `since`. -/
def endLine (doing : Text) (since : Mark) (c : Cursor) : Except Failure Cursor :=
  let c := c.skipComment
  if isBreakOrEnd c.head then .ok c.lineBreak.2
  else .error (c.mark.failureIn doing since
    (lit "expected a comment or a line break, but found " ++ c.found 0))

end Cursor

end UriExpansion.Yaml
