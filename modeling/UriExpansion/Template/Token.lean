/-
UriExpansion/Template/Token.lean

Cutting a template at its braces.

A template is a sequence of literal runs and of bodies between braces; braces
do not nest.  `Token.scan` reads the text once from left to right.  The two
functions that do the work, `outside` and `inside`, return the text up to the
next brace together with the tokens from that brace on, so that no buffer is
carried along.  The first brace out of turn ends the scan; only a text whose
braces all pair up is searched for surrogates in its literal runs.
-/
import UriExpansion.Template.ParseError

namespace UriExpansion

/-- A piece of a template with the offset at which it begins. -/
inductive Token
  /-- Literal text. -/
  | literal (text : Text) (position : Nat)
  /-- The body of an expression; the offset is that of its opening brace. -/
  | expression (body : Text) (position : Nat)
  deriving DecidableEq, Repr

namespace Token

/-- The text of a token without braces. -/
def text : Token → Text
  | literal text _ => text
  | expression body _ => body

/-- The offset at which a token begins. -/
def position : Token → Nat
  | literal _ position => position
  | expression _ position => position

/-- A token as it stands in the template. -/
def toText : Token → Text
  | literal text _ => text
  | expression body _ => Expression.braced body

/-- A brace out of turn, with the offsets that identify it. -/
inductive Stray
  /-- An opening brace at `position` inside the expression opened at `opened`. -/
  | nested (opened position : Nat)
  /-- A closing brace with nothing to close. -/
  | unmatchedClose (position : Nat)
  /-- The text ends inside the expression opened at `opened`. -/
  | unclosed (opened : Nat)
  deriving DecidableEq, Repr

/-- The error about a stray brace of the template `source`. -/
def Stray.error (source : Text) : Stray → ParseError
  | nested opened position =>
    .malformed .nested ((source.take (position + 1)).drop opened) position
  | unmatchedClose position => .malformed .unmatchedClose source position
  | unclosed opened => .malformed .unclosed (source.drop opened) opened

/-- A literal run at `position`, unless it is empty, before other tokens. -/
def withLiteral (position : Nat) (text : Text) (rest : List Token) : List Token :=
  if text.isEmpty then rest else literal text position :: rest

mutual

/-- Reads outside expressions from the offset `p`: the text up to the next
brace, and the tokens from that brace on. -/
def outside (p : Nat) : Text → Except Stray (Text × List Token)
  | [] => .ok ([], [])
  | c :: rest =>
    if c = CodePoint.scalar '{' then do
      let (body, tokens) ← inside p (p + 1) rest
      return ([], expression body p :: tokens)
    else if c = CodePoint.scalar '}' then .error (.unmatchedClose p)
    else do
      let (text, tokens) ← outside (p + 1) rest
      return (c :: text, tokens)

/-- Reads inside the expression opened at `opened` from the offset `p`: the
text up to its closing brace, and the tokens after that brace. -/
def inside (opened p : Nat) : Text → Except Stray (Text × List Token)
  | [] => .error (.unclosed opened)
  | c :: rest =>
    if c = CodePoint.scalar '{' then .error (.nested opened p)
    else if c = CodePoint.scalar '}' then do
      let (text, tokens) ← outside (p + 1) rest
      return ([], withLiteral (p + 1) text tokens)
    else do
      let (body, tokens) ← inside opened (p + 1) rest
      return (c :: body, tokens)

end

/-- A literal text with each surrogate spelled as an escape. -/
def spellSurrogates (t : Text) : Text :=
  t.flatMap fun c => if c.isSurrogate then lit "\\u" ++ Text.hex 4 c.toNat else [c]

/-- The error about a token, if it is literal text with a surrogate. -/
def surrogateError? : Token → Option ParseError
  | literal text position =>
    text.firstSurrogate?.map fun i => .malformed .surrogate (spellSurrogates text) (position + i)
  | expression _ _ => none

/-- The tokens of a template. -/
def scan (source : Text) : Except ParseError (List Token) :=
  match outside 0 source with
  | .error stray => .error (stray.error source)
  | .ok (text, rest) =>
    let tokens := withLiteral 0 text rest
    match tokens.findSome? surrogateError? with
    | some error => .error error
    | none => .ok tokens

end Token

end UriExpansion
