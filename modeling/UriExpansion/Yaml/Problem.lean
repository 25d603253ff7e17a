/-
UriExpansion/Yaml/Problem.lean

What is wrong with a YAML document, and how it is told.

Something is wrong at a place of the document, and often in the midst of
something else that began before it.  Both places are told by line and column,
and by the line of the document itself with a caret below the place
(`Mark.snippet`).  So what is told takes up several lines (`Problem.render`).
-/
import UriExpansion.Fault
import UriExpansion.Text.Quoted

namespace UriExpansion.Yaml

/-- Characters as text. -/
def ofChars (cs : List Char) : Text := cs.map CodePoint.scalar

/-- A character that ends a line. -/
def isBreak (c : Char) : Bool :=
  c = '\n' || c = '\r' || c = '\u0085' || c = '\u2028' || c = '\u2029'

/-! ### Places -/

/-- A place in a document. -/
structure Mark where
  index : Nat
  line : Nat
  column : Nat
  deriving DecidableEq, Repr, Inhabited

namespace Mark

/-- The characters before a place on its line that are shown: all, or a mark and the
last of them if there are many. -/
def shownBefore (line : List Char) : List Char :=
  if line.length ≤ 36 then line else " ... ".toList ++ line.drop (line.length - 32)

/-- The same for the characters after it. -/
def shownAfter (line : List Char) : List Char :=
  if line.length ≤ 36 then line else line.take 32 ++ " ... ".toList

/-- The line of a place, and a caret below the place. -/
def snippet (document : List Char) (m : Mark) : Text :=
  let before := ((document.take m.index).reverse.takeWhile fun c => !isBreak c).reverse
  let after := (document.drop m.index).takeWhile fun c => !isBreak c
  let shown := shownBefore before
  lit "    " ++ ofChars (shown ++ shownAfter after) ++ lit "\n"
    ++ List.replicate (4 + shown.length) (CodePoint.scalar ' ') ++ lit "^"

/-- A place as it is told. -/
def render (document : List Char) (m : Mark) : Text :=
  lit "  in \"<unicode string>\", line " ++ Text.ofNat (m.line + 1) ++ lit ", column "
    ++ Text.ofNat (m.column + 1) ++ lit ":\n" ++ m.snippet document

/-- Whether two places are told by the same line and column. -/
def sameAs (m n : Mark) : Bool := m.line = n.line && m.column = n.column

end Mark

/-! ### Problems -/

/-- What was being done when something turned out to be wrong, and where that began
if it has a beginning. -/
structure Context where
  doing : Text
  since : Option Mark
  deriving DecidableEq, Repr

/-- What is wrong with a document. -/
inductive Problem
  /-- A character that may not stand in a document. -/
  | character (c : Char) (index : Nat)
  /-- Something at a place of the document. -/
  | marked (context : Option Context) (wording : Text) (mark : Mark)
  deriving DecidableEq, Repr

/-- The lines that tell a context; its beginning is not told twice. -/
def Context.lines (document : List Char) (context : Context) (mark : Mark) : List Text :=
  context.doing ::
    ((context.since.filter fun since => !since.sameAs mark).map (Mark.render document)).toList

/-- A problem as it is told. -/
def Problem.render (document : List Char) : Problem → Text
  | character c index =>
    lit "unacceptable character #x" ++ Text.hex 4 c.toNat
      ++ lit ": special characters are not allowed\n  in \"<unicode string>\", position "
      ++ Text.ofNat index
  | marked context wording mark =>
    List.intercalate (lit "\n")
      ((context.map fun context => context.lines document mark).getD []
        ++ [wording, mark.render document])

/-- Why a document has no value. -/
inductive Failure
  /-- The text is no YAML, or its nodes denote nothing. -/
  | refused (p : Problem)
  | fault (f : Fault)
  deriving DecidableEq, Repr

namespace Mark

/-- Something is wrong at a place. -/
def failure (m : Mark) (wording : Text) : Failure := .refused (.marked none wording m)

/-- Something is wrong at a place in the midst of something that began at `since`. -/
def failureIn (m : Mark) (doing : Text) (since : Mark) (wording : Text) : Failure :=
  .refused (.marked (some ⟨doing, some since⟩) wording m)

end Mark

end UriExpansion.Yaml
