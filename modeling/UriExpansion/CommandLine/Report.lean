/-
UriExpansion/CommandLine/Report.lean

What a command comes to, and how it is reported.

A `Verdict` is the outcome of a command before any format: a result, errors
with an exit code, or a failure that the command has no word for.  It is
reported as lines of text, errors in order of file, offset and code, or as
one JSON document, errors in the order in which they were found.
-/
import UriExpansion.CommandLine.Arguments
import UriExpansion.Diagnostic
import UriExpansion.Json.Tree

namespace UriExpansion.CommandLine

/-- What a command comes to. -/
inductive Verdict (α : Type)
  | done (result : α)
  | refused (errors : List Diagnostic) (exitCode : Nat)
  /-- The command has no word for what went wrong. -/
  | uncaught (f : Failure)

/-- What a call leaves on its two outputs. -/
structure Printed where
  exitCode : Nat
  out : Text
  err : Text
  deriving DecidableEq, Repr

/-- What a call comes to. -/
inductive Outcome
  | printed (p : Printed)
  /-- Help is shown, because it was asked for or because the call does not
  have the form of any command. -/
  | usage (exitCode : Nat)
  | uncaught (f : Failure)

/-! ### The console -/

/-- The text behind the numbers of an escape sequence, if one letter ends it. -/
def afterSequence? (t : Text) : Option Text :=
  let rest := t.dropWhile fun c => c = CodePoint.scalar ';' || c = CodePoint.scalar '?' || c.isDigit
  match rest with
  | .scalar c :: rest => if c.isAlpha then some rest else none
  | _ => none

/-- The text without the escape sequences that steer a terminal. -/
def withoutSequences (t : Text) : Text := go t.length t
where
  /-- Every step consumes a code point of the text. -/
  go : Nat → Text → Text
    | 0, t => t
    | _, [] => []
    | n + 1, c :: rest =>
      match c, rest with
      | .scalar '\x1b', .scalar '[' :: tail =>
        match afterSequence? tail with
        | some after => go n after
        | none => c :: go n rest
      | _, _ => c :: go n rest

/-- A surrogate by its number; nothing else changes. -/
def shownSurrogate (c : CodePoint) : Text :=
  if c.isSurrogate then lit "\\u" ++ Text.hex 4 c.toNat else [c]

/-- Lines as they appear on the console. -/
def console (lines : List Text) : Text :=
  lines.flatMap fun line => (withoutSequences line).flatMap shownSurrogate ++ lit "\n"

/-! ### Errors -/

/-- The part of the program that an error is from. -/
def sourceName : DiagnosticKind → Text
  | .malformedTemplate => lit "parse"
  | .badExpression => lit "parse"
  | .resolution => lit "resolve"
  | .load => lit "load"
  | .usage => lit "cli"

/-- The order of errors in a report for readers. -/
def inOrder (a b : Diagnostic) : Bool :=
  ((Text.compare (a.file.getD []) (b.file.getD [])).then
    ((compare (a.position.getD (-1)) (b.position.getD (-1))).then (Text.compare a.code b.code))).isLE

/-- The lines that report errors to readers. -/
def errorLines (errors : List Diagnostic) : List Text :=
  (errors.mergeSort inOrder).map Diagnostic.render

/-- An error in a JSON report. -/
def errorTree (d : Diagnostic) : Json.Tree :=
  .ofMembers [(lit "code", .text d.code), (lit "message", .text d.message),
    (lit "expression", .ofOption (d.expression.map .text)),
    (lit "position", .ofOption (d.position.map .number)),
    (lit "file", .ofOption (d.file.map .text)),
    (lit "severity", .text (lit "error")), (lit "source", .text (sourceName d.kind))]

/-! ### The two formats -/

/-- The JSON report of a command with its own member. -/
def jsonReport (command : Command) (ok : Bool) (errors : List Diagnostic)
    (own : Text × Json.Tree) : Json.Tree :=
  .ofMembers [(lit "tool", .text (lit "uritemplate")), (lit "command", .text command.name),
    (lit "ok", .bool ok), (lit "error_count", .number errors.length),
    (lit "errors", .array (errors.map errorTree)), own]

/-- How a command writes its result for readers. -/
structure TextForm (α : Type) where
  lines : α → List Text

/-- How a command writes its result in either format. -/
structure Presentation (α : Type) extends TextForm α where
  command : Command
  /-- The name and the content of the member that a JSON report has for it. -/
  memberName : Text
  member : α → Json.Tree

/-- A verdict as lines of text. -/
def TextForm.inText {α : Type} (p : TextForm α) : Verdict α → Outcome
  | .done result => .printed ⟨0, console (p.lines result), []⟩
  | .refused errors exitCode => .printed ⟨exitCode, [], console (errorLines errors)⟩
  | .uncaught f => .uncaught f

/-- A verdict as a JSON document. -/
def Presentation.inJson {α : Type} (p : Presentation α) : Verdict α → Outcome
  | .done result =>
    let tree := jsonReport p.command true [] (p.memberName, p.member result)
    .printed ⟨0, console [tree.render 0], []⟩
  | .refused errors exitCode =>
    let tree := jsonReport p.command false errors (p.memberName, .null)
    .printed ⟨exitCode, console [tree.render 0], []⟩
  | .uncaught f => .uncaught f

/-- The formats of reports. -/
inductive Format
  | text
  | json
  deriving DecidableEq, Repr

/-- The format of a name. -/
def Format.ofName? (name : Text) : Option Format :=
  if name = lit "text" then some .text else if name = lit "json" then some .json else none

/-- A verdict in a format. -/
def Presentation.report {α : Type} (p : Presentation α) (f : Format) (v : Verdict α) : Outcome :=
  match f with
  | .text => p.inText v
  | .json => p.inJson v

/-! ### Results -/

/-- The symbol of an operator, or what stands for none. -/
def operatorLabel (op : Operator) : Text :=
  if op.symbol.isEmpty then lit "(simple)" else op.symbol

/-- The line that describes an expression. -/
def expressionLine (e : Expression) : Text :=
  lit "- " ++ e.toText ++ lit " at " ++ Text.ofNat e.position ++ lit ": operator "
    ++ operatorLabel e.operator ++ lit "; vars "
    ++ List.intercalate (lit ", ") (e.varspecs.map VarSpec.toText)

/-- A variable of an expression in a JSON report. -/
def varSpecTree (spec : VarSpec) : Json.Tree :=
  let (modifier, length) : Text × Json.Tree := match spec.modifier with
    | .none => (lit "none", .null)
    | .upTo n => (lit "prefix", .number n)
    | .explode => (lit "explode", .null)
  .ofMembers [(lit "name", .text spec.name), (lit "modifier", .text modifier),
    (lit "prefix", length)]

/-- An expression in a JSON report. -/
def expressionTree (e : Expression) : Json.Tree :=
  .ofMembers [(lit "raw", .text e.toText), (lit "operator", .text e.operator.symbol),
    (lit "position", .number e.position), (lit "varspecs", .array (e.varspecs.map varSpecTree))]

/-- How `validate` writes a template that is sound. -/
def validation : Presentation Template where
  command := .validate
  lines t := [lit "Template: " ++ t.source, lit "Expressions: " ++ Text.ofNat t.expressions.length]
    ++ t.expressions.map expressionLine
  memberName := lit "summary"
  member t := .ofMembers [(lit "expression_count", .number t.expressions.length),
    (lit "expressions", .array (t.expressions.map expressionTree)),
    (lit "variables", .array (t.variableNames.map .text))]

/-- How `variables` writes the names; it knows one format only. -/
def listing : TextForm Template where
  lines t := t.variableNames

/-- How `expand` writes an expansion. -/
def expansion : Presentation Text where
  command := .expand
  lines t := [t]
  memberName := lit "result"
  member t := .text t

end UriExpansion.CommandLine
