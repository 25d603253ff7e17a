/-
UriExpansion/CommandLine.lean

The commands.

`expand` goes through stages: settings, bindings from a file, assignments,
the template, the expansion.  The first stage that fails decides the errors
and the exit code: 1 for a file that is missing or cannot be read, 2 for
everything else.
-/
import UriExpansion.Bindings
import UriExpansion.CommandLine.Report
import UriExpansion.Expansion.Partial
import UriExpansion.Settings.Document

namespace UriExpansion.CommandLine

/-! ### Verdicts -/

/-- The verdict on a template by itself. -/
def judgeTemplate (source : Text) : Verdict Template :=
  match Template.tryParse source with
  | (some t, []) => .done t
  | (_, errors) => .refused (errors.map ParseError.diagnostic) 2

/-- An error of the command line. -/
def complaint (code message : Text) (file : Option Text) : Diagnostic :=
  ⟨.usage, code, message, none, none, file⟩

/-- A verdict goes on with its result. -/
def Verdict.andThen {α β : Type} (v : Verdict α) (f : α → Verdict β) : Verdict β :=
  match v with
  | .done a => f a
  | .refused errors exitCode => .refused errors exitCode
  | .uncaught f => .uncaught f

instance : Monad Verdict where
  pure := .done
  bind := Verdict.andThen

/-- The settings that a call names. -/
def judgeSettings (files : Files) (path : Option Text) : Verdict Settings :=
  match Settings.load files path with
  | .ok s => .done s
  | .error (.fault .missingFile) =>
    .refused [complaint (lit "E_CONFIG_FILE_NOT_FOUND")
      (lit "config file not found: " ++ path.getD []) path] 1
  | .error (.fault f) => .uncaught (.fault f)
  | .error (.invalid e) => .refused [complaint (lit "E_CONFIG_INVALID") e.message path] 2

/-- The bindings of the file that a call names. -/
def judgeBindings (files : Files) (path : Option Text) : Verdict (Entries Text Value) :=
  match path with
  | none => .done []
  | some [] => .done []
  | some path =>
    match Bindings.load files path with
    | .ok bindings => .done bindings
    | .error (.load e) => .refused [e.diagnostic] 1
    | .error (.fault f) => .uncaught (.fault f)

/-- The name and the value of an assignment, which is cut at its first `=`. -/
def assignment? (item : Text) : Option (Text × Text) :=
  match item.cutAt '=' with
  | ([], _) => none
  | (_, none) => none
  | (name, some value) => some (name, value)

/-- The assignments that items stand for. -/
def judgeAssignments : List Text → Verdict (List (Text × Value))
  | [] => .done []
  | item :: rest =>
    match assignment? item with
    | none =>
      .refused [complaint (lit "E_EXPAND_BAD_ASSIGNMENT")
        (lit "--set expects NAME=VALUE, got: " ++ item) none] 2
    | some (name, value) => do
      let others ← judgeAssignments rest
      return (name, .str value) :: others

/-- The verdict on an expansion. -/
def judgeExpansion (t : Template) (store : Store) (s : Settings) (keepUnbound : Bool) :
    Verdict Text :=
  let outcome := if keepUnbound then (t.expandPartial store s).map Template.source
    else t.expand store s
  match outcome with
  | .ok text => .done text
  | .error (.resolution e) => .refused [e.diagnostic] 2
  | .error f => .uncaught f

/-- The verdict on a call of `expand`. -/
def ExpandCall.judge (files : Files) (call : ExpandCall) : Verdict Text := do
  let settings ← judgeSettings files call.configFile
  let bindings ← judgeBindings files call.varsFile
  let assigned ← judgeAssignments call.assignments
  let template ← judgeTemplate call.template
  judgeExpansion template ((Store.ofList bindings).setAll assigned) settings call.keepUnbound

/-! ### Calls -/

/-- A command reports in a format that it knows. -/
def reportAs {α : Type} (p : Presentation α) (format : Text) (v : Verdict α) : Outcome :=
  match Format.ofName? format with
  | some f => p.report f v
  | none =>
    let code := lit "E_" ++ p.command.name.map (fun c => match c with
      | .scalar c => .scalar c.toUpper
      | c => c) ++ lit "_UNKNOWN_FORMAT"
    let message := lit "unknown format: " ++ format ++ lit " (choose one of: text, json)"
    p.inText (.refused [complaint code message none] 2)

/-- What a call comes to. -/
def Call.outcome (files : Files) : Call → Outcome
  | .help => .usage 0
  | .validate template format => reportAs validation format (judgeTemplate template)
  | .listVariables template => listing.inText (judgeTemplate template)
  | .expand call => reportAs expansion call.format (call.judge files)

/-- The width of the frame around a complaint about a single word. -/
def frameWidth : Nat := 80

/-- A complaint in its frame. -/
def framed (message : Text) : List Text :=
  let bar := fun n => List.replicate n (CodePoint.scalar '─')
  [lit "╭─ Error " ++ bar (frameWidth - 10) ++ lit "╮",
    lit "│ " ++ message ++ List.replicate (frameWidth - 4 - message.length) (CodePoint.scalar ' ')
      ++ lit " │",
    lit "╰" ++ bar (frameWidth - 2) ++ lit "╯"]

/-- What a refused call comes to. -/
def Misuse.outcome : Misuse → Outcome
  | .form => .usage 2
  | .noValue option =>
    .printed ⟨2, [], console (framed (lit "Option '" ++ option ++ lit "' requires an argument."))⟩
  | .unwantedValue option =>
    .printed ⟨2, [], console (framed (lit "Option '" ++ option ++ lit "' does not take a value."))⟩

/-- What a run with these words comes to. -/
def run (files : Files) (args : List Text) : Outcome :=
  match Call.read args with
  | .ok call => call.outcome files
  | .error misuse => misuse.outcome

end UriExpansion.CommandLine
