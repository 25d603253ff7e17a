/-
UriExpansion/CommandLine/Arguments.lean

The words of a call and what they ask for.

A word that begins with `-` and goes on is an option, unless an earlier word
is `--`.  The value of an option stands behind a `=` in the same word or is
the next word, whatever that is.  The first word that does not fit decides
how a call is refused; if all fit, a wish for help comes before everything
else.
-/
import UriExpansion.Text

namespace UriExpansion.CommandLine

/-- Why a call is refused before any command runs. -/
inductive Misuse
  /-- The words do not have the form that the command asks for. -/
  | form
  /-- An option that takes a value is the last word. -/
  | noValue (option : Text)
  /-- An option that takes no value has one. -/
  | unwantedValue (option : Text)
  deriving DecidableEq, Repr

/-- What words may stand in a call. -/
structure Form where
  /-- The options that take a value. -/
  valued : List Text
  /-- The options that take none. -/
  flags : List Text
  /-- Whether options may follow an argument. -/
  mixed : Bool

/-- The words of a call by what they are. -/
structure Words where
  /-- Options with their values, in order. -/
  values : List (Text × Text)
  flags : List Text
  arguments : List Text
  deriving DecidableEq, Repr

namespace Words

/-- One more option with a value in front. -/
def withValue (w : Words) (name value : Text) : Words :=
  { w with values := (name, value) :: w.values }

/-- One more flag in front. -/
def withFlag (w : Words) (name : Text) : Words := { w with flags := name :: w.flags }

/-- One more argument in front. -/
def withArgument (w : Words) (word : Text) : Words :=
  { w with arguments := word :: w.arguments }

/-- The value of an option; of several the last counts. -/
def value? (w : Words) (name : Text) : Option Text :=
  (w.values.reverse.find? fun e => e.1 = name).map Prod.snd

/-- All values of an option, in order. -/
def valuesOf (w : Words) (name : Text) : List Text :=
  w.values.filterMap fun e => if e.1 = name then some e.2 else none

end Words

/-- Whether a word is an option. -/
def isOption : Text → Bool
  | [] => false
  | [_] => false
  | c :: _ => c = CodePoint.scalar '-'

/-- The words of a call by what they are. -/
def Form.sort (form : Form) : List Text → Except Misuse Words
  | [] => .ok ⟨[], [], []⟩
  | word :: rest =>
    if word = lit "--" then .ok ⟨[], [], rest⟩
    else if isOption word then
      let (name, attached) := word.cutAt '='
      if form.valued.contains name then
        match attached, rest with
        | some value, rest => (form.sort rest).map (·.withValue name value)
        | none, value :: rest => (form.sort rest).map (·.withValue name value)
        | none, [] => .error (.noValue name)
      else if form.flags.contains name then
        match attached with
        | some _ => .error (.unwantedValue name)
        | none => (form.sort rest).map (·.withFlag name)
      else .error .form
    else if form.mixed then (form.sort rest).map (·.withArgument word)
    else .ok ⟨[], [], word :: rest⟩

/-! ### Calls -/

/-- What `expand` is asked for. -/
structure ExpandCall where
  template : Text
  varsFile : Option Text
  /-- Bindings of the form `NAME=VALUE`. -/
  assignments : List Text
  configFile : Option Text
  /-- Whether expressions with unbound variables are kept. -/
  keepUnbound : Bool
  format : Text
  deriving DecidableEq, Repr

/-- What a call asks for. -/
inductive Call
  | help
  | validate (template format : Text)
  | listVariables (template : Text)
  | expand (call : ExpandCall)
  deriving DecidableEq, Repr

/-- The option that asks for help. -/
def helpOption : Text := lit "--help"

/-- The format that holds if none is given. -/
def standardFormat : Text := lit "text"

/-- The words that may stand before the name of a command. -/
def leadingForm : Form := ⟨[], [helpOption], false⟩

/-- The commands. -/
inductive Command
  | validate
  | listVariables
  | expand
  deriving DecidableEq, Repr

namespace Command

/-- The name of a command. -/
def name : Command → Text
  | validate => lit "validate"
  | listVariables => lit "variables"
  | expand => lit "expand"

/-- The command of a name. -/
def ofName? (t : Text) : Option Command := [validate, listVariables, expand].find? (·.name = t)

/-- The words that may follow the name of a command. -/
def form : Command → Form
  | validate => ⟨[lit "--format"], [helpOption], true⟩
  | listVariables => ⟨[], [helpOption], true⟩
  | expand =>
    ⟨[lit "--vars", lit "--set", lit "--config", lit "--format"], [lit "--partial", helpOption], true⟩

/-- What a command with its template and options asks for. -/
def call (c : Command) (template : Text) (words : Words) : Call :=
  let format := (words.value? (lit "--format")).getD standardFormat
  match c with
  | validate => .validate template format
  | listVariables => .listVariables template
  | expand => .expand ⟨template, words.value? (lit "--vars"), words.valuesOf (lit "--set"),
      words.value? (lit "--config"), words.flags.contains (lit "--partial"), format⟩

/-- What a command with the words behind its name asks for. -/
def read (c : Command) (args : List Text) : Except Misuse Call := do
  let words ← c.form.sort args
  if words.flags.contains helpOption then return .help
  match words.arguments with
  | [template] => return c.call template words
  | _ => throw .form

end Command

/-- A word in the place of a command's name that is none; if it is an option
it is judged as one. -/
def Call.notACommand (args : List Text) : Except Misuse Call :=
  match leadingForm.sort args with
  | .error e => .error e
  | .ok words => if words.flags.contains helpOption then .ok .help else .error .form

/-- What the words of a call ask for. -/
def Call.read (args : List Text) : Except Misuse Call := do
  let words ← leadingForm.sort args
  if words.flags.contains helpOption then return .help
  match words.arguments with
  | [] => throw .form
  | name :: rest =>
    match Command.ofName? name with
    | some c => c.read rest
    | none => Call.notACommand (name :: rest)

end UriExpansion.CommandLine
