/-
UriExpansion/Settings/Document.lean

Reading settings from a document.

A document of settings is empty or a mapping with the keys `date_format` and
`on_resolution_error` at most.  Other keys are all named in the refusal, in
their order; keys that have no common order cannot be named that way.
-/
import UriExpansion.Files
import UriExpansion.Settings
import UriExpansion.Yaml.Meaning

namespace UriExpansion

/-- What is wrong with a document of settings. -/
inductive SettingsError
  | notMapping
  /-- There are keys that mean nothing. -/
  | unknownKeys (names : List Text)
  | badDateFormat
  | badPolicy
  /-- The document is no YAML. -/
  | badYaml (detail : Text)
  deriving DecidableEq, Repr

/-- How reading settings ends without settings. -/
inductive SettingsFailure
  | invalid (e : SettingsError)
  | fault (f : Fault)
  deriving DecidableEq, Repr

/-- The wording of a refusal. -/
def SettingsError.message : SettingsError → Text
  | notMapping => lit "settings file must be a mapping"
  | unknownKeys names => lit "unknown settings: " ++ Value.commaJoined names
  | badDateFormat => lit "date_format must be a non-empty string"
  | badPolicy => lit "on_resolution_error must be one of: abort, undefined"
  | badYaml detail => lit "invalid YAML: " ++ detail

namespace Settings

/-- Whether a value can stand in a comparison of numbers.  A float that is not
a number can, though it is neither above nor below anything. -/
def isCompared : Value → Bool
  | .float _ => true
  | .decimal _ => true
  | v => v.quantity?.isSome

/-- Whether a value is a decimal that is not a number. -/
def isBlankDecimal : Value → Bool
  | .decimal (.nan ..) => true
  | _ => false

/-- The order of two keys that are no tuples, if they have a common one:
numbers with numbers, texts with texts, octets with octets, identifiers with
identifiers, and dates, times or moments with their like. -/
def atomOrder? (a b : Value) : Option Ordering :=
  match a, b with
  | .str s, .str t => some (Text.compare s t)
  | .bytes x, .bytes y =>
    some (Text.compare (x.filterMap fun o => CodePoint.ofNat? o.toNat)
      (y.filterMap fun o => CodePoint.ofNat? o.toNat))
  | .uuid x, .uuid y => some (compare x.value y.value)
  | .date x, .date y => some (compare x.ordinal y.ordinal)
  | .moment x, .moment y =>
    if x.offset.isSome = y.offset.isSome then some (compare x.instant y.instant) else none
  | .time x, .time y =>
    if x.offset.isSome = y.offset.isSome then some (compare x.instant y.instant) else none
  | _, _ =>
    match a.quantity?, b.quantity? with
    | some p, some q => some (p.order q)
    | _, _ => if isCompared a && isCompared b then some .eq else none

mutual

/-- The order of two keys, if they have a common one. -/
def keyOrder? : Value → Value → Option Ordering
  | .tuple a, .tuple b => itemsOrder? a b
  | a, b => atomOrder? a b

/-- The order of two tuples is that of the first items that differ; one that
ends before any do comes first. -/
def itemsOrder? : List Value → List Value → Option Ordering
  | [], [] => some .eq
  | [], _ :: _ => some .lt
  | _ :: _, [] => some .gt
  | a :: as, b :: bs => if a.same b then itemsOrder? as bs else keyOrder? a b

end

/-- Keys in order, if every two of them have a common one.  A decimal that is
not a number cannot even be compared with other numbers. -/
def sortKeys (keys : List Value) : Except Fault (List Value) :=
  let ordered := keys.zipIdx.all fun (a, i) => keys.zipIdx.all fun (b, j) =>
    i = j || (keyOrder? a b).isSome
  if !ordered then .error .unorderedKeys
  else if 1 < keys.length && keys.any isBlankDecimal then .error .unorderedDecimal
  else .ok (keys.mergeSort fun a b => (keyOrder? a b).any (·.isLE))

/-- The texts of keys. -/
def keyNames : List Value → Except Fault (List Text)
  | [] => .ok []
  | k :: rest => do
    let name ← k.shown
    let names ← keyNames rest
    return name :: names

/-- The keys that mean something. -/
def knownKeys : List Value := [.str (lit "date_format"), .str (lit "on_resolution_error")]

/-- The pattern for dates in a mapping. -/
def dateFormatIn (entries : List (Value × Value)) : Except SettingsFailure (Option Text) :=
  match Value.lookup? (.str (lit "date_format")) entries with
  | none => .ok none
  | some .none => .ok none
  | some (.str t) => if t.all CodePoint.isSpace then .error (.invalid .badDateFormat) else .ok (some t)
  | some _ => .error (.invalid .badDateFormat)

/-- The policy in a mapping. -/
def policyIn (entries : List (Value × Value)) : Except SettingsFailure Policy :=
  match Value.lookup? (.str (lit "on_resolution_error")) entries with
  | none => .ok .abort
  | some (.str t) =>
    if t = lit "abort" then .ok .abort
    else if t = lit "undefined" then .ok .undefined
    else .error (.invalid .badPolicy)
  | some _ => .error (.invalid .badPolicy)

/-- The settings that a document's value describes. -/
def ofValue : Value → Except SettingsFailure Settings
  | .none => .ok standard
  | .map entries => do
    let unknown := (entries.map Prod.fst).filter fun k => !knownKeys.any (k.same ·)
    if !unknown.isEmpty then
      let keys ← (sortKeys unknown).mapError .fault
      let names ← (keyNames keys).mapError .fault
      throw (.invalid (.unknownKeys names))
    let dateFormat ← dateFormatIn entries
    let policy ← policyIn entries
    return ⟨dateFormat, policy⟩
  | _ => .error (.invalid .notMapping)

/-- The settings in the file at a path; no path, or an empty one, gives the
standard settings. -/
def load (files : Files) (path : Option Text) : Except SettingsFailure Settings :=
  match path with
  | none => .ok standard
  | some [] => .ok standard
  | some path =>
    match files path with
    | .missing => .error (.fault .missingFile)
    | .blocked => .error (.fault .blockedPath)
    | .unencodable => .error (.fault .unencodable)
    | .zeroCharacter => .error (.fault .zeroCharacter)
    | .tooLong => .error (.fault .pathTooLong)
    | .unsearchable => .error (.fault .forbidden)
    | .unreadable => .error (.fault .forbidden)
    | .directory => .error (.fault .directoryGiven)
    | .file content =>
      match decodeFile content with
      | .error f => .error (.fault f)
      | .ok cs =>
        match Yaml.read cs with
        | .ok v => ofValue v
        | .error (.refused p) => .error (.invalid (.badYaml (p.render cs)))
        | .error (.fault f) => .error (.fault f)

end Settings

end UriExpansion
