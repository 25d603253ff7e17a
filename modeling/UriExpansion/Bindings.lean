/-
UriExpansion/Bindings.lean

Reading variable bindings from a file.

The suffix of the path decides the format.  The document has to be a mapping,
or empty; its keys become names by their texts, and of two keys with one text
the first gives the place and the last the value.
-/
import UriExpansion.Files
import UriExpansion.Json.Reader
import UriExpansion.LoadError
import UriExpansion.Yaml.Meaning

namespace UriExpansion

/-- How loading a file of bindings ends without bindings. -/
inductive LoadFailure
  | load (e : LoadError)
  | fault (f : Fault)
  deriving DecidableEq, Repr

namespace Bindings

/-- The formats of files. -/
inductive Format
  | yaml
  | json
  deriving DecidableEq, Repr

/-- The format that a suffix stands for, in whatever case. -/
def Format.ofSuffix? (suffix : Text) : Option Format :=
  let name := suffix.toLower
  if name = lit ".yaml" ∨ name = lit ".yml" then some .yaml
  else if name = lit ".json" then some .json
  else none

/-- The value of a document in a format. -/
def Format.read (format : Format) (cs : List Char) : Except (LoadFault ⊕ Fault) Value :=
  match format with
  | .yaml =>
    match Yaml.read cs with
    | .ok v => .ok v
    | .error (.refused p) => .error (.inl (.badYaml (p.render cs)))
    | .error (.fault f) => .error (.inr f)
  | .json =>
    match Json.read cs with
    | .ok v => .ok v
    | .error (.refused reason left) => .error (.inl (.badJson (Json.render reason cs left)))
    | .error (.fault f) => .error (.inr f)

/-- The names of the keys of a document. -/
def named : List (Value × Value) → Except Fault (List (Text × Value))
  | [] => .ok []
  | (k, v) :: rest => do
    let name ← k.shown
    let others ← named rest
    return (name, v) :: others

/-- The bindings of a document that is a mapping. -/
def ofDocument : Value → Except (LoadFault ⊕ Fault) (Entries Text Value)
  | .none => .ok []
  | .map entries =>
    match named entries with
    | .ok bindings => .ok (Entries.ofList bindings)
    | .error f => .error (.inr f)
  | v => .error (.inl (.notMapping v.typeName))

/-- The bindings in the content of a file. -/
def ofContent (format : Format) (content : ByteArray) :
    Except (LoadFault ⊕ Fault) (Entries Text Value) :=
  match decodeFile content with
  | .error f => .error (.inr f)
  | .ok cs => do
    let document ← format.read cs
    ofDocument document

/-- The bindings in the file at a path. -/
def load (files : Files) (path : Text) : Except LoadFailure (Entries Text Value) :=
  let refuse := fun (fault : LoadFault) => Except.error (LoadFailure.load ⟨fault, path⟩)
  let format? := Format.ofSuffix? (Path.suffix path)
  match files path with
  | .missing => refuse .missing
  | .blocked => refuse .missing
  | .unencodable => refuse .missing
  | .zeroCharacter => refuse .missing
  | .tooLong => .error (.fault .pathTooLong)
  | .unsearchable => .error (.fault .forbidden)
  | .unreadable =>
    match format? with
    | none => refuse (.unsupported (Path.suffix path))
    | some _ => refuse (.forbidden (Text.quoted (Path.normal path)))
  | .directory =>
    match format? with
    | none => refuse (.unsupported (Path.suffix path))
    | some _ => refuse (.directory (Text.quoted (Path.normal path)))
  | .file content =>
    match format? with
    | none => refuse (.unsupported (Path.suffix path))
    | some format =>
      match ofContent format content with
      | .ok bindings => .ok bindings
      | .error (.inl fault) => refuse fault
      | .error (.inr f) => .error (.fault f)

end Bindings

end UriExpansion
