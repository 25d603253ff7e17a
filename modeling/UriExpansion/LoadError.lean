/-
UriExpansion/LoadError.lean

Why a file of variable bindings was not read.
-/
import UriExpansion.Text

namespace UriExpansion

/-- What is wrong with a file of bindings. -/
inductive LoadFault
  | missing
  /-- The name ends in a suffix that stands for no format. -/
  | unsupported (suffix : Text)
  /-- The path names a directory; the system writes it in its own way. -/
  | directory (shown : Text)
  /-- The path names a file that may not be read. -/
  | forbidden (shown : Text)
  /-- The file is no YAML document. -/
  | badYaml (detail : Text)
  /-- The file is no JSON document. -/
  | badJson (detail : Text)
  /-- The document is not a mapping. -/
  | notMapping (typeName : Text)
  deriving DecidableEq, Repr

/-- A file of bindings that was not read. -/
structure LoadError where
  fault : LoadFault
  /-- The path as it was given. -/
  file : Text
  deriving DecidableEq, Repr

namespace LoadFault

/-- The stable code of a fault. -/
def code : LoadFault → Text
  | missing => lit "E_FILE_NOT_FOUND"
  | unsupported _ => lit "E_UNSUPPORTED_FORMAT"
  | directory _ => lit "E_FILE_READ"
  | forbidden _ => lit "E_FILE_READ"
  | badYaml _ => lit "E_YAML_PARSE"
  | badJson _ => lit "E_JSON_PARSE"
  | notMapping _ => lit "E_INVALID_TOP_LEVEL"

/-- The wording of a fault. -/
def message : LoadFault → Text
  | missing => lit "file does not exist"
  | unsupported suffix =>
    lit "cannot read '" ++ suffix ++ lit "' files; use one of .yaml, .yml, .json"
  | directory shown => lit "[Errno 21] Is a directory: " ++ shown
  | forbidden shown => lit "[Errno 13] Permission denied: " ++ shown
  | badYaml detail => detail
  | badJson detail => detail
  | notMapping typeName => lit "expected an object of name: value bindings, got " ++ typeName

end LoadFault

end UriExpansion
