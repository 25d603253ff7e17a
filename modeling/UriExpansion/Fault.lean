/-
UriExpansion/Fault.lean

Faults: the ways an operation ends outside the error envelope of this
library.  Every refusal that the library announces has a type of its own
(`ParseError`, `ResolutionError`, `LoadError`, `SettingsError`).  A `Fault`
is what passes through all of these, because the part of the program that
meets it has no word for it: a text that no encoding can carry, a getter of a
host object that breaks where nobody guards it, a file that is not UTF-8.
-/
import UriExpansion.Text

namespace UriExpansion

/-- What ends an operation outside every error envelope. -/
inductive Fault
  /-- A text with an unpaired surrogate had to be encoded. -/
  | unencodable
  /-- A file is not valid UTF-8. -/
  | notUtf8
  /-- A file that had to exist is missing. -/
  | missingFile
  /-- A directory stands where a file had to be. -/
  | directoryGiven
  /-- A file stands where a directory had to be. -/
  | blockedPath
  /-- A file may not be read, or a directory on its path may not be searched. -/
  | forbidden
  /-- A name on a path, or the whole path, is longer than the file system allows. -/
  | pathTooLong
  /-- Keys of kinds that have no common order had to be sorted. -/
  | unorderedKeys
  /-- A decimal that is not a number had to be put in order. -/
  | unorderedDecimal
  /-- A keyword binding has the name of a parameter. -/
  | reservedKeyword (name : Text)
  /-- An integer has more decimal digits than may be read or written. -/
  | integerTooLong
  /-- A number of a document is beyond what the machine can hold. -/
  | numberTooLarge
  /-- A document nests deeper than it can be followed, or without end. -/
  | nestedTooDeep
  /-- A mapping stands where the text of a scalar itself is needed. -/
  | notScalar
  /-- A scalar of a document does not denote a value of the kind it claims. -/
  | badScalar
  /-- A document names a scalar kind that has no such spelling. -/
  | unknownSpelling
  /-- A document's scalar of an indexed kind is empty. -/
  | emptyScalar
  /-- A part that the reader takes for granted is absent. -/
  | missingPart
  /-- An attribute that had to be read has no value. -/
  | missingAttribute (name : Text)
  /-- A getter that nothing guards failed while it ran. -/
  | getterRuntime (message : Text)
  /-- A getter that nothing guards found its value unfit. -/
  | getterValue (message : Text)
  /-- Host code called for the whole program to end. -/
  | interrupted (message : Text)
  /-- A pattern for dates or a path holds a zero character. -/
  | zeroCharacter
  /-- A store has no binding of the name. -/
  | unboundName (name : Text)
  /-- No level of the log has the weight. -/
  | unknownLevel (weight : Int)
  /-- No template or store goes by the name. -/
  | unknownHandle (name : Text)
  deriving DecidableEq, Repr, Inhabited

/-- An integer with more digits than this is neither read nor written. -/
def maxDigits : Nat := 4300

end UriExpansion
