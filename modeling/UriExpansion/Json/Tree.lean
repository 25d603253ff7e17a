/-
UriExpansion/Json/Tree.lean

Writing a JSON document.

A document stands on several lines, every level indented by two blanks, and
the members of an object come in the order of their names.  Only ASCII is
written: every other code point is escaped by its UTF-16 units, an unpaired
surrogate by itself.
-/
import UriExpansion.Text

namespace UriExpansion.Json

/-- A document to be written. -/
inductive Tree
  | null
  | bool (b : Bool)
  | number (n : Int)
  | text (t : Text)
  | array (items : List Tree)
  | object (members : List (Text × Tree))

/-! ### Strings -/

/-- The escape of one UTF-16 unit. -/
def unitEscape (n : Nat) : Text := lit "\\u" ++ Text.hex 4 n

/-- A code point as it stands in a string. -/
def escape (c : CodePoint) : Text :=
  let n := c.toNat
  if c = '"' then lit "\\\""
  else if c = '\\' then lit "\\\\"
  else if n = 8 then lit "\\b"
  else if n = 9 then lit "\\t"
  else if n = 10 then lit "\\n"
  else if n = 12 then lit "\\f"
  else if n = 13 then lit "\\r"
  else if 32 ≤ n ∧ n < 127 then [c]
  else if n < 0x10000 then unitEscape n
  else
    let m := n - 0x10000
    unitEscape (0xD800 + m / 0x400) ++ unitEscape (0xDC00 + m % 0x400)

/-- A text as a string. -/
def quote (t : Text) : Text := lit "\"" ++ t.flatMap escape ++ lit "\""

namespace Tree

/-- The tree of an optional part. -/
def ofOption (t : Option Tree) : Tree := t.getD null

/-- An object with its members in the order of their names. -/
def ofMembers (members : List (Text × Tree)) : Tree :=
  object (members.mergeSort fun a b => (Text.compare a.1 b.1).isLE)

/-- A new line of a level. -/
def newLine (level : Nat) : Text := lit "\n" ++ List.replicate (2 * level) (CodePoint.scalar ' ')

mutual

/-- A tree that stands on a level. -/
def render (level : Nat) : Tree → Text
  | null => lit "null"
  | bool b => if b then lit "true" else lit "false"
  | number n => Text.ofInt n
  | text t => quote t
  | array [] => lit "[]"
  | array items =>
    lit "[" ++ renderItems (level + 1) items ++ newLine level ++ lit "]"
  | object [] => lit "\x7b\x7d"
  | object members =>
    lit "\x7b" ++ renderMembers (level + 1) members ++ newLine level ++ lit "\x7d"

/-- The items of an array, each on a line of its own. -/
def renderItems (level : Nat) : List Tree → Text
  | [] => []
  | [item] => newLine level ++ render level item
  | item :: rest => newLine level ++ render level item ++ lit "," ++ renderItems level rest

/-- The members of an object, each on a line of its own. -/
def renderMembers (level : Nat) : List (Text × Tree) → Text
  | [] => []
  | [(name, item)] => newLine level ++ quote name ++ lit ": " ++ render level item
  | (name, item) :: rest =>
    newLine level ++ quote name ++ lit ": " ++ render level item ++ lit ","
      ++ renderMembers level rest

end

end Tree

end UriExpansion.Json
