/-
UriExpansion/Files.lean

The files that a run of the program can see.

All that the program asks is what stands at a path (`Files`).  A `FileTree`
answers that with directories and files by their paths relative to the
directory of the run.  A path is a list of names; empty names and `.` name
nothing, and `..` goes back.  The content of a file is read as UTF-8, and
every line of it ends with a line feed.
-/
import UriExpansion.Fault

namespace UriExpansion

/-- What looking up a path comes to. -/
inductive Lookup
  | missing
  /-- A file stands where the path goes on. -/
  | blocked
  /-- No octets stand for the path. -/
  | unencodable
  /-- The path holds a zero character, which no name has. -/
  | zeroCharacter
  /-- The path or a name on it is longer than it may be. -/
  | tooLong
  /-- A directory on the path may not be searched. -/
  | unsearchable
  /-- A file that may not be read. -/
  | unreadable
  | directory
  | file (content : ByteArray)

/-- What stands at every path. -/
abbrev Files := Text → Lookup

/-- A file or a directory. -/
inductive FileNode
  | file (content : ByteArray)
  | directory

/-- Files and directories by their names as paths. -/
structure FileTree where
  nodes : List (Text × FileNode)

namespace Path

/-- The names on a path; `.` and empty names are left out. -/
def names (path : Text) : List Text :=
  (path.split '/').filter fun name => name ≠ [] ∧ name ≠ lit "."

/-- The last name on a path. -/
def lastName (path : Text) : Text := (names path).getLast?.getD []

/-- The suffix of the last name: from its last dot on, unless the dot begins
or ends the name. -/
def suffix (path : Text) : Text :=
  let name := lastName path
  let tail := (name.reverse.takeWhile (· ≠ CodePoint.scalar '.')).reverse
  let before := name.length - tail.length
  if tail.isEmpty || before ≤ 1 then [] else CodePoint.scalar '.' :: tail

/-- The path as it is shown: its names with single slashes between them. -/
def normal (path : Text) : Text :=
  let body := List.intercalate (lit "/") (names path)
  if path.head? = some (CodePoint.scalar '/') then CodePoint.scalar '/' :: body
  else if body.isEmpty then lit "." else body

end Path

namespace FileTree

/-- The file or directory with exactly these names; a directory also exists if
something is in it. -/
def at? (tree : FileTree) (names : List Text) : Option FileNode :=
  match tree.nodes.find? fun e => Path.names e.1 = names with
  | some e => some e.2
  | none =>
    if names.isEmpty || tree.nodes.any fun e => names.isPrefixOf (Path.names e.1) then
      some .directory
    else none

/-- The octets of a text in a path; a surrogate stands for one octet. -/
def octetCount (t : Text) : Nat :=
  t.foldl (fun n c => n + match c with
    | .scalar c => c.utf8Size
    | .surrogate _ => 1) 0

/-- The number of octets that a name may have. -/
def maxName : Nat := 255

/-- The number of octets that a path may have. -/
def maxPath : Nat := 4095

/-- Follows names from a directory of which only the ones above it are known. -/
def followOutside : List Text → Lookup
  | [] => .directory
  | name :: rest =>
    if name = lit ".." then followOutside rest
    else if maxName < octetCount name then .tooLong
    else .missing

/-- Follows names from a directory. -/
def follow (tree : FileTree) (here : List Text) : List Text → Lookup
  | [] =>
    match tree.at? here with
    | none => .missing
    | some .directory => .directory
    | some (.file content) => .file content
  | name :: rest =>
    match tree.at? here with
    | none => .missing
    | some (.file _) => .blocked
    | some .directory =>
      if name = lit ".." then
        if here.isEmpty then followOutside rest else follow tree here.dropLast rest
      else if maxName < octetCount name then .tooLong
      else follow tree (here ++ [name]) rest

/-- What every system has at the top: some directories, and a device that
reads as an empty file. -/
def system : FileTree :=
  ⟨(["/bin", "/dev", "/etc", "/home", "/proc", "/root", "/tmp", "/usr", "/var"].map
    fun name => (lit name, .directory)) ++ [(lit "/dev/null", .file ByteArray.empty)]⟩

/-- Whether no octets stand for a code point in a path.  A surrogate from U+DC80
to U+DCFF stands for an octet that is no UTF-8. -/
def isUnencodable (c : CodePoint) : Bool :=
  c.isSurrogate && !(0xDC80 ≤ c.toNat && c.toNat < 0xDD00)

/-- What stands at a path. -/
def lookup (tree : FileTree) : Files := fun path =>
  if path.any isUnencodable then .unencodable
  else if path.contains (CodePoint.scalar '\x00') then .zeroCharacter
  else if maxPath < octetCount (Path.normal path) then .tooLong
  else if path.any CodePoint.isSurrogate then .missing
  else if path.head? = some (CodePoint.scalar '/') then system.follow [] (Path.names path)
  else tree.follow [] (Path.names path)

end FileTree

/-- Characters with every line end written as a line feed. -/
def unifyLines : List Char → List Char
  | [] => []
  | '\r' :: '\n' :: rest => '\n' :: unifyLines rest
  | '\r' :: rest => '\n' :: unifyLines rest
  | c :: rest => c :: unifyLines rest

/-- The characters of a file. -/
def decodeFile (content : ByteArray) : Except Fault (List Char) :=
  match String.fromUTF8? content with
  | some s => .ok (unifyLines s.toList)
  | none => .error .notUtf8

end UriExpansion
