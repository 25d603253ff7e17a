/-
UriExpansion/Store.lean

Variable stores: names bound to values, in order of first binding.

A store is a value; binding a name gives another store.  No name is bound
twice (`Store.nodup`).  Bindings given by keyword are ordinary bindings that
come after the others, except that a keyword with the name of a parameter
cannot be given.
-/
import UriExpansion.Fault
import UriExpansion.Value.Sameness

namespace UriExpansion

/-- Names bound to values. -/
structure Store where
  entries : Entries Text Value
  nodup : (Entries.keys entries).Nodup

namespace Store

/-- The store that binds nothing. -/
def empty : Store := ⟨[], by simp⟩

instance : Inhabited Store := ⟨empty⟩

/-- The store of a list of bindings, later ones winning. -/
def ofList (bindings : List (Text × Value)) : Store :=
  ⟨Entries.ofList bindings, Entries.nodup_keys_ofList bindings⟩

/-- The store with one more binding. -/
def set (s : Store) (name : Text) (v : Value) : Store :=
  ⟨Entries.set s.entries name v, Entries.nodup_keys_set s.entries name v s.nodup⟩

/-- The store with further bindings, made one after the other. -/
def setAll (s : Store) (bindings : List (Text × Value)) : Store :=
  ⟨Entries.setAll s.entries bindings, Entries.nodup_keys_setAll s.entries bindings s.nodup⟩

/-- The value of a name. -/
def get? (s : Store) (name : Text) : Option Value := Entries.get? s.entries name

/-- The value of a name that is bound. -/
def index (s : Store) (name : Text) : Except Fault Value :=
  match s.get? name with
  | some v => .ok v
  | none => .error (.unboundName name)

/-- The names in order of first binding. -/
def names (s : Store) : List Text := Entries.keys s.entries

/-- Whether a name is bound. -/
def contains (s : Store) (name : Text) : Bool := s.names.contains name

/-- The number of names. -/
def size (s : Store) : Nat := s.entries.length

/-- Whether two stores bind the same names to the same values, in any order. -/
def same (a b : Store) : Bool :=
  a.size == b.size && a.entries.all fun e =>
    match b.get? e.1 with
    | some v => e.2.same v
    | none => false

/-- The keywords that building a store takes for parameters of its own. -/
def buildParameters : List Text := [lit "cls", lit "values"]

/-- The keywords that an expansion takes for parameters, its own or those of
the store that it builds. -/
def expansionParameters : List Text := lit "settings" :: lit "variables" :: buildParameters

/-- The store with further bindings given by keyword, none of which may have
the name of a parameter. -/
def withKeywords (parameters : List Text) (s : Store) (keywords : List (Text × Value)) :
    Except Fault Store :=
  match keywords.find? fun e => parameters.contains e.1 with
  | some (name, _) => .error (.reservedKeyword name)
  | none => .ok (s.setAll keywords)

end Store

end UriExpansion
