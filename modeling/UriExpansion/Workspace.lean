/-
UriExpansion/Workspace.lean

Templates and stores that go by names.

A `Step` makes one of them or asks about them; `Workspace.step` answers it
and says what the workspace is afterwards.  A step that fails leaves the
workspace as it was, and making something under a name that is taken replaces
it.
-/
import UriExpansion.Expansion.Partial
import UriExpansion.Value.Display

namespace UriExpansion

/-- Templates and stores by their names. -/
structure Workspace where
  templates : Entries Text Template
  stores : Entries Text Store

/-- Where an expansion takes its bindings from. -/
inductive Supply
  /-- From a store of the workspace. -/
  | stored (name : Text)
  | given (bindings : List (Text × Value))

/-- What an expansion needs besides its template. -/
structure Request where
  supply : Supply
  keywords : List (Text × Value)
  settings : Settings

/-- One step of work. -/
inductive Step
  | parse (as source : Text)
  | store (as : Text) (bindings keywords : List (Text × Value))
  | set (store as name : Text) (value : Value)
  | names (store : Text)
  | get (store name : Text)
  | index (store name : Text)
  | contains (store name : Text)
  | size (store : Text)
  | entries (store : Text)
  | display (store : Text)
  | sameStores (a b : Text)
  | sameTemplates (a b : Text)
  | describe (template : Text)
  | hasVariable (template name : Text)
  | expand (template : Text) (request : Request)
  | expandPartially (template as : Text) (request : Request)

/-- What a step is answered with. -/
inductive Answer
  | text (t : Text)
  | names (names : List Text)
  | value (v : Value)
  | entries (entries : Entries Text Value)
  | count (n : Nat)
  | truth (b : Bool)
  | template (t : Template)

/-- A store as it is shown. -/
def Store.display (s : Store) : Text :=
  (Value.store (s.entries.map fun e => (Value.str e.1, e.2))).quoted

namespace Workspace

/-- The workspace with nothing in it. -/
def empty : Workspace := ⟨[], []⟩

/-- The template of a name. -/
def template (w : Workspace) (name : Text) : Except Failure Template :=
  match Entries.get? w.templates name with
  | some t => .ok t
  | none => .error (.fault (.unknownHandle name))

/-- The store of a name. -/
def store (w : Workspace) (name : Text) : Except Failure Store :=
  match Entries.get? w.stores name with
  | some s => .ok s
  | none => .error (.fault (.unknownHandle name))

/-- The workspace with a template under a name. -/
def withTemplate (w : Workspace) (name : Text) (t : Template) : Workspace :=
  { w with templates := Entries.set w.templates name t }

/-- The workspace with a store under a name. -/
def withStore (w : Workspace) (name : Text) (s : Store) : Workspace :=
  { w with stores := Entries.set w.stores name s }

/-- The store that a request supplies. -/
def supplied (w : Workspace) (r : Request) : Except Failure Store := do
  let base ← match r.supply with
    | .stored name => w.store name
    | .given bindings => .ok (Store.ofList bindings)
  (base.withKeywords Store.expansionParameters r.keywords).mapError .fault

/-- The answer to a step and the workspace after it, if it does not fail. -/
def attempt (w : Workspace) : Step → Except Failure (Answer × Workspace)
  | .parse as source => do
    let t ← (Template.parse source).mapError .parse
    return (.text t.source, w.withTemplate as t)
  | .store as bindings keywords => do
    let s ← ((Store.ofList bindings).withKeywords Store.buildParameters keywords).mapError .fault
    return (.names s.names, w.withStore as s)
  | .set store as name value => do
    let s ← w.store store
    let changed := s.set name value
    return (.names changed.names, w.withStore as changed)
  | .names store => do
    let s ← w.store store
    return (.names s.names, w)
  | .get store name => do
    let s ← w.store store
    return (.value ((s.get? name).getD .none), w)
  | .index store name => do
    let s ← w.store store
    let v ← (s.index name).mapError .fault
    return (.value v, w)
  | .contains store name => do
    let s ← w.store store
    return (.truth (s.contains name), w)
  | .size store => do
    let s ← w.store store
    return (.count s.size, w)
  | .entries store => do
    let s ← w.store store
    return (.entries s.entries, w)
  | .display store => do
    let s ← w.store store
    return (.text s.display, w)
  | .sameStores a b => do
    let s ← w.store a
    let r ← w.store b
    return (.truth (s.same r), w)
  | .sameTemplates a b => do
    let t ← w.template a
    let u ← w.template b
    return (.truth (t = u), w)
  | .describe template => do
    let t ← w.template template
    return (.template t, w)
  | .hasVariable template name => do
    let t ← w.template template
    return (.truth (t.hasVariable name), w)
  | .expand template request => do
    let t ← w.template template
    let s ← w.supplied request
    let text ← t.expand s request.settings
    return (.text text, w)
  | .expandPartially template as request => do
    let t ← w.template template
    let s ← w.supplied request
    let made ← t.expandPartial s request.settings
    return (.text made.source, w.withTemplate as made)

/-- The answer to a step and the workspace after it. -/
def step (w : Workspace) (s : Step) : Except Failure Answer × Workspace :=
  match w.attempt s with
  | .ok (answer, after) => (.ok answer, after)
  | .error f => (.error f, w)

/-- The answers to steps taken one after the other. -/
def run (w : Workspace) : List Step → List (Except Failure Answer)
  | [] => []
  | s :: rest => (w.step s).1 :: run (w.step s).2 rest

end Workspace

end UriExpansion
