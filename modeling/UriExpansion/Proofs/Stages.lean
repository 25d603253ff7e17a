/-
UriExpansion/Proofs/Stages.lean

The stages of a call of `expand`, each looked at by itself.

A call fails at a stage for a reason that can be stated without the stages
before it (`ExpandCall.Fails`): the format is unknown, a loader refuses, an item
is no assignment, the template has errors, or the library refuses a value.  If
no stage fails, the call comes to what the library makes of the template under
the bindings of the file and the assignments (`ExpandCall.Yields`).  The verdict
on a call is the one or the other: the result if there is one
(`ExpandCall.Yields.judge`), and otherwise the errors of the first stage that
fails, with its exit code (`ExpandCall.FirstFailure.judge`).

That there is always one of them needs loaders that end in a value or in errors
of their own, and values that resolve or are refused (`ExpandCall.Loadable`).
-/
import UriExpansion.CommandLine
import UriExpansion.Proofs.Diagnosis
import UriExpansion.Proofs.Faults
import UriExpansion.Proofs.Keywords

namespace UriExpansion

/-! ### Expansions under settled stores -/

namespace Template

variable {t : Template} {store a b : Store} {s : Settings}

/-- Where every value resolves or is refused, an expansion does not end in a
fault. -/
theorem expand_ne_fault (ht : ∀ c ∈ t.components, c.Sound) (hs : store.Settled s) (f : Fault) :
    t.expand store s ≠ .error (.fault f) := by
  intro h
  obtain ⟨x, -, r, hmeaning, hfailure⟩ := exists_of_expand_eq_error ht h
  cases r with
  | cause name c => cases hfailure
  | fault f' =>
    unfold Store.meaning at hmeaning
    split at hmeaning
    · cases hmeaning
    · next hresolve =>
      obtain ⟨v, hv, hfault⟩ := Store.exists_of_resolve_eq_fault hresolve
      exact hs x.2.name v hv _ hfault
    · split at hmeaning <;> cases hmeaning

end Template

namespace CommandLine

/-- A verdict is a refusal at its first step, or goes on to one. -/
theorem Verdict.refused_of_bind {α β : Type} {v : Verdict α} {f : α → Verdict β}
    {errors : List Diagnostic} {exitCode : Nat} (h : v >>= f = .refused errors exitCode) :
    v = .refused errors exitCode ∨ ∃ a, v = .done a ∧ f a = .refused errors exitCode := by
  cases v with
  | done a => exact .inr ⟨a, rfl, h⟩
  | refused errors' exitCode' =>
    obtain ⟨rfl, rfl⟩ := Verdict.refused.inj h
    exact .inl rfl
  | uncaught f => cases h

/-! ### Assignments -/

/-- The item is cut at its first `=` into a name, which is not empty, and a
value. -/
structure Assigns (item name value : Text) : Prop where
  named : name ≠ []
  first : CodePoint.scalar '=' ∉ name
  item_eq : item = name ++ CodePoint.scalar '=' :: value

/-- The items are assignments of these texts, one by one. -/
def Assigned : List Text → List (Text × Value) → Prop :=
  List.Forall₂ fun item e => ∃ value, Assigns item e.1 value ∧ e.2 = .str value

theorem assignment?_eq_some {item name value : Text} :
    assignment? item = some (name, value) ↔ Assigns item name value := by
  constructor
  · intro h
    unfold assignment? at h
    split at h
    · cases h
    · cases h
    · next first rest hnamed hcut =>
      obtain ⟨rfl, rfl⟩ := Prod.mk.inj (Option.some.inj h)
      refine ⟨hnamed, ?_, Text.eq_of_cutAt hcut⟩
      -- the name is the part before the first separator
      intro hmem
      have hname : first = item.takeWhile (· ≠ CodePoint.scalar '=') := by
        unfold Text.cutAt at hcut
        split at hcut
        · exact (Prod.mk.inj hcut).1.symm
        · exact (Prod.mk.inj hcut).1.symm
      rw [hname] at hmem
      have hne := List.all_eq_true.mp List.all_takeWhile _ hmem
      exact absurd hne (by decide)
  · rintro ⟨hnamed, hfirst, rfl⟩
    rw [assignment?, Text.cutAt_append hfirst]
    rcases name with - | ⟨c, name⟩
    · exact absurd rfl hnamed
    · rfl

theorem judgeAssignments_cons {item : Text} {name value : Text} (h : Assigns item name value)
    (items : List Text) : judgeAssignments (item :: items)
      = judgeAssignments items >>= fun others => .done ((name, .str value) :: others) := by
  rw [judgeAssignments, assignment?_eq_some.mpr h]
  rfl

theorem judgeAssignments_of_assigned {items : List Text} {assigned : List (Text × Value)}
    (h : Assigned items assigned) : judgeAssignments items = .done assigned := by
  induction h with
  | nil => rfl
  | @cons item e items assigned he _ ih =>
    obtain ⟨value, hassigns, hvalue⟩ := he
    rw [judgeAssignments_cons hassigns, ih, ← hvalue]
    rfl

/-- The first item that is no assignment ends the reading. -/
theorem judgeAssignments_of_not_assigns {before after : List Text} {item : Text}
    (hbefore : ∀ x ∈ before, ∃ name value, Assigns x name value)
    (hitem : ∀ name value, ¬ Assigns item name value) :
    judgeAssignments (before ++ item :: after) = .refused [complaint (lit "E_EXPAND_BAD_ASSIGNMENT")
      (lit "--set expects NAME=VALUE, got: " ++ item) none] 2 := by
  induction before with
  | nil =>
    have hnone : assignment? item = none := by
      rcases hitem' : assignment? item with - | ⟨name, value⟩
      · rfl
      · exact absurd (assignment?_eq_some.mp hitem') (hitem name value)
    rw [List.nil_append, judgeAssignments, hnone]
  | cons x before ih =>
    obtain ⟨⟨name, value, hx⟩, hbefore⟩ := List.forall_mem_cons.mp hbefore
    rw [List.cons_append, judgeAssignments_cons hx, ih hbefore]
    rfl

/-- All items are assignments, or one is the first that is none. -/
theorem assigned_or_first (items : List Text) :
    (∃ assigned, Assigned items assigned) ∨
      ∃ before item after, items = before ++ item :: after ∧
        (∀ x ∈ before, ∃ name value, Assigns x name value) ∧
        ∀ name value, ¬ Assigns item name value := by
  induction items with
  | nil => exact .inl ⟨[], .nil⟩
  | cons item items ih =>
    by_cases hitem : ∃ name value, Assigns item name value
    · rcases ih with ⟨assigned, hassigned⟩ | ⟨before, x, after, rfl, hbefore, hx⟩
      · obtain ⟨name, value, hassigns⟩ := hitem
        exact .inl ⟨(name, .str value) :: assigned, .cons ⟨value, hassigns, rfl⟩ hassigned⟩
      · exact .inr ⟨item :: before, x, after, rfl, List.forall_mem_cons.mpr ⟨hitem, hbefore⟩, hx⟩
    · simp only [not_exists] at hitem
      exact .inr ⟨[], item, items, rfl, fun x hx => absurd hx List.not_mem_nil, hitem⟩

/-! ### Templates -/

theorem judgeTemplate_of_parse {source : Text} {t : Template} (h : Template.parse source = .ok t) :
    judgeTemplate source = .done t := by
  rcases Template.tryParse_cases source with ⟨u, htry, hparse⟩ | ⟨e, errors, -, hparse⟩
  · rw [h] at hparse
    obtain rfl := Except.ok.inj hparse
    rw [judgeTemplate, htry]
  · rw [h] at hparse
    cases hparse

theorem judgeTemplate_of_tryParse {source : Text} {errors : List ParseError}
    (h : Template.tryParse source = (none, errors)) :
    judgeTemplate source = .refused (errors.map ParseError.diagnostic) 2 := by
  rw [judgeTemplate, h]

/-! ### The stages -/

/-- The stages of a call. -/
inductive Stage
  | format
  | config
  | bindings
  | assignments
  | template
  | resolution
  deriving DecidableEq, Repr

/-- The place of a stage among the stages. -/
def Stage.place : Stage → Nat
  | format => 0
  | config => 1
  | bindings => 2
  | assignments => 3
  | template => 4
  | resolution => 5

/-- The format comes first. -/
theorem Stage.place_format_lt {stage : Stage} (h : stage ≠ .format) :
    place .format < stage.place := by
  cases stage with
  | format => exact absurd rfl h
  | _ => decide

namespace ExpandCall

/-- The bindings of the file that the call names; no name, or an empty one, stands
for no bindings. -/
def loaded (files : Files) (call : ExpandCall) : Except LoadFailure (Entries Text Value) :=
  match call.varsFile with
  | none => .ok []
  | some [] => .ok []
  | some path => Bindings.load files path

/-- What the library makes of a template. -/
def perform (call : ExpandCall) (t : Template) (store : Store) (s : Settings) :
    Except Failure Text :=
  if call.keepUnbound then (t.expandPartial store s).map Template.source else t.expand store s

/-- What a call hands to the library: its template and settings, and a store with
the bindings of the file, overridden by the assignments. -/
structure Prepares (files : Files) (call : ExpandCall) (t : Template) (store : Store)
    (s : Settings) : Prop where
  settings : Settings.load files call.configFile = .ok s
  template : Template.parse call.template = .ok t
  store : ∃ bindings assigned, call.loaded files = .ok bindings ∧
    Assigned call.assignments assigned ∧ store.Overrides (Store.ofList bindings) assigned

/-- A call fails at a stage, with these errors and this exit code. -/
inductive Fails (files : Files) (call : ExpandCall) : Stage → List Diagnostic → Nat → Prop
  | format : Format.ofName? call.format = none →
      Fails files call .format [complaint (lit "E_EXPAND_UNKNOWN_FORMAT")
        (lit "unknown format: " ++ call.format ++ lit " (choose one of: text, json)") none] 2
  | missingConfig : Settings.load files call.configFile = .error (.fault .missingFile) →
      Fails files call .config [complaint (lit "E_CONFIG_FILE_NOT_FOUND")
        (lit "config file not found: " ++ call.configFile.getD []) call.configFile] 1
  | badConfig {e} : Settings.load files call.configFile = .error (.invalid e) →
      Fails files call .config [complaint (lit "E_CONFIG_INVALID") e.message call.configFile] 2
  | bindings {e} : call.loaded files = .error (.load e) →
      Fails files call .bindings [e.diagnostic] 1
  | assignments {before item after} : call.assignments = before ++ item :: after →
      (∀ x ∈ before, ∃ name value, Assigns x name value) →
      (∀ name value, ¬ Assigns item name value) →
      Fails files call .assignments [complaint (lit "E_EXPAND_BAD_ASSIGNMENT")
        (lit "--set expects NAME=VALUE, got: " ++ item) none] 2
  | template {errors} : Template.tryParse call.template = (none, errors) →
      Fails files call .template (errors.map ParseError.diagnostic) 2
  | resolution {t store s e} : call.Prepares files t store s →
      call.perform t store s = .error (.resolution e) →
      Fails files call .resolution [e.diagnostic] 2

/-- The call fails at the stage and at none before it. -/
structure FirstFailure (files : Files) (call : ExpandCall) (stage : Stage)
    (errors : List Diagnostic) (exitCode : Nat) : Prop where
  fails : call.Fails files stage errors exitCode
  first : ∀ earlier : Stage, earlier.place < stage.place →
    ∀ errors' exitCode', ¬ call.Fails files earlier errors' exitCode'

/-- The call has a known format and comes to a text. -/
structure Yields (files : Files) (call : ExpandCall) (result : Text) : Prop where
  format : Format.ofName? call.format ≠ none
  performs : ∃ t store s, call.Prepares files t store s ∧ call.perform t store s = .ok result

/-- Loading ends in a value or in errors of the loaders: a configuration file that
is missing or refused, a file of bindings that is refused.  The values of the file
resolve, or are refused. -/
structure Loadable (files : Files) (call : ExpandCall) : Prop where
  config : ∀ f, Settings.load files call.configFile = .error (.fault f) → f = .missingFile
  bindings : ∀ f, call.loaded files ≠ .error (.fault f)
  values : ∀ s bindings, Settings.load files call.configFile = .ok s →
    call.loaded files = .ok bindings → ∀ e ∈ bindings, ∀ f, e.2.resolve s ≠ .error (.fault f)

variable {files : Files} {call : ExpandCall} {t : Template} {store a b : Store} {s : Settings}

/-! ### The library -/

theorem perform_congr (h : ∀ name, a.get? name = b.get? name) :
    call.perform t a s = call.perform t b s := by
  have hagree : a.Agree b t.variableNames := by
    intro name _
    rw [Store.lookup, Store.lookup, h name]
  rw [perform, perform, Template.expandPartial, Template.expandPartial, Template.expand,
    Template.expand, Template.expandTraced_congr hagree, Template.expandPartialTraced_congr hagree]

theorem perform_eq_error (ht : ∀ c ∈ t.components, c.Sound) {failure : Failure}
    (h : call.perform t store s = .error failure) : t.expand store s = .error failure := by
  unfold perform at h
  split at h
  · rw [← error?_eq_some, ← Template.error?_expandPartial_eq_expand ht, error?_eq_some]
    exact map_eq_error.mp h
  · exact h

/-- The store of a call binds names to texts and to values of the file. -/
theorem Prepares.exists_of_get? (h : call.Prepares files t store s) {name : Text} {v : Value}
    (hv : store.get? name = some v) : (∃ value, v = .str value) ∨
      ∃ bindings, call.loaded files = .ok bindings ∧ (name, v) ∈ bindings := by
  obtain ⟨bindings, assigned, hloaded, hassigned, hstore⟩ := h.store
  rw [hstore name] at hv
  rcases Option.or_eq_some_iff.mp hv with hv | ⟨-, hv⟩
  · have hmem := List.mem_reverse.mp (Entries.mem_of_get?_eq_some hv)
    obtain ⟨item, -, value, -, hvalue⟩ := exists_of_mem_right hassigned _ hmem
    exact .inl ⟨value, hvalue⟩
  · refine .inr ⟨bindings, hloaded, ?_⟩
    have hreversed : Entries.get? bindings.reverse name = some v := by
      have hall := Entries.get?_setAll [] bindings name
      rw [show Entries.get? [] name = (none : Option Value) from rfl, Option.or_none] at hall
      exact hall.symm.trans hv
    exact List.mem_reverse.mp (Entries.mem_of_get?_eq_some hreversed)

/-- Assignments give texts, which resolve or are refused. -/
theorem Loadable.settled (hload : call.Loadable files) (h : call.Prepares files t store s) :
    store.Settled s := by
  intro name v hv f hfault
  rcases h.exists_of_get? hv with ⟨value, rfl⟩ | ⟨bindings, hloaded, hmem⟩
  · have hscalar : (Value.encodableText (.ok value)).map Resolved.scalar = .error (.fault f) := hfault
    cases Value.encodableText_eq_fault (map_eq_error.mp hscalar)
  · exact hload.values s bindings h.settings hloaded _ hmem f hfault

/-- A value, or an error about a value. -/
theorem Loadable.perform_cases (hload : call.Loadable files) (h : call.Prepares files t store s) :
    (∃ result, call.perform t store s = .ok result) ∨
      ∃ e, call.perform t store s = .error (.resolution e) := by
  have hsound := Template.parse_sound h.template
  rcases hperform : call.perform t store s with failure | result
  · have hexpand := perform_eq_error hsound hperform
    cases failure with
    | parse e => exact absurd hexpand (Template.expand_ne_parse hsound store s e)
    | resolution e => exact .inr ⟨e, rfl⟩
    | fault f => exact absurd hexpand (Template.expand_ne_fault hsound (hload.settled h) f)
  · exact .inl ⟨result, rfl⟩

/-- Settings and bindings are loaded, and the values of the bindings resolve or are
refused. -/
theorem loadable_of_bindings {bindings : Entries Text Value}
    (hs : Settings.load files call.configFile = .ok s) (hb : call.loaded files = .ok bindings)
    (h : ∀ e ∈ bindings, ∀ f, e.2.resolve s ≠ .error (.fault f)) : call.Loadable files := by
  refine ⟨fun f hf => ?_, fun f hf => ?_, fun s' bindings' hs' hb' => ?_⟩
  · rw [hs] at hf
    cases hf
  · rw [hb] at hf
    cases hf
  · rw [hs] at hs'
    rw [hb] at hb'
    obtain rfl := Except.ok.inj hs'
    obtain rfl := Except.ok.inj hb'
    exact h

/-- Settings are loaded, and the file of bindings is refused. -/
theorem loadable_of_refused {e : LoadError} (hs : Settings.load files call.configFile = .ok s)
    (he : call.loaded files = .error (.load e)) : call.Loadable files := by
  refine ⟨fun f hf => ?_, fun f hf => ?_, fun s' bindings' _ hb => ?_⟩
  · rw [hs] at hf
    cases hf
  · rw [he] at hf
    cases hf
  · rw [he] at hb
    cases hb

/-! ### Stages that are passed -/

theorem Loadable.exists_settings (hload : call.Loadable files)
    (h : ∀ errors exitCode, ¬ call.Fails files .config errors exitCode) :
    ∃ s, Settings.load files call.configFile = .ok s := by
  rcases hs : Settings.load files call.configFile with (e | f) | s
  · exact absurd (.badConfig hs) (h _ _)
  · obtain rfl := hload.config f hs
    exact absurd (.missingConfig hs) (h _ _)
  · exact ⟨s, rfl⟩

theorem Loadable.exists_bindings (hload : call.Loadable files)
    (h : ∀ errors exitCode, ¬ call.Fails files .bindings errors exitCode) :
    ∃ bindings, call.loaded files = .ok bindings := by
  rcases hloaded : call.loaded files with (e | f) | bindings
  · exact absurd (.bindings hloaded) (h _ _)
  · exact absurd hloaded (hload.bindings f)
  · exact ⟨bindings, rfl⟩

theorem exists_assigned (h : ∀ errors exitCode, ¬ call.Fails files .assignments errors exitCode) :
    ∃ assigned, Assigned call.assignments assigned := by
  rcases assigned_or_first call.assignments with hassigned | ⟨before, item, after, heq, hbefore, hitem⟩
  · exact hassigned
  · exact absurd (.assignments heq hbefore hitem) (h _ _)

theorem exists_template (h : ∀ errors exitCode, ¬ call.Fails files .template errors exitCode) :
    ∃ t, Template.parse call.template = .ok t := by
  rcases Template.tryParse_cases call.template with ⟨t, -, hparse⟩ | ⟨e, errors, htry, -⟩
  · exact ⟨t, hparse⟩
  · exact absurd (.template htry) (h _ _)

/-- If no stage fails, the call comes to a text. -/
theorem Loadable.exists_yields (hload : call.Loadable files)
    (h : ∀ stage errors exitCode, ¬ call.Fails files stage errors exitCode) :
    ∃ result, call.Yields files result := by
  obtain ⟨s, hs⟩ := hload.exists_settings (h .config)
  obtain ⟨bindings, hbindings⟩ := hload.exists_bindings (h .bindings)
  obtain ⟨assigned, hassigned⟩ := exists_assigned (h .assignments)
  obtain ⟨t, ht⟩ := exists_template (h .template)
  have hprepares : call.Prepares files t ((Store.ofList bindings).setAll assigned) s :=
    ⟨hs, ht, bindings, assigned, hbindings, hassigned, Store.overrides_setAll _ _⟩
  rcases hload.perform_cases hprepares with ⟨result, hresult⟩ | ⟨e, he⟩
  · exact ⟨result, fun hformat => h _ _ _ (.format hformat), t, _, s, hprepares, hresult⟩
  · exact absurd (.resolution hprepares he) (h _ _ _)

/-- If some stage fails, one is the first that does. -/
theorem exists_firstFailure {stage : Stage} {errors : List Diagnostic} {exitCode : Nat}
    (h : call.Fails files stage errors exitCode) :
    ∃ stage errors exitCode, call.FirstFailure files stage errors exitCode := by
  induction hn : stage.place using Nat.strongRecOn generalizing stage errors exitCode with
  | ind n ih =>
    by_cases hfirst : ∃ (earlier : Stage) (errors' : List Diagnostic) (exitCode' : Nat),
        earlier.place < stage.place ∧ call.Fails files earlier errors' exitCode'
    · obtain ⟨earlier, errors', exitCode', hlt, hfails⟩ := hfirst
      exact ih earlier.place (hn ▸ hlt) hfails rfl
    · refine ⟨stage, errors, exitCode, h, fun earlier hlt errors' exitCode' hfails => ?_⟩
      exact hfirst ⟨earlier, errors', exitCode', hlt, hfails⟩

/-- With a known format and settings, a refused file of bindings is the first
failure. -/
theorem firstFailure_of_refused {e : LoadError} (hformat : Format.ofName? call.format ≠ none)
    (hs : Settings.load files call.configFile = .ok s)
    (he : call.loaded files = .error (.load e)) :
    call.FirstFailure files .bindings [e.diagnostic] 1 := by
  refine ⟨.bindings he, fun earlier hlt errors exitCode hfails => ?_⟩
  cases hfails with
  | format hunknown => exact hformat hunknown
  | missingConfig hmissing =>
    rw [hs] at hmissing
    cases hmissing
  | badConfig hinvalid =>
    rw [hs] at hinvalid
    cases hinvalid
  | _ => exact absurd hlt (by decide)

/-! ### The verdict -/

theorem judgeSettings_of_load (h : Settings.load files call.configFile = .ok s) :
    judgeSettings files call.configFile = .done s := by
  rw [judgeSettings, h]

theorem judgeBindings_eq : judgeBindings files call.varsFile = match call.loaded files with
    | .ok bindings => .done bindings
    | .error (.load e) => .refused [e.diagnostic] 1
    | .error (.fault f) => .uncaught (.fault f) := by
  unfold judgeBindings loaded
  rcases call.varsFile with - | - | ⟨c, path⟩
  · rfl
  · rfl
  · rfl

/-- A fault of the file of bindings ends the call. -/
theorem judge_of_fault {f : Fault} (hs : Settings.load files call.configFile = .ok s)
    (hf : call.loaded files = .error (.fault f)) : call.judge files = .uncaught (.fault f) := by
  rw [ExpandCall.judge, judgeSettings_of_load hs, judgeBindings_eq, hf]
  rfl

/-- A file of bindings that is refused ends the call with its error. -/
theorem judge_of_refused {e : LoadError} (hs : Settings.load files call.configFile = .ok s)
    (he : call.loaded files = .error (.load e)) :
    call.judge files = .refused [e.diagnostic] 1 := by
  rw [ExpandCall.judge, judgeSettings_of_load hs, judgeBindings_eq, he]
  rfl

theorem judgeExpansion_eq : judgeExpansion t store s call.keepUnbound
    = match call.perform t store s with
      | .ok text => .done text
      | .error (.resolution e) => .refused [e.diagnostic] 2
      | .error f => .uncaught f := rfl

/-- The verdict is that on the expansion if everything before it succeeds. -/
theorem Prepares.judge (h : call.Prepares files t store s) : call.judge files
    = match call.perform t store s with
      | .ok text => .done text
      | .error (.resolution e) => .refused [e.diagnostic] 2
      | .error f => .uncaught f := by
  obtain ⟨bindings, assigned, hloaded, hassigned, hstore⟩ := h.store
  have hsame : call.perform t store s
      = call.perform t ((Store.ofList bindings).setAll assigned) s :=
    perform_congr (hstore.get?_eq (Store.overrides_setAll _ _))
  rw [hsame, ← judgeExpansion_eq, ExpandCall.judge, judgeSettings_of_load h.settings,
    judgeBindings_eq, hloaded, judgeAssignments_of_assigned hassigned,
    judgeTemplate_of_parse h.template]
  rfl

/-- **A call that comes to a text is judged by it.** -/
theorem Yields.judge {result : Text} (h : call.Yields files result) :
    call.judge files = .done result := by
  obtain ⟨t, store, s, hprepares, hresult⟩ := h.performs
  rw [hprepares.judge, hresult]

/-- **A call is judged by the first stage that fails.** -/
theorem FirstFailure.judge (hload : call.Loadable files) {stage : Stage}
    {errors : List Diagnostic} {exitCode : Nat}
    (h : call.FirstFailure files stage errors exitCode) (hformat : stage ≠ .format) :
    call.judge files = .refused errors exitCode := by
  obtain ⟨hfails, hfirst⟩ := h
  -- what is known once the stages before have not failed
  have hsettings : Stage.place .config < stage.place →
      ∃ s, judgeSettings files call.configFile = .done s := fun hlt =>
    (hload.exists_settings (hfirst .config hlt)).imp fun _ => judgeSettings_of_load
  have hbindings : Stage.place .bindings < stage.place →
      ∃ bindings, judgeBindings files call.varsFile = .done bindings := by
    intro hlt
    obtain ⟨bindings, hloaded⟩ := hload.exists_bindings (hfirst .bindings hlt)
    exact ⟨bindings, by rw [judgeBindings_eq, hloaded]⟩
  have hassigned : Stage.place .assignments < stage.place →
      ∃ assigned, judgeAssignments call.assignments = .done assigned := fun hlt =>
    (exists_assigned (hfirst .assignments hlt)).imp fun _ => judgeAssignments_of_assigned
  cases hfails with
  | format _ => exact absurd rfl hformat
  | missingConfig hmissing =>
    rw [ExpandCall.judge, judgeSettings, hmissing]
    rfl
  | badConfig hinvalid =>
    rw [ExpandCall.judge, judgeSettings, hinvalid]
    rfl
  | bindings hrefused =>
    obtain ⟨s, hs⟩ := hload.exists_settings (hfirst .config (by decide))
    exact judge_of_refused hs hrefused
  | assignments heq hbefore hitem =>
    obtain ⟨s, hs⟩ := hsettings (by decide)
    obtain ⟨bindings, hb⟩ := hbindings (by decide)
    rw [ExpandCall.judge, hs, hb, heq, judgeAssignments_of_not_assigns hbefore hitem]
    rfl
  | template htry =>
    obtain ⟨s, hs⟩ := hsettings (by decide)
    obtain ⟨bindings, hb⟩ := hbindings (by decide)
    obtain ⟨assigned, ha⟩ := hassigned (by decide)
    rw [ExpandCall.judge, hs, hb, ha, judgeTemplate_of_tryParse htry]
    rfl
  | resolution hprepares herror => rw [hprepares.judge, herror]

section
variable {errors : List Diagnostic} {exitCode : Nat}

theorem load_of_judgeSettings (h : judgeSettings files call.configFile = .done s) :
    Settings.load files call.configFile = .ok s := by
  unfold judgeSettings at h
  split at h
  · next hs =>
    obtain rfl := Verdict.done.inj h
    exact hs
  · cases h
  · cases h
  · cases h

theorem fails_of_judgeSettings (h : judgeSettings files call.configFile = .refused errors exitCode) :
    call.Fails files .config errors exitCode := by
  unfold judgeSettings at h
  split at h
  · cases h
  · next hmissing =>
    obtain ⟨rfl, rfl⟩ := Verdict.refused.inj h
    exact .missingConfig hmissing
  · cases h
  · next hinvalid =>
    obtain ⟨rfl, rfl⟩ := Verdict.refused.inj h
    exact .badConfig hinvalid

theorem loaded_of_judgeBindings {bindings : Entries Text Value}
    (h : judgeBindings files call.varsFile = .done bindings) : call.loaded files = .ok bindings := by
  rw [judgeBindings_eq] at h
  split at h
  · next hb =>
    obtain rfl := Verdict.done.inj h
    exact hb
  · cases h
  · cases h

theorem fails_of_judgeBindings (h : judgeBindings files call.varsFile = .refused errors exitCode) :
    call.Fails files .bindings errors exitCode := by
  rw [judgeBindings_eq] at h
  split at h
  · cases h
  · next hrefused =>
    obtain ⟨rfl, rfl⟩ := Verdict.refused.inj h
    exact .bindings hrefused
  · cases h

theorem assigned_of_judgeAssignments {assigned : List (Text × Value)}
    (h : judgeAssignments call.assignments = .done assigned) :
    Assigned call.assignments assigned := by
  rcases assigned_or_first call.assignments with
    ⟨assigned', hassigned⟩ | ⟨before, item, after, heq, hbefore, hitem⟩
  · rw [judgeAssignments_of_assigned hassigned] at h
    obtain rfl := Verdict.done.inj h
    exact hassigned
  · rw [heq, judgeAssignments_of_not_assigns hbefore hitem] at h
    cases h

theorem fails_of_judgeAssignments (h : judgeAssignments call.assignments = .refused errors exitCode) :
    call.Fails files .assignments errors exitCode := by
  rcases assigned_or_first call.assignments with
    ⟨assigned, hassigned⟩ | ⟨before, item, after, heq, hbefore, hitem⟩
  · rw [judgeAssignments_of_assigned hassigned] at h
    cases h
  · rw [heq, judgeAssignments_of_not_assigns hbefore hitem] at h
    obtain ⟨rfl, rfl⟩ := Verdict.refused.inj h
    exact .assignments heq hbefore hitem

theorem parse_of_judgeTemplate (h : judgeTemplate call.template = .done t) :
    Template.parse call.template = .ok t := by
  rcases Template.tryParse_cases call.template with ⟨u, -, hparse⟩ | ⟨e, errors, htry, -⟩
  · rw [judgeTemplate_of_parse hparse] at h
    obtain rfl := Verdict.done.inj h
    exact hparse
  · rw [judgeTemplate_of_tryParse htry] at h
    cases h

theorem fails_of_judgeTemplate (h : judgeTemplate call.template = .refused errors exitCode) :
    call.Fails files .template errors exitCode := by
  rcases Template.tryParse_cases call.template with ⟨u, -, hparse⟩ | ⟨e, errors', htry, -⟩
  · rw [judgeTemplate_of_parse hparse] at h
    cases h
  · rw [judgeTemplate_of_tryParse htry] at h
    obtain ⟨rfl, rfl⟩ := Verdict.refused.inj h
    exact .template htry

/-- A call is refused for a stage that fails. -/
theorem exists_fails_of_judge (h : call.judge files = .refused errors exitCode) :
    ∃ stage, call.Fails files stage errors exitCode := by
  unfold ExpandCall.judge at h
  rcases Verdict.refused_of_bind h with hconfig | ⟨s, hs, h⟩
  · exact ⟨.config, fails_of_judgeSettings hconfig⟩
  rcases Verdict.refused_of_bind h with hbindings | ⟨bindings, hb, h⟩
  · exact ⟨.bindings, fails_of_judgeBindings hbindings⟩
  rcases Verdict.refused_of_bind h with hassignments | ⟨assigned, ha, h⟩
  · exact ⟨.assignments, fails_of_judgeAssignments hassignments⟩
  rcases Verdict.refused_of_bind h with htemplate | ⟨t, ht, h⟩
  · exact ⟨.template, fails_of_judgeTemplate htemplate⟩
  have hprepares : call.Prepares files t ((Store.ofList bindings).setAll assigned) s :=
    ⟨load_of_judgeSettings hs, parse_of_judgeTemplate ht, bindings, assigned,
      loaded_of_judgeBindings hb, assigned_of_judgeAssignments ha, Store.overrides_setAll _ _⟩
  rw [judgeExpansion_eq] at h
  split at h
  · cases h
  · next herror =>
    obtain ⟨rfl, rfl⟩ := Verdict.refused.inj h
    exact ⟨.resolution, .resolution hprepares herror⟩
  · cases h

end

/-- No stage fails if the call comes to a text. -/
theorem Yields.not_fails {result : Text} (h : call.Yields files result) (hload : call.Loadable files)
    {stage : Stage} {errors : List Diagnostic} {exitCode : Nat} :
    ¬ call.Fails files stage errors exitCode := by
  intro hfails
  obtain ⟨first, errors', exitCode', hfirst⟩ := exists_firstFailure hfails
  by_cases hformat : first = .format
  · subst hformat
    cases hfirst.fails with
    | format hunknown => exact h.format hunknown
  · have hjudge := hfirst.judge hload hformat
    rw [h.judge] at hjudge
    cases hjudge

end ExpandCall

end CommandLine

end UriExpansion
