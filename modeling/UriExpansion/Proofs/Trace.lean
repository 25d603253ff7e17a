/-
UriExpansion/Proofs/Trace.lean

What an expansion reports on its way.

Warnings come from one place only, where a value is refused and the policy lets
the expansion go on (`Expression.events_resolve`).  Both kinds of expansion resolve
every variable of an expression once, in order, before they write anything, and
whatever comes after it is silent about refusals (`Traced.warnings_bind`).  So they
warn alike, of every occurrence whose value is refused (`Template.warnings`), be
its expression expanded, kept or continued.  A full expansion reports each
expression besides, with the number of its units (`Expression.events_expand`).
-/
import UriExpansion.Proofs.Residue
import UriExpansion.Proofs.Policy

namespace UriExpansion

/-! ### Events of computations -/

namespace Event

/-- Whether the entry is a warning that a value was refused. -/
def isWarning : Event → Bool
  | resolutionFailed .. => true
  | _ => false

/-- The warnings among entries. -/
def warnings (events : List Event) : List Event := events.filter isWarning

/-- The warning that the value of a variable is refused. -/
def refusal (name : Text) (c : ResolutionCause) : Event := .resolutionFailed name c.code c.message

end Event

namespace Traced

variable {ε α β : Type} {x : Traced ε α} {f : α → Traced ε β}

theorem events_bind_of_ok {a : α} (h : x.outcome = .ok a) :
    (x >>= f).events = x.events ++ (f a).events := by
  show (bind x f).events = _
  rw [bind, h]

theorem events_bind_of_error {e : ε} (h : x.outcome = .error e) : (x >>= f).events = x.events := by
  show (bind x f).events = _
  rw [bind, h]

/-- What follows without a report adds none. -/
theorem events_bind_of_nil (hf : ∀ a, (f a).events = []) : (x >>= f).events = x.events := by
  rcases hx : x.outcome with e | a
  · rw [events_bind_of_error hx]
  · rw [events_bind_of_ok hx, hf, List.append_nil]

/-- Computations that end in values report one after the other. -/
theorem events_forEach {as : List α} (h : ∀ a ∈ as, ∃ b, (f a).outcome = .ok b) :
    (forEach f as).events = as.flatMap fun a => (f a).events := by
  induction as with
  | nil => rfl
  | cons a as ih =>
    obtain ⟨⟨b, hb⟩, has⟩ := List.forall_mem_cons.mp h
    rw [forEach, events_bind_of_ok hb, List.flatMap_cons, ← ih has]
    rfl

/-- The computation emits no warning. -/
def Silent (x : Traced ε α) : Prop := Event.warnings x.events = []

/-- What follows in silence adds no warning. -/
theorem warnings_bind (hf : ∀ a, (f a).Silent) :
    Event.warnings (x >>= f).events = Event.warnings x.events := by
  rcases hx : x.outcome with e | a
  · rw [events_bind_of_error hx]
  · rw [events_bind_of_ok hx, Event.warnings, List.filter_append]
    exact (congrArg _ (hf a)).trans (List.append_nil _)

theorem Silent.bind (hx : x.Silent) (hf : ∀ a, (f a).Silent) : (x >>= f).Silent :=
  (warnings_bind hf).trans hx

theorem silent_forEach {as : List α} (h : ∀ a, (f a).Silent) : (forEach f as).Silent := by
  induction as with
  | nil => rfl
  | cons a as ih => exact (h a).bind fun b => ih

end Traced

/-! ### Settled stores -/

namespace Store

variable {store : Store} {s : Settings}

/-- A settled store has a meaning for every name where refusals are not final. -/
theorem Settled.exists_meaning (hs : store.Settled s) (hp : s.onResolutionError ≠ .abort)
    (name : Text) : ∃ value, store.meaning s name = .ok value :=
  (exists_meaning_iff name hp).mpr fun v f hv => hs name v hv f

theorem Settled.exists_meanings (hs : store.Settled s) (hp : s.onResolutionError ≠ .abort)
    (specs : List VarSpec) : ∃ values, store.meanings s specs = .ok values :=
  exists_mapM_eq_ok_iff.mpr fun spec _ => hs.exists_meaning hp spec.name

end Store

/-! ### Expressions -/

namespace Expression

variable {store : Store} {s : Settings}

/-- The warnings of an expression, one for each variable whose value is refused. -/
def warnings (e : Expression) (store : Store) (s : Settings) : List Event :=
  e.varspecs.filterMap fun spec => (store.cause? s spec.name).map (.refusal spec.name)

/-- The units that are written for an expression. -/
def unitsUnder (e : Expression) (store : Store) (s : Settings) : List Text :=
  match store.meanings s e.varspecs with
  | .ok values => e.operator.written e.varspecs values
  | .error _ => []

/-- **Resolving a variable warns of a refusal** where refusals are not final. -/
theorem events_resolve (hp : s.onResolutionError ≠ .abort) (e : Expression) (spec : VarSpec) :
    (e.resolve store s spec).events
      = ((store.cause? s spec.name).map (.refusal spec.name)).toList := by
  rw [resolve, Store.cause?]
  rcases ((store.get? spec.name).getD .none).resolve s with (c | f) | value
  · cases hpolicy : s.onResolutionError with
    | abort => exact absurd hpolicy hp
    | undefined => rfl
  · rfl
  · rfl

/-- A final refusal is an error and no warning. -/
theorem silent_resolve (hp : s.onResolutionError = .abort) (e : Expression) (spec : VarSpec) :
    (e.resolve store s spec).Silent := by
  rw [resolve, hp]
  rcases ((store.get? spec.name).getD .none).resolve s with (c | f) | value <;> rfl

theorem silent_render (e : Expression) (values : List Resolved) : (e.render values).Silent :=
  Traced.Silent.bind rfl fun _ => rfl

/-- Whatever is made of an expression, values are not resolved again. -/
theorem silent_renderPartially (e : Expression) (values : List Resolved) :
    (e.renderPartially values).Silent := by
  rw [renderPartially]
  split
  · exact e.silent_render values
  · dsimp only
    split
    · rfl
    · split
      · rfl
      · exact (silent_render _ _).bind fun _ => rfl

theorem events_forEach_resolve (hs : store.Settled s) (hp : s.onResolutionError ≠ .abort)
    (e : Expression) :
    (Traced.forEach (e.resolve store s) e.varspecs).events = e.warnings store s := by
  have hok : ∀ spec ∈ e.varspecs, ∃ value, (e.resolve store s spec).outcome = .ok value := by
    intro spec _
    obtain ⟨value, hvalue⟩ := hs.exists_meaning hp spec.name
    refine ⟨value, ?_⟩
    rw [outcome_resolve, hvalue]
    rfl
  rw [Traced.events_forEach hok, warnings, List.filterMap_eq_flatMap_toList]
  simp only [events_resolve hp]

theorem events_render (e : Expression) {values : List Resolved}
    (h : ∀ value ∈ values, value.Sound) : (e.render values).events
      = [.expressionExpanded e.toText (e.operator.written e.varspecs values).length] := by
  have hunits : e.operator.units (e.varspecs.zip values)
      = .ok (e.operator.written e.varspecs values) :=
    e.operator.units_eq_ok fun x hx => h x.2 (List.of_mem_zip hx).2
  rw [render, hunits]
  rfl

/-- **The expansion of an expression** warns of what is refused, then reports the
number of units, which it joins. -/
theorem expand_eq (hs : store.Settled s) (hp : s.onResolutionError ≠ .abort) (e : Expression) :
    e.expand store s = ⟨e.warnings store s
      ++ [.expressionExpanded e.toText (e.unitsUnder store s).length],
      .ok (e.operator.join (e.unitsUnder store s))⟩ := by
  obtain ⟨values, hvalues⟩ := hs.exists_meanings hp e.varspecs
  have hsound := Store.meanings_sound hvalues
  have hresolved : (Traced.forEach (e.resolve store s) e.varspecs).outcome = .ok values := by
    rw [outcome_forEach_resolve, hvalues]
    rfl
  have hunits : e.unitsUnder store s = e.operator.written e.varspecs values := by
    rw [unitsUnder, hvalues]
  -- all variables are resolved before anything is written, so that warnings come first
  show Traced.bind _ _ = _
  rw [Traced.bind, hresolved]
  dsimp only
  rw [events_forEach_resolve hs hp, e.events_render hsound, e.outcome_render hsound, hunits]
  rfl

theorem warnings_warnings (e : Expression) :
    Event.warnings (e.warnings store s) = e.warnings store s := by
  refine List.filter_eq_self.mpr fun event hevent => ?_
  obtain ⟨spec, -, hspec⟩ := List.mem_filterMap.mp hevent
  obtain ⟨c, -, rfl⟩ := Option.map_eq_some_iff.mp hspec
  rfl

end Expression

/-! ### Components -/

namespace Component

variable {store : Store} {s : Settings}

/-- Components without expressions report nothing. -/
theorem flatMap_components {β : Type} {report : Component → List β}
    (h : ∀ text p, report (.literal text p) = []) (cs : List Component) :
    cs.flatMap report = (cs.filterMap expression?).flatMap fun e => report (.expression e) := by
  induction cs with
  | nil => rfl
  | cons c cs ih =>
    cases c with
    | literal text p =>
      rw [List.flatMap_cons, h, ih]
      rfl
    | expression e =>
      rw [List.flatMap_cons, ih]
      rfl

/-- Partial expansion warns of what is refused, whatever it makes of an expression. -/
theorem warnings_expandPartially (hs : store.Settled s) (hp : s.onResolutionError ≠ .abort)
    (e : Expression) :
    Event.warnings ((expression e).expandPartially store s).events = e.warnings store s := by
  rw [expandPartially, Traced.warnings_bind e.silent_renderPartially,
    Expression.events_forEach_resolve hs hp, e.warnings_warnings]

theorem silent_expand (hp : s.onResolutionError = .abort) (c : Component) :
    (c.expand store s).Silent := by
  cases c with
  | literal text p => rfl
  | expression e =>
    exact (Traced.silent_forEach (e.silent_resolve hp)).bind e.silent_render

theorem silent_expandPartially (hp : s.onResolutionError = .abort) (c : Component) :
    (c.expandPartially store s).Silent := by
  cases c with
  | literal text p => rfl
  | expression e =>
    exact (Traced.silent_forEach (e.silent_resolve hp)).bind e.silent_renderPartially

end Component

/-! ### Templates -/

namespace Template

variable {t : Template} {store : Store} {s : Settings}

/-- The warnings of a template, one for each occurrence of a variable whose value is
refused. -/
def warnings (t : Template) (store : Store) (s : Settings) : List Event :=
  t.occurrences.filterMap fun x => (store.cause? s x.2.name).map (.refusal x.2.name)

theorem warnings_eq (t : Template) (store : Store) (s : Settings) :
    t.warnings store s = t.expressions.flatMap fun e => e.warnings store s := by
  rw [warnings, occurrences, List.filterMap_flatMap]
  simp only [List.filterMap_map]
  rfl

theorem silent_parseTraced (source : Text) :
    ((parseTraced source).mapError Failure.parse).Silent := by
  rw [parseTraced]
  rcases parse source with e | t
  · show Event.warnings (tryParseEvents source) = []
    rw [tryParseEvents]
    rcases (tryParse source).2 with - | ⟨e, errors⟩ <;> rfl
  · rfl

/-- A full expansion reports one expression after the other. -/
theorem events_expandTraced (hsound : ∀ c ∈ t.components, c.Sound) (hs : store.Settled s)
    (hp : s.onResolutionError ≠ .abort) : (t.expandTraced store s).events
      = t.expressions.flatMap fun e => e.warnings store s
        ++ [.expressionExpanded e.toText (e.unitsUnder store s).length] := by
  have hok : ∀ c ∈ t.components, ∃ text, (Component.expand store s c).outcome = .ok text := by
    intro c hc
    cases c with
    | literal text p => exact ⟨_, Component.outcome_expand_literal (hsound _ hc) store s⟩
    | expression e =>
      rw [Component.expand, e.expand_eq hs hp]
      exact ⟨_, rfl⟩
  rw [expandTraced, Traced.events_bind_of_nil fun _ => rfl, Traced.events_forEach hok,
    Component.flatMap_components fun _ _ => rfl]
  simp only [Component.expand, Expression.expand_eq hs hp]
  rfl

theorem warnings_expandPartialTraced (hs : store.Settled s) (hp : s.onResolutionError ≠ .abort)
    (t : Template) :
    Event.warnings (t.expandPartialTraced store s).events = t.warnings store s := by
  have hok : ∀ c ∈ t.components,
      ∃ text, (Component.expandPartially store s c).outcome = .ok text :=
    fun c _ => Component.exists_outcome fun e _ => hs.exists_meanings hp e.varspecs
  -- reading the result as a template resolves nothing
  rw [expandPartialTraced, Traced.warnings_bind fun _ => silent_parseTraced _,
    Traced.events_forEach hok, Event.warnings, List.filter_flatMap,
    Component.flatMap_components fun _ _ => rfl, warnings_eq]
  exact congrArg (List.flatMap · _) (funext (Component.warnings_expandPartially hs hp))

/-- **Plain and partial expansion warn alike.**  Where refusals are not final both
warn of every occurrence of a variable whose value is refused, in the order of the
template; a plain expansion reports each expression once, behind its warnings and
with the number of the units that it joins.  Where refusals are final neither
warns. -/
theorem expand_warns {source : Text} (ht : parse source = .ok t) (store : Store) (s : Settings) :
    (store.Settled s → s.onResolutionError ≠ .abort →
      Event.warnings (t.expandTraced store s).events = t.warnings store s ∧
      Event.warnings (t.expandPartialTraced store s).events = t.warnings store s ∧
      (t.expandTraced store s).events = t.expressions.flatMap (fun e => e.warnings store s
        ++ [.expressionExpanded e.toText (e.unitsUnder store s).length]) ∧
      ∀ e ∈ t.expressions,
        (e.expand store s).outcome = .ok (e.operator.join (e.unitsUnder store s))) ∧
      (s.onResolutionError = .abort → Event.warnings (t.expandTraced store s).events = [] ∧
        Event.warnings (t.expandPartialTraced store s).events = []) := by
  refine ⟨fun hs hp => ?_, fun hp => ⟨?_, ?_⟩⟩
  · have hevents := events_expandTraced (parse_sound ht) hs hp
    refine ⟨?_, warnings_expandPartialTraced hs hp t, hevents, fun e _ => ?_⟩
    · rw [hevents, warnings_eq, Event.warnings, List.filter_flatMap]
      refine congrArg (List.flatMap · _) (funext fun e => ?_)
      rw [List.filter_append]
      exact (List.append_nil _).trans e.warnings_warnings
    · rw [e.expand_eq hs hp]
  · exact (Traced.silent_forEach (Component.silent_expand hp)).bind fun _ => rfl
  · exact (Traced.silent_forEach (Component.silent_expandPartially hp)).bind
      fun _ => silent_parseTraced _

/-- A value that is refused twice beside one that is refused once; the first
expression is kept by partial expansion and the second goes on. -/
theorem expand_warns_repeated :
    let store := Store.ofList [(lit "x", .str (lit "1")),
      (lit "deep", .list [.list [.str (lit "a")]]), (lit "f", .function 0 (lit "f"))]
    let s := Settings.standard.under .undefined
    let deep : Event := .resolutionFailed (lit "deep") (lit "E_NESTED_COMPOSITE")
      (lit "list and map members must be scalars, got list")
    let f : Event := .resolutionFailed (lit "f") (lit "E_NOT_EXPLODABLE")
      (lit "value of type function must be an object instance")
    ∃ t, parse (lit "\x7bdeep,x\x7d\x7b?x,f,deep\x7d") = .ok t ∧ store.Settled s ∧
      (t.expandTraced store s).events = [deep,
        .expressionExpanded (lit "\x7bdeep,x\x7d") 1, f, deep,
        .expressionExpanded (lit "\x7b?x,f,deep\x7d") 1] ∧
      Event.warnings (t.expandPartialTraced store s).events = [deep, f, deep] ∧
      (t.expandPartial store s).toOption.map Template.source
        = some (lit "\x7bdeep,x\x7d?x=1\x7b&f,deep\x7d") ∧
      Event.warnings (t.expandTraced store .standard).events = [] := by
  intro store s deep f
  let t : Template := ⟨lit "\x7bdeep,x\x7d\x7b?x,f,deep\x7d", [.expression
      ⟨lit "deep,x", .simple, [⟨lit "deep", .none⟩, ⟨lit "x", .none⟩], 0⟩,
    .expression ⟨lit "?x,f,deep", .query,
      [⟨lit "x", .none⟩, ⟨lit "f", .none⟩, ⟨lit "deep", .none⟩], 8⟩]⟩
  have hparse : parse (lit "\x7bdeep,x\x7d\x7b?x,f,deep\x7d") = .ok t :=
    eq_ok_of_toOption (by decide +kernel)
  have hsettled : store.Settled s := by
    apply Store.settled_of_entries
    show ∀ e ∈ [_, _, _], _
    refine List.forall_mem_cons.mpr ⟨?_, List.forall_mem_cons.mpr ⟨?_, ?_⟩⟩
    · exact fun f h => nomatch h
    · exact fun f h => nomatch h
    · exact List.forall_mem_singleton.mpr fun f h => nomatch h
  have hwarnings : t.warnings store s = [deep, f, deep] := by decide +kernel
  obtain ⟨hreports, -⟩ := expand_warns hparse store s
  obtain ⟨-, hpartial, hevents, -⟩ := hreports hsettled (by decide)
  obtain ⟨-, habort⟩ := expand_warns hparse store .standard
  refine ⟨t, hparse, hsettled, ?_, hpartial.trans hwarnings, ?_, (habort rfl).1⟩
  · rw [hevents]
    decide +kernel
  · decide +kernel

end Template

end UriExpansion
