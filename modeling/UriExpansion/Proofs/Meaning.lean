/-
UriExpansion/Proofs/Meaning.lean

What a template means under a store, apart from where its expressions stand.

`Template.expand` reports a value that does not resolve together with the
expression that needed it and that expression's offset.  Two templates with
different texts can therefore agree only up to the site of their errors.
`Component.meaningAll` leaves the site out: it is the expansion with a
`Refusal` in place of an error.  `Template.expand_located` says that an
expansion is the meaning with the site put back, so that templates with one
meaning expand to one text or fail for one reason.
-/
import UriExpansion.Proofs.Rendering
import UriExpansion.Proofs.Scanning

namespace UriExpansion

/-! ### Texts one after the other -/

section
variable {ε α : Type}

/-- What the first of several computations yields comes before what the others
yield. -/
theorem flatten_mapM_cons {β : Type} (f : α → Except ε (List β)) (a : α) (as : List α) :
    ((a :: as).mapM f).map List.flatten
      = (f a >>= fun b => ((as.mapM f).map List.flatten).map (b ++ ·)) := by
  rw [List.mapM_cons]
  rcases f a with e | b
  · rfl
  · rcases as.mapM f with e | bs <;> rfl

/-- The texts that a list of computations ends in, one after the other. -/
def joinM (f : α → Except ε Text) (as : List α) : Except ε Text :=
  (as.mapM f).map List.flatten

theorem joinM_nil (f : α → Except ε Text) : joinM f [] = .ok [] := rfl

theorem joinM_cons (f : α → Except ε Text) (a : α) (as : List α) :
    joinM f (a :: as) = (f a >>= fun t => (joinM f as).map (t ++ ·)) :=
  flatten_mapM_cons f a as

theorem joinM_singleton (f : α → Except ε Text) (a : α) : joinM f [a] = f a := by
  rw [joinM_cons, joinM_nil]
  rcases f a with e | t
  · rfl
  · exact congrArg Except.ok (List.append_nil t)

theorem joinM_append (f : α → Except ε Text) (as bs : List α) :
    joinM f (as ++ bs) = (joinM f as >>= fun t => (joinM f bs).map (t ++ ·)) := by
  induction as with
  | nil =>
    rw [List.nil_append, joinM_nil]
    rcases joinM f bs with e | t <;> rfl
  | cons a as ih =>
    rw [List.cons_append, joinM_cons, joinM_cons, ih]
    rcases f a with e | t
    · rfl
    · rcases joinM f as with e | u
      · rfl
      · rcases joinM f bs with e | v
        · rfl
        · exact congrArg Except.ok (List.append_assoc t u v).symm

end

/-! ### Refusals and where they are reported -/

/-- The second outcome is the first with a refusal reported from some
expression. -/
inductive Located {α : Type} : Except Refusal α → Except Failure α → Prop
  | ok (a : α) : Located (.ok a) (.ok a)
  | error (r : Refusal) (e : Expression) : Located (.error r) (.error (r.failure e))

namespace Located

variable {α β γ : Type}

theorem of_mapError (x : Except Refusal α) (e : Expression) :
    Located x (x.mapError (Refusal.failure e)) := by
  rcases x with r | a
  · exact .error r e
  · exact .ok a

theorem map {x : Except Refusal α} {y : Except Failure α} (h : Located x y) (g : α → β) :
    Located (x.map g) (y.map g) := by
  cases h with
  | ok a => exact .ok (g a)
  | error r e => exact .error r e

theorem mapM {f : γ → Except Refusal α} {g : γ → Except Failure α} {cs : List γ}
    (h : ∀ c ∈ cs, Located (f c) (g c)) : Located (cs.mapM f) (cs.mapM g) := by
  induction cs with
  | nil => exact .ok []
  | cons c cs ih =>
    obtain ⟨hc, hcs⟩ := List.forall_mem_cons.mp h
    rw [List.mapM_cons, List.mapM_cons]
    generalize f c = x at hc
    generalize g c = y at hc
    cases hc with
    | error r e => exact .error r e
    | ok a => exact (ih hcs).map (a :: ·)

theorem ok_iff {x : Except Refusal α} {y : Except Failure α} (h : Located x y) (a : α) :
    y = .ok a ↔ x = .ok a := by
  cases h with
  | ok b => exact ⟨fun h => by rw [Except.ok.inj h], fun h => by rw [Except.ok.inj h]⟩
  | error r e => constructor <;> exact fun h => nomatch h

/-- A value that does not resolve leads to errors that differ at most in where
they are reported from. -/
theorem resolution_error {x : Except Refusal α} {y z : Except Failure α} (hy : Located x y)
    (hz : Located x z) {e : ResolutionError} (h : y = .error (.resolution e)) :
    ∃ e', z = .error (.resolution e') ∧ e'.code = e.code ∧ e'.message = e.message := by
  cases hy with
  | ok a => cases h
  | error r site =>
    cases hz with
    | error _ site' =>
      cases r with
      | cause name c =>
        obtain rfl := Failure.resolution.inj (Except.error.inj h)
        exact ⟨_, rfl, rfl, rfl⟩
      | fault f => cases h

end Located

/-! ### Components and templates -/

/-- What an expression with this operator and these variables means. -/
def Store.expansion (store : Store) (s : Settings) (op : Operator) (specs : List VarSpec) :
    Except Refusal Text :=
  (store.meanings s specs).map (op.rendered specs)

namespace Component

/-- What a component means. -/
def meaning (store : Store) (s : Settings) : Component → Except Refusal Text
  | literal text _ => .ok (Percent.encoded .reserved text)
  | expression e => store.expansion s e.operator e.varspecs

/-- What components mean one after the other. -/
def meaningAll (store : Store) (s : Settings) (cs : List Component) : Except Refusal Text :=
  joinM (meaning store s) cs

theorem meaningAll_cons (store : Store) (s : Settings) (c : Component) (cs : List Component) :
    meaningAll store s (c :: cs)
      = (c.meaning store s >>= fun t => (meaningAll store s cs).map (t ++ ·)) :=
  joinM_cons (meaning store s) c cs

end Component

theorem Expression.outcome_expand (e : Expression) (store : Store) (s : Settings) :
    (e.expand store s).outcome
      = (store.expansion s e.operator e.varspecs).mapError (Refusal.failure e) := by
  rw [expand, Traced.outcome_bind, outcome_forEach_resolve, Store.expansion]
  rcases hv : store.meanings s e.varspecs with r | values
  · rfl
  · exact e.outcome_render (Store.meanings_sound hv)

/-- A literal of a template is encoded without fail. -/
theorem Component.outcome_expand_literal {text : Text} {p : Nat} (h : (literal text p).Sound)
    (store : Store) (s : Settings) :
    ((literal text p).expand store s).outcome = .ok (Percent.encoded .reserved text) := by
  rw [expand, Percent.encodeLiteral, Percent.encode_eq_ok .reserved h.2]
  rfl

theorem Component.located_expand (store : Store) (s : Settings) {c : Component} (h : c.Sound) :
    Located (c.meaning store s) (c.expand store s).outcome := by
  cases c with
  | literal text p =>
    rw [outcome_expand_literal h]
    exact .ok _
  | expression e =>
    rw [expand, e.outcome_expand]
    exact .of_mapError _ e

namespace Template

/-- **An expansion is the meaning of the components**, its errors with their
site. -/
theorem expand_located {t : Template} (h : ∀ c ∈ t.components, c.Sound) (store : Store)
    (s : Settings) : Located (Component.meaningAll store s t.components) (t.expand store s) := by
  have hparts := Located.mapM fun c hc => Component.located_expand store s (h c hc)
  rw [expand, expandTraced, Traced.outcome_bind, Traced.outcome_forEach]
  exact hparts.map List.flatten

/-- Templates with one meaning expand to one text, or fail with one code and
one message. -/
theorem expand_agree {t u : Template} (ht : ∀ c ∈ t.components, c.Sound)
    (hu : ∀ c ∈ u.components, c.Sound) {store : Store} {s : Settings}
    (h : Component.meaningAll store s t.components = Component.meaningAll store s u.components) :
    (∀ out, t.expand store s = .ok out ↔ u.expand store s = .ok out) ∧
      ∀ e, t.expand store s = .error (.resolution e) →
        ∃ e', u.expand store s = .error (.resolution e') ∧ e'.code = e.code ∧
          e'.message = e.message := by
  have hlt := expand_located ht store s
  have hlu := expand_located hu store s
  rw [← h] at hlu
  refine ⟨fun out => ?_, fun e he => hlt.resolution_error hlu he⟩
  rw [hlt.ok_iff, hlu.ok_iff]

/-! ### What tokens mean -/

section
variable (store : Store) (s : Settings)

/-- What the components of tokens mean one after the other. -/
def meaningOf (tokens : List Token) : Except Refusal Text :=
  Component.meaningAll store s (componentsOf tokens)

theorem meaningOf_cons_literal (text : Text) (p : Nat) (tokens : List Token) :
    meaningOf store s (.literal text p :: tokens)
      = (meaningOf store s tokens).map (Percent.encoded .reserved text ++ ·) :=
  Component.meaningAll_cons store s (.literal text p) (componentsOf tokens)

theorem meaningOf_cons_expression (body : Text) (p : Nat) (tokens : List Token) :
    meaningOf store s (.expression body p :: tokens) = match Expression.readBody body with
      | .ok (op, specs) =>
        store.expansion s op specs >>= fun t => (meaningOf store s tokens).map (t ++ ·)
      | .error _ => meaningOf store s tokens := by
  rw [meaningOf, componentsOf, List.filterMap_cons, Component.ofToken, Expression.read]
  rcases Expression.readBody body with fault | ⟨op, specs⟩
  · rfl
  · exact Component.meaningAll_cons store s (.expression ⟨body, op, specs, p⟩) _

end

/-! ### Occurrences of variables -/

theorem mem_expressions {t : Template} {e : Expression} :
    e ∈ t.expressions ↔ .expression e ∈ t.components := by
  refine List.mem_filterMap.trans ⟨?_, fun h => ⟨_, h, rfl⟩⟩
  rintro ⟨c, hc, hsome⟩
  cases c with
  | literal text p => cases hsome
  | expression e' =>
    obtain rfl := Option.some.inj hsome
    exact hc

theorem mem_distinct {name : Text} {names : List Text} : name ∈ distinct names ↔ name ∈ names := by
  induction names with
  | nil => exact Iff.rfl
  | cons other names ih =>
    rw [distinct, List.mem_cons, List.mem_cons, List.mem_filter, ih, decide_eq_true_eq]
    constructor
    · exact fun h => h.imp_right And.left
    · intro h
      by_cases heq : name = other
      · exact .inl heq
      · exact .inr ⟨h.resolve_left heq, heq⟩

theorem mem_variableNames {t : Template} {name : Text} :
    name ∈ t.variableNames ↔ ∃ e ∈ t.expressions, name ∈ e.names :=
  mem_distinct.trans List.mem_flatMap

/-- The variables of a template as they occur in it, each with its expression. -/
def occurrences (t : Template) : List (Expression × VarSpec) :=
  t.expressions.flatMap fun e => e.varspecs.map fun spec => (e, spec)

theorem mem_occurrences {t : Template} {x : Expression × VarSpec} :
    x ∈ t.occurrences ↔ .expression x.1 ∈ t.components ∧ x.2 ∈ x.1.varspecs := by
  obtain ⟨e, spec⟩ := x
  rw [← mem_expressions, occurrences, List.mem_flatMap]
  constructor
  · rintro ⟨e', he, hx⟩
    obtain ⟨spec', hspec, heq⟩ := List.mem_map.mp hx
    obtain ⟨rfl, rfl⟩ := Prod.mk.inj heq
    exact ⟨he, hspec⟩
  · rintro ⟨he, hspec⟩
    exact ⟨e, he, List.mem_map.mpr ⟨spec, hspec, rfl⟩⟩

/-- An expansion depends on what the variables of the template mean and on
nothing else. -/
theorem expand_congr {t : Template} {store store' : Store} {s s' : Settings}
    (h : ∀ x ∈ t.occurrences, store.meaning s x.2.name = store'.meaning s' x.2.name) :
    t.expand store s = t.expand store' s' := by
  have hparts : t.components.mapM (fun c => (Component.expand store s c).outcome)
      = t.components.mapM fun c => (Component.expand store' s' c).outcome := by
    refine mapM_congr_left fun c hc => ?_
    cases c with
    | literal text p => rfl
    | expression e =>
      have hmeanings : store.meanings s e.varspecs = store'.meanings s' e.varspecs :=
        mapM_congr_left fun spec hspec => h (e, spec) (mem_occurrences.mpr ⟨hc, hspec⟩)
      rw [Component.expand, Component.expand, e.outcome_expand, e.outcome_expand,
        Store.expansion, Store.expansion, hmeanings]
  rw [expand, expand, expandTraced, expandTraced, Traced.outcome_bind, Traced.outcome_bind,
    Traced.outcome_forEach, Traced.outcome_forEach, hparts]

/-- **An expansion fails at the first occurrence that has no meaning.** -/
theorem error?_expand {t : Template} (h : ∀ c ∈ t.components, c.Sound) (store : Store)
    (s : Settings) : error? (t.expand store s) = t.occurrences.findSome? fun x =>
      (error? (store.meaning s x.2.name)).map (Refusal.failure x.1) := by
  rw [expand, expandTraced, Traced.outcome_bind, Traced.outcome_forEach]
  show error? ((t.components.mapM fun c => (Component.expand store s c).outcome).map _) = _
  rw [error?_map, error?_mapM, occurrences, expressions]
  generalize t.components = components at h ⊢
  induction components with
  | nil => rfl
  | cons c cs ih =>
    obtain ⟨hc, hcs⟩ := List.forall_mem_cons.mp h
    cases c with
    | literal text p =>
      rw [List.findSome?_cons, Component.outcome_expand_literal hc, error?, ih hcs]
      rfl
    | expression e =>
      have hexpression : error? (Component.expand store s (.expression e)).outcome
          = e.varspecs.findSome? fun spec =>
            (error? (store.meaning s spec.name)).map (Refusal.failure e) := by
        rw [Component.expand, e.outcome_expand, error?_mapError, Store.expansion, error?_map,
          Store.meanings, error?_mapM, List.map_findSome?]
        rfl
      have hcons : (Component.expression e :: cs).filterMap Component.expression?
          = e :: cs.filterMap Component.expression? := List.filterMap_cons_some rfl
      rw [hcons, List.flatMap_cons, List.findSome?_append, ← ih hcs, List.findSome?_map,
        List.findSome?_cons, hexpression, Function.comp_def]
      cases e.varspecs.findSome? fun spec =>
        (error? (store.meaning s spec.name)).map (Refusal.failure e) <;> rfl

/-- An error of an expansion is that of one of its occurrences. -/
theorem exists_of_expand_eq_error {t : Template} (h : ∀ c ∈ t.components, c.Sound) {store : Store}
    {s : Settings} {failure : Failure} (hfails : t.expand store s = .error failure) :
    ∃ x ∈ t.occurrences, ∃ r, store.meaning s x.2.name = .error r ∧ r.failure x.1 = failure := by
  rw [← error?_eq_some, error?_expand h] at hfails
  obtain ⟨x, hx, hfailure⟩ := List.exists_of_findSome?_eq_some hfails
  obtain ⟨r, hr, hfailure⟩ := Option.map_eq_some_iff.mp hfailure
  exact ⟨x, hx, r, error?_eq_some.mp hr, hfailure⟩

/-! ### Templates without expressions -/

/-- **Brace-free text is a template without expressions**, which expands to
its encoded form under every store. -/
theorem exists_parse_plain {text : Text} (hfree : Text.BraceFree text)
    (henc : Text.Encodable text) :
    ∃ p, parse text = .ok p ∧ p.expressions = [] ∧
      ∀ store s, p.expand store s = .ok (Percent.encoded .reserved text) := by
  have hsound : ∀ piece ∈ [Piece.run text], piece.Sound :=
    List.forall_mem_singleton.mpr ⟨hfree, henc⟩
  have hparse := parse_pieces hsound
  have htext : Piece.allText [.run text] = text := List.append_nil text
  rw [htext] at hparse
  refine ⟨_, hparse, ?_, fun store s => ?_⟩
  · rw [expressions, Token.ofPieces, Token.assemble_run, Token.withLiteral]
    split <;> rfl
  · have hlocated := expand_located (parse_sound hparse) store s
    refine (hlocated.ok_iff _).mpr ?_
    dsimp only
    rw [Token.ofPieces, Token.assemble_run, Token.assemble, List.append_nil, Token.withLiteral]
    rcases text with - | ⟨c, rest⟩
    · rfl
    · exact congrArg Except.ok (List.append_nil _)

end Template

end UriExpansion
