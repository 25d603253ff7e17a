/-
UriExpansion/Proofs/Idempotence.lean

Partial expansion a second time.

Under one store, what partial expansion has left cannot be expanded any
further: an expression that was kept is kept again, and one that goes on
begins with a variable that has no value, so that it does not go on a second
time (`Expression.Leaves.settled`).  An expression from which nothing more can
be taken is `Settled`.  A template of which all expressions are settled is
written as it stands, literals and bodies alike, and reading gives it back with
all its positions; and there are no other fixed points
(`expandPartial_eq_self_iff`).

So a second run changes nothing, and neither does the first if no variable of
the template has a value (`expandPartial_idempotent`).
-/
import UriExpansion.Proofs.Remainder

namespace UriExpansion

variable {store : Store} {s : Settings}

/-! ### Settled expressions -/

namespace Expression

/-- The variables are resolved, and nothing can be taken from the expression:
some variable has no value, and no others stand in front of which the rest
could go on. -/
structure Settled (store : Store) (s : Settings) (e : Expression) : Prop where
  resolves : ∃ values, store.meanings s e.varspecs = .ok values
  unbound : e.Open store s
  stays : ∀ op n, ¬ e.ResumesAt store s op n

variable {e f : Expression}

/-- An expression goes on wherever it stands. -/
theorem ResumesAt.move {op : Operator} {n : Nat} (h : e.ResumesAt store s op n)
    (hop : f.operator = e.operator) (hspecs : f.varspecs = e.varspecs) :
    f.ResumesAt store s op n := by
  refine ⟨?_, h.pos, ?_, ?_, ?_⟩
  · rw [hop]
    exact h.resumed
  all_goals rw [hspecs]
  · exact h.lt
  · exact h.defined
  · exact h.undefined

/-- What begins with a variable that has no value does not go on. -/
theorem not_resumesAt_of_undefined (h : ∀ spec ∈ e.varspecs, ¬ store.Defines s spec.name)
    (op : Operator) (n : Nat) : ¬ e.ResumesAt store s op n := by
  intro hresumes
  obtain ⟨spec, hspec⟩ : ∃ spec, spec ∈ e.varspecs.take n := by
    apply List.exists_mem_of_length_pos
    rw [List.length_take]
    exact Nat.lt_min.mpr ⟨hresumes.pos, Nat.lt_of_le_of_lt (Nat.zero_le n) hresumes.lt⟩
  exact h spec (List.mem_of_mem_take hspec) (hresumes.defined spec hspec)

/-- **What partial expansion leaves is settled.** -/
theorem Leaves.settled (h : e.Leaves store s f) (hopen : e.Open store s)
    (hresolves : ∃ values, store.meanings s e.varspecs = .ok values) : f.Settled store s := by
  obtain ⟨values, hvalues⟩ := hresolves
  cases h with
  | kept hnot => exact ⟨⟨values, hvalues⟩, hopen, fun op n h => hnot op n (h.move rfl rfl)⟩
  | @resumed op n p hresumes =>
    -- the variables that go on have no values, and there is at least one of them
    have hlt : 0 < (e.varspecs.drop n).length := by
      rw [List.length_drop]
      exact Nat.sub_pos_of_lt hresumes.lt
    obtain ⟨spec, hspec⟩ := List.exists_mem_of_length_pos hlt
    exact ⟨⟨values.drop n, drop_of_mapM hvalues n⟩, ⟨spec, hspec, hresumes.undefined spec hspec⟩,
      not_resumesAt_of_undefined hresumes.undefined⟩

/-- If all variables of an expression are left, it has not gone on. -/
theorem Leaves.stays (h : e.Leaves store s f) (hspecs : f.varspecs = e.varspecs) (op : Operator)
    (n : Nat) : ¬ e.ResumesAt store s op n := by
  cases h with
  | kept hnot => exact hnot op n
  | @resumed op' n' p hresumes =>
    -- the variables in front would be missing
    have hlength : (e.varspecs.drop n').length = e.varspecs.length := congrArg List.length hspecs
    rw [List.length_drop] at hlength
    have hpos := hresumes.pos
    have hlt := hresumes.lt
    omega

/-- A settled expression is written as it stands. -/
theorem Settled.outcome_expandPartially (h : e.Settled store s) :
    ((Component.expression e).expandPartially store s).outcome = .ok e.toText := by
  obtain ⟨values, hvalues⟩ := h.resolves
  obtain ⟨pieces, hresidue, htext⟩ := exists_residue hvalues
  rw [Component.outcome_expandPartially, hvalues]
  show (e.renderPartially values).outcome = .ok e.toText
  rw [htext]
  cases hresidue with
  | expanded hdefined =>
    obtain ⟨spec, hspec, hnot⟩ := h.unbound
    exact absurd (hdefined spec hspec) hnot
  | kept _ _ => exact congrArg Except.ok (List.append_nil e.toText)
  | resumed hresumes => exact absurd hresumes (h.stays _ _)

end Expression

/-! ### Settled templates -/

namespace Template

variable {source : Text} {t p : Template}

/-- Partial expansion resolves all variables, whatever becomes of their
expressions. -/
theorem exists_meanings_of_expandPartial (h : t.expandPartial store s = .ok p) :
    ∀ e ∈ t.expressions, ∃ values, store.meanings s e.varspecs = .ok values := by
  intro e he
  obtain ⟨texts, htexts, -⟩ := expandPartial_eq_ok.mp h
  obtain ⟨text, -, htext⟩ :=
    exists_of_mem_left (mapM_eq_ok_iff.mp htexts) _ (mem_expressions.mp he)
  rw [Component.outcome_expandPartially] at htext
  obtain ⟨values, hvalues, -⟩ := bind_eq_ok.mp htext
  exact ⟨values, mapError_eq_ok.mp hvalues⟩

/-- What partial expansion has left is left of the open expressions, one by one. -/
theorem leaves_of_expandPartial (ht : parse source = .ok t)
    (h : t.expandPartial store s = .ok p) :
    List.Forall₂ (Expression.Leaves store s) (t.openExpressions store s) p.expressions := by
  have hresolve : ∀ e ∈ t.expressions, ∀ spec ∈ e.varspecs,
      ∃ value, (e.resolve store s spec).outcome = .ok value := by
    intro e he spec hspec
    obtain ⟨value, hvalue⟩ :=
      exists_mapM_eq_ok_iff.mp (exists_meanings_of_expandPartial h e he) spec hspec
    refine ⟨value, ?_⟩
    rw [e.outcome_resolve, mapError_eq_ok]
    exact hvalue
  obtain ⟨p', hp', hleaves⟩ := exists_expandPartial ht hresolve
  obtain rfl := Except.ok.inj (h.symm.trans hp')
  exact hleaves

/-- **Settled templates are the fixed points of partial expansion.** -/
theorem expandPartial_eq_self_iff (ht : parse source = .ok t) :
    t.expandPartial store s = .ok t ↔ ∀ e ∈ t.expressions, e.Settled store s := by
  constructor
  · intro h e he
    have hleaves := leaves_of_expandPartial ht h
    -- as many expressions are left as are open, so that all of them are open
    have hopen : ∀ e ∈ t.expressions, e.Open store s := by
      have hall := List.length_filter_eq_length_iff.mp hleaves.length_eq
      exact fun e he => of_decide_eq_true (hall e he)
    have hall : t.openExpressions store s = t.expressions :=
      List.filter_eq_self.mpr fun e he => decide_eq_true (hopen e he)
    rw [hall, List.forall₂_same] at hleaves
    exact ⟨exists_meanings_of_expandPartial h e he, hopen e he, (hleaves e he).stays rfl⟩
  · intro hsettled
    have htexts : (t.components.mapM fun c => (c.expandPartially store s).outcome)
        = .ok (t.components.map Component.toText) := by
      rw [mapM_eq_ok_iff, List.forall₂_map_right_iff, List.forall₂_same]
      intro c hc
      cases c with
      | literal text p => rfl
      | expression e => exact (hsettled e (mem_expressions.mpr hc)).outcome_expandPartially
    -- written one behind the other, the components are the source
    obtain ⟨hsource, hlaid⟩ := parse_laid ht
    refine expandPartial_eq_ok.mpr ⟨_, htexts, ?_⟩
    rw [← List.flatMap_def, ← Component.allText_map_token, hlaid.allText_eq]
    exact ht

/-- A template is settled under a store that has no value for any of its
variables. -/
theorem settled_of_not_defines (ht : parse source = .ok t)
    (hnames : ∀ name ∈ t.variableNames, ¬ store.Defines s name)
    (hresolves : ∀ e ∈ t.expressions, ∃ values, store.meanings s e.varspecs = .ok values) :
    ∀ e ∈ t.expressions, e.Settled store s := by
  intro e he
  have hnot : ∀ spec ∈ e.varspecs, ¬ store.Defines s spec.name := by
    intro spec hspec
    apply hnames
    exact mem_variableNames.mpr ⟨e, he, List.mem_map_of_mem hspec⟩
  -- an expression has at least one variable
  obtain ⟨-, hread⟩ := parse_sound ht _ (mem_expressions.mp he)
  obtain ⟨spec, hspec⟩ := List.exists_mem_of_ne_nil _ (Expression.readBody_sound hread).ne_nil
  exact ⟨hresolves e he, ⟨spec, hspec, hnot spec hspec⟩,
    Expression.not_resumesAt_of_undefined hnot⟩

/-- **Partial expansion is idempotent.**  Once more under the same store and
settings it changes nothing, neither the source nor any component or position.
If no variable of the template has a value, then the first run changes nothing
either; and it does succeed if all variables count as undefined, for instance
if none of them is bound. -/
theorem expandPartial_idempotent (ht : parse source = .ok t) (store : Store) (s : Settings) :
    (∀ p, t.expandPartial store s = .ok p → p.expandPartial store s = .ok p) ∧
    ((∀ name ∈ t.variableNames, ¬ store.Defines s name) →
      ∀ p, t.expandPartial store s = .ok p → p = t) ∧
    ((∀ name ∈ t.variableNames, store.meaning s name = .ok .undefined) →
      t.expandPartial store s = .ok t) ∧
    ((∀ name ∈ t.variableNames, store.get? name = none) → t.expandPartial store s = .ok t) := by
  have hundefined : (∀ name ∈ t.variableNames, store.meaning s name = .ok .undefined) →
      t.expandPartial store s = .ok t := by
    intro hnames
    refine (expandPartial_eq_self_iff ht).mpr (settled_of_not_defines ht ?_ ?_)
    · intro name hname
      rw [← Store.isDefined_iff_defines (hnames name hname)]
      exact Bool.false_ne_true
    · intro e he
      refine exists_mapM_eq_ok_iff.mpr fun spec hspec => ?_
      exact ⟨_, hnames spec.name (mem_variableNames.mpr ⟨e, he, List.mem_map_of_mem hspec⟩)⟩
  refine ⟨?twice, ?valueless, hundefined, ?free⟩
  case twice =>
    intro p hp
    obtain ⟨texts, -, hparse⟩ := expandPartial_eq_ok.mp hp
    rw [expandPartial_eq_self_iff hparse]
    intro f hf
    -- it was left of an open expression, all of whose variables were resolved
    obtain ⟨e, he, hleft⟩ := exists_of_mem_right (leaves_of_expandPartial ht hp) f hf
    obtain ⟨he, hopen⟩ := List.mem_filter.mp he
    exact hleft.settled (of_decide_eq_true hopen) (exists_meanings_of_expandPartial hp e he)
  case valueless =>
    intro hnames p hp
    have hresolves := exists_meanings_of_expandPartial hp
    have hself := (expandPartial_eq_self_iff ht).mpr (settled_of_not_defines ht hnames hresolves)
    exact Except.ok.inj (hp.symm.trans hself)
  case free =>
    intro hnames
    apply hundefined
    intro name hname
    rw [Store.meaning, hnames name hname]
    rfl

/-- A query has gone on, another expression was kept although it has a value,
and a value that cannot be resolved counts as undefined. -/
theorem expandPartial_idempotent_query :
    let s : Settings := ⟨none, .undefined⟩
    let store := Store.ofList [(lit "q", .str (lit "\x7by\x7d")),
      (lit "deep", .list [.list [.str (lit "a")]])]
    ∃ t p, parse (lit "/%\x7bx,q\x7d\x7b?q,deep,page*\x7d") = .ok t ∧
      t.expandPartial store s = .ok p ∧
      p.source = lit "/%\x7bx,q\x7d?q=%7By%7D\x7b&deep,page*\x7d" ∧
      p.components.map Component.position = [0, 2, 7, 17] ∧
      p.expandPartial store s = .ok p ∧ t.expandPartial .empty s = .ok t := by
  intro s store
  let t : Template := ⟨lit "/%\x7bx,q\x7d\x7b?q,deep,page*\x7d", [.literal (lit "/%") 0,
    .expression ⟨lit "x,q", .simple, [⟨lit "x", .none⟩, ⟨lit "q", .none⟩], 2⟩,
    .expression ⟨lit "?q,deep,page*", .query,
      [⟨lit "q", .none⟩, ⟨lit "deep", .none⟩, ⟨lit "page", .explode⟩], 7⟩]⟩
  let p : Template := ⟨lit "/%\x7bx,q\x7d?q=%7By%7D\x7b&deep,page*\x7d", [.literal (lit "/%") 0,
    .expression ⟨lit "x,q", .simple, [⟨lit "x", .none⟩, ⟨lit "q", .none⟩], 2⟩,
    .literal (lit "?q=%7By%7D") 7,
    .expression ⟨lit "&deep,page*", .continuation,
      [⟨lit "deep", .none⟩, ⟨lit "page", .explode⟩], 17⟩]⟩
  have hparse : parse (lit "/%\x7bx,q\x7d\x7b?q,deep,page*\x7d") = .ok t :=
    eq_ok_of_toOption (by decide +kernel)
  have hexpand : t.expandPartial store s = .ok p := eq_ok_of_toOption (by decide +kernel)
  obtain ⟨htwice, -, -, -⟩ := expandPartial_idempotent hparse store s
  obtain ⟨-, -, -, hfree⟩ := expandPartial_idempotent hparse .empty s
  exact ⟨t, p, hparse, hexpand, rfl, rfl, htwice p hexpand, hfree fun _ _ => rfl⟩

end Template

end UriExpansion
