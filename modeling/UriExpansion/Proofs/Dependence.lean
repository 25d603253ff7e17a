/-
UriExpansion/Proofs/Dependence.lean

The names on which an expansion depends.

`Template.variableNames` lists the names of a template's variables, each once
and in order of first occurrence (`pairwise_distinct`).  An expansion, full or
partial, looks up these names and no others: stores that agree on them lead to
the same reports and to the same text, template or error
(`expandTraced_congr`, `expandPartialTraced_congr`).  None of the names is looked
up in vain.  A variable with a value leaves at least one character behind,
whatever its operator and its modifier are, and where nothing is bound
expressions leave none, so that binding one name makes the text longer
(`length_meaningAll_lt`).
-/
import UriExpansion.Proofs.Residue

namespace UriExpansion

/-! ### The order of the names -/

namespace Template

/-- The names come in the order of their first occurrences. -/
theorem pairwise_distinct (names : List Text) :
    (distinct names).Pairwise fun a b => names.idxOf a < names.idxOf b := by
  induction names with
  | nil => exact .nil
  | cons name names ih =>
    rw [distinct]
    have hne : ∀ other ∈ (distinct names).filter (· ≠ name), name ≠ other := by
      rintro other hother rfl
      exact absurd rfl (of_decide_eq_true (List.mem_filter.mp hother).2)
    refine .cons (fun other hother => ?_) ?_
    · rw [List.idxOf_cons_self, List.idxOf_cons_ne names (hne other hother)]
      exact Nat.succ_pos _
    · -- the names behind the first are all one place further on
      refine (ih.filter _).imp_of_mem fun {a b} ha hb hlt => ?_
      rw [List.idxOf_cons_ne names (hne a ha), List.idxOf_cons_ne names (hne b hb)]
      exact Nat.succ_lt_succ hlt

theorem hasVariable_iff {t : Template} {name : Text} :
    t.hasVariable name = true ↔ name ∈ t.variableNames := by
  rw [hasVariable, List.any_eq_true, mem_variableNames]
  exact exists_congr fun e => and_congr_right fun _ => List.contains_iff_mem

theorem mem_variableNames_of_mem {t : Template} {e : Expression} {spec : VarSpec}
    (he : .expression e ∈ t.components) (hspec : spec ∈ e.varspecs) :
    spec.name ∈ t.variableNames :=
  mem_variableNames.mpr ⟨e, mem_expressions.mpr he, List.mem_map_of_mem hspec⟩

end Template

/-! ### Stores that agree -/

namespace Store

/-- The value that an expansion finds for a name; a name that is not bound
counts as bound to nothing. -/
def lookup (store : Store) (name : Text) : Value := (store.get? name).getD .none

/-- Both stores give the same values to the names. -/
def Agree (a b : Store) (names : List Text) : Prop := ∀ name ∈ names, a.lookup name = b.lookup name

/-- What the stores give to the names resolves alike. -/
def Alike (a b : Store) (s : Settings) (names : List Text) : Prop :=
  ∀ name ∈ names, (a.lookup name).resolve s = (b.lookup name).resolve s

theorem Agree.alike {a b : Store} {names : List Text} (h : a.Agree b names) (s : Settings) :
    a.Alike b s names := fun name hname => congrArg (Value.resolve s) (h name hname)

end Store

section
variable {a b : Store} {s : Settings}

theorem Expression.resolve_congr (e : Expression) {spec : VarSpec}
    (h : (a.lookup spec.name).resolve s = (b.lookup spec.name).resolve s) :
    e.resolve a s spec = e.resolve b s spec := by
  have hvalue : ((a.get? spec.name).getD .none).resolve s
      = ((b.get? spec.name).getD .none).resolve s := h
  rw [resolve, resolve, hvalue]

theorem Expression.forEach_resolve_congr (e : Expression)
    (h : ∀ spec ∈ e.varspecs, (a.lookup spec.name).resolve s = (b.lookup spec.name).resolve s) :
    Traced.forEach (e.resolve a s) e.varspecs = Traced.forEach (e.resolve b s) e.varspecs :=
  Traced.forEach_congr fun spec hspec => e.resolve_congr (h spec hspec)

namespace Template

variable {t : Template}

/-- An expansion resolves the variables of the template only. -/
theorem expandTraced_of_alike (h : a.Alike b s t.variableNames) :
    t.expandTraced a s = t.expandTraced b s := by
  have hparts : Traced.forEach (Component.expand a s) t.components
      = Traced.forEach (Component.expand b s) t.components := by
    refine Traced.forEach_congr fun c hc => ?_
    cases c with
    | literal text p => rfl
    | expression e =>
      rw [Component.expand, Component.expand, Expression.expand, Expression.expand,
        e.forEach_resolve_congr fun spec hspec => h _ (mem_variableNames_of_mem hc hspec)]
  rw [expandTraced, expandTraced, hparts]

/-- Partial expansion resolves the variables of the template only. -/
theorem expandPartialTraced_of_alike (h : a.Alike b s t.variableNames) :
    t.expandPartialTraced a s = t.expandPartialTraced b s := by
  have hparts : Traced.forEach (Component.expandPartially a s) t.components
      = Traced.forEach (Component.expandPartially b s) t.components := by
    refine Traced.forEach_congr fun c hc => ?_
    cases c with
    | literal text p => rfl
    | expression e =>
      rw [Component.expandPartially, Component.expandPartially,
        e.forEach_resolve_congr fun spec hspec => h _ (mem_variableNames_of_mem hc hspec)]
  rw [expandPartialTraced, expandPartialTraced, hparts]

/-- An expansion looks up the variables of the template only. -/
theorem expandTraced_congr (h : a.Agree b t.variableNames) (s : Settings) :
    t.expandTraced a s = t.expandTraced b s :=
  expandTraced_of_alike (h.alike s)

/-- Partial expansion looks up the variables of the template only. -/
theorem expandPartialTraced_congr (h : a.Agree b t.variableNames) (s : Settings) :
    t.expandPartialTraced a s = t.expandPartialTraced b s :=
  expandPartialTraced_of_alike (h.alike s)

end Template

end

/-! ### One name bound -/

namespace Store

/-- The store that binds one name to a letter. -/
def single (name : Text) : Store := Store.empty.set name (.str (lit "x"))

theorem get?_single (name other : Text) :
    (single name).get? other = if name = other then some (.str (lit "x")) else none :=
  Entries.get?_set [] name other _

theorem meaning_empty (s : Settings) (name : Text) :
    Store.empty.meaning s name = .ok .undefined := rfl

theorem meaning_single (s : Settings) (name other : Text) : (single name).meaning s other
    = .ok (if name = other then .scalar (lit "x") else .undefined) := by
  rw [meaning, get?_single]
  by_cases h : name = other
  · rw [if_pos h, if_pos h]
    rfl
  · rw [if_neg h, if_neg h]
    rfl

/-- What an expression means where every name has a meaning. -/
theorem expansion_eq_ok {store : Store} {s : Settings} {value : Text → Resolved}
    (h : ∀ name, store.meaning s name = .ok (value name)) (op : Operator) (specs : List VarSpec) :
    store.expansion s op specs
      = .ok (op.join (specs.flatMap fun spec => spec.written op (value spec.name))) := by
  have hvalues : store.meanings s specs = .ok (specs.map fun spec => value spec.name) :=
    mapM_eq_ok_iff.mpr (List.forall₂_map_right_iff.mpr
      (List.forall₂_same.mpr fun spec _ => h spec.name))
  rw [expansion, hvalues]
  show Except.ok (op.join ((specs.zip (specs.map _)).flatMap _)) = _
  rw [← List.map_prod_left_eq_zip, List.flatMap_map]

/-- Nothing is left of expressions where nothing is bound. -/
theorem expansion_empty (s : Settings) (op : Operator) (specs : List VarSpec) :
    Store.empty.expansion s op specs = .ok [] := by
  have hnone : (specs.flatMap fun spec => spec.written op .undefined) = [] :=
    List.flatMap_eq_nil_iff.mpr fun _ _ => rfl
  rw [expansion_eq_ok (meaning_empty s), hnone]
  rfl

end Store

namespace Operator

theorem unit_ne_nil (op : Operator) (key : Text) {encoded : Text} (h : encoded ≠ []) :
    op.unit key encoded ≠ [] := by
  rw [unit]
  split
  · rw [if_neg (mt List.isEmpty_iff.mp h)]
    exact List.append_ne_nil_of_right_ne_nil _ h
  · exact h

/-- Units are joined to a text unless all of them are empty. -/
theorem join_ne_nil (op : Operator) {units : List Text} {u : Text} (hu : u ∈ units)
    (hne : u ≠ []) : op.join units ≠ [] := by
  have hjoined : List.intercalate [op.separator] units ≠ [] := by
    induction units with
    | nil => cases hu
    | cons v vs ih =>
      rcases vs with - | ⟨v', vs⟩
      · obtain rfl := List.mem_singleton.mp hu
        rwa [List.intercalate_singleton]
      · rw [List.intercalate_cons_cons]
        rcases List.mem_cons.mp hu with rfl | hu
        · exact List.append_ne_nil_of_left_ne_nil (List.append_ne_nil_of_left_ne_nil hne _) _
        · exact List.append_ne_nil_of_right_ne_nil _ (ih hu)
  rw [join, if_neg (mt List.isEmpty_iff.mp (List.ne_nil_of_mem hu))]
  exact List.append_ne_nil_of_right_ne_nil _ hjoined

end Operator

/-- A variable with a letter for its value is seen, whatever its modifier. -/
theorem VarSpec.exists_written_ne_nil (op : Operator) {spec : VarSpec} (h : spec.WellFormed) :
    ∃ u ∈ spec.written op (.scalar (lit "x")), u ≠ [] := by
  have hkeep : spec.modifier.keep (lit "x") = lit "x" := by
    rcases hm : spec.modifier with - | n | -
    · rfl
    -- a length is at least one, so that the letter is kept
    · exact List.take_of_length_le (h.length n hm).1
    · rfl
  have hencoded : op.encoded (lit "x") ≠ [] := by
    rw [Operator.encoded]
    cases op.profile <;> decide
  refine ⟨_, List.mem_singleton_self _, op.unit_ne_nil spec.name ?_⟩
  rwa [hkeep]

/-- An expression with the variable leaves a text. -/
theorem Store.exists_expansion_single {specs : List VarSpec}
    (h : ∀ spec ∈ specs, spec.WellFormed) (s : Settings) (op : Operator) (name : Text) :
    ∃ w, (Store.single name).expansion s op specs = .ok w ∧
      (name ∈ specs.map VarSpec.name → w ≠ []) := by
  refine ⟨_, expansion_eq_ok (meaning_single s name) op specs, fun hname => ?_⟩
  obtain ⟨spec, hspec, rfl⟩ := List.mem_map.mp hname
  obtain ⟨u, hu, hne⟩ := VarSpec.exists_written_ne_nil op (h spec hspec)
  refine op.join_ne_nil (List.mem_flatMap.mpr ⟨spec, hspec, ?_⟩) hne
  rwa [if_pos rfl]

namespace Component

/-- The name is that of a variable of the component. -/
def Mentions (name : Text) (c : Component) : Prop := ∃ e, c = .expression e ∧ name ∈ e.names

/-- A component is as long as before if a name is bound, and longer if it has a
variable of that name. -/
theorem length_meaning_lt {c : Component} (hc : c.Sound) (s : Settings) (name : Text) :
    ∃ u w, c.meaning .empty s = .ok u ∧ c.meaning (.single name) s = .ok w ∧
      u.length ≤ w.length ∧ (c.Mentions name → u.length < w.length) := by
  cases c with
  | literal text p =>
    refine ⟨_, _, rfl, rfl, Nat.le_refl _, ?_⟩
    rintro ⟨e, he, -⟩
    cases he
  | expression e =>
    -- the empty store leaves nothing, so that any text at all makes it longer
    obtain ⟨-, hread⟩ := hc
    have heach := (Expression.readBody_sound hread).each
    obtain ⟨w, hw, hne⟩ := Store.exists_expansion_single heach s e.operator name
    refine ⟨[], w, Store.expansion_empty s e.operator e.varspecs, hw, Nat.zero_le _, ?_⟩
    rintro ⟨e', he, hname⟩
    obtain rfl := Component.expression.inj he
    exact List.length_pos_of_ne_nil (hne hname)

/-- **Binding a name makes an expansion longer**, if the name occurs. -/
theorem length_meaningAll_lt {cs : List Component} (hcs : ∀ c ∈ cs, c.Sound) (s : Settings)
    (name : Text) : ∃ u w, meaningAll .empty s cs = .ok u ∧ meaningAll (.single name) s cs = .ok w ∧
      u.length ≤ w.length ∧ ((∃ c ∈ cs, c.Mentions name) → u.length < w.length) := by
  induction cs with
  | nil =>
    refine ⟨[], [], rfl, rfl, Nat.le_refl _, ?_⟩
    rintro ⟨c, hc, -⟩
    cases hc
  | cons c cs ih =>
    obtain ⟨hc, hcs⟩ := List.forall_mem_cons.mp hcs
    obtain ⟨u, w, hu, hw, hle, hlt⟩ := length_meaning_lt hc s name
    obtain ⟨us, ws, hus, hws, hles, hlts⟩ := ih hcs
    refine ⟨u ++ us, w ++ ws, ?_, ?_, ?_, ?_⟩
    · rw [meaningAll_cons, hu, hus]
      rfl
    · rw [meaningAll_cons, hw, hws]
      rfl
    · rw [List.length_append, List.length_append]
      exact Nat.add_le_add hle hles
    · rw [List.length_append, List.length_append]
      rintro ⟨d, hd, hmentions⟩
      rcases List.mem_cons.mp hd with rfl | hd
      · exact Nat.add_lt_add_of_lt_of_le (hlt hmentions) hles
      · exact Nat.add_lt_add_of_le_of_lt hle (hlts ⟨d, hd, hmentions⟩)

end Component

/-! ### The names of a template -/

namespace Template

/-- For every variable there are two stores that differ only in it and whose
expansions differ. -/
theorem exists_expand_ne {t : Template} (ht : ∀ c ∈ t.components, c.Sound) {name : Text}
    (hname : name ∈ t.variableNames) (s : Settings) :
    ∃ (a b : Store) (out out' : Text), (∀ other, other ≠ name → a.get? other = b.get? other) ∧
      t.expand a s = .ok out ∧ t.expand b s = .ok out' ∧ out ≠ out' := by
  obtain ⟨u, w, hu, hw, -, hlt⟩ := Component.length_meaningAll_lt ht s name
  refine ⟨.empty, .single name, u, w, fun other hother => ?_, ?_, ?_, ?_⟩
  · rw [Store.get?_single, if_neg hother.symm]
    rfl
  · exact ((expand_located ht _ s).ok_iff u).mpr hu
  · exact ((expand_located ht _ s).ok_iff w).mpr hw
  -- texts of different lengths are not equal
  · rintro rfl
    obtain ⟨e, he, hname⟩ := mem_variableNames.mp hname
    exact Nat.lt_irrefl _ (hlt ⟨_, mem_expressions.mp he, e, rfl, hname⟩)

/-- **The variables of a template are exactly the names on which its expansion
depends.**  They are listed once each, in order of first occurrence.  Stores
that agree on them lead to one expansion and to one partial expansion, reports
and errors included; and each of them decides an expansion under all settings. -/
theorem variableNames_exact {source : Text} {t : Template} (ht : parse source = .ok t) :
    t.variableNames.Nodup ∧
      (∀ name, name ∈ t.variableNames ↔ ∃ x ∈ t.occurrences, x.2.name = name) ∧
      (t.variableNames.Pairwise fun a b =>
        (t.occurrences.map fun x => x.2.name).idxOf a
          < (t.occurrences.map fun x => x.2.name).idxOf b) ∧
      (∀ name, t.hasVariable name = true ↔ name ∈ t.variableNames) ∧
      (∀ a b : Store, a.Agree b t.variableNames → ∀ s,
        t.expandTraced a s = t.expandTraced b s ∧ t.expand a s = t.expand b s ∧
        t.expandPartialTraced a s = t.expandPartialTraced b s ∧
        t.expandPartial a s = t.expandPartial b s) ∧
      ∀ name ∈ t.variableNames, ∀ s, ∃ (a b : Store) (out out' : Text),
        (∀ other, other ≠ name → a.get? other = b.get? other) ∧
        t.expand a s = .ok out ∧ t.expand b s = .ok out' ∧ out ≠ out' := by
  have hnames : t.variableNames = distinct (t.occurrences.map fun x => x.2.name) := by
    rw [variableNames, occurrences, List.map_flatMap]
    simp only [List.map_map]
    rfl
  have horder := pairwise_distinct (t.occurrences.map fun x => x.2.name)
  rw [← hnames] at horder
  refine ⟨?nodup, fun name => ?occurrence, horder, fun name => hasVariable_iff,
    fun a b h s => ?dependence, fun name hname s => exists_expand_ne (parse_sound ht) hname s⟩
  case nodup =>
    refine horder.imp fun {a b} hlt => ?_
    rintro rfl
    exact Nat.lt_irrefl _ hlt
  case occurrence =>
    rw [hnames, mem_distinct, List.mem_map]
  case dependence =>
    have hfull := expandTraced_congr h s
    have hpartial := expandPartialTraced_congr h s
    exact ⟨hfull, congrArg Traced.outcome hfull, hpartial, congrArg Traced.outcome hpartial⟩

/-- A name that occurs twice is listed once; what other names are bound to, and
that one of these is bound to nothing, leaves no trace. -/
theorem variableNames_exact_repeated :
    let a := Store.ofList [(lit "q", .str (lit "1")), (lit "other", .bool true)]
    let b := Store.ofList [(lit "page", .none), (lit "q", .str (lit "1"))]
    let c := Store.ofList [(lit "page", .str (lit "2017")), (lit "q", .str (lit "1"))]
    ∃ t, parse (lit "\x7b?q*,page:3\x7dx\x7bq\x7d") = .ok t ∧
      t.variableNames = [lit "q", lit "page"] ∧ t.variableNames.Nodup ∧
      t.hasVariable (lit "other") = false ∧ a.Agree b t.variableNames ∧
      t.expand a .standard = .ok (lit "?q=1x1") ∧ t.expand b .standard = .ok (lit "?q=1x1") ∧
      t.expandPartial a .standard = t.expandPartial b .standard ∧
      t.expand c .standard = .ok (lit "?q=1&page=201x1") := by
  intro a b c
  let t : Template := ⟨lit "\x7b?q*,page:3\x7dx\x7bq\x7d", [
    .expression ⟨lit "?q*,page:3", .query, [⟨lit "q", .explode⟩, ⟨lit "page", .upTo 3⟩], 0⟩,
    .literal (lit "x") 12, .expression ⟨lit "q", .simple, [⟨lit "q", .none⟩], 13⟩]⟩
  have hparse : parse (lit "\x7b?q*,page:3\x7dx\x7bq\x7d") = .ok t :=
    eq_ok_of_toOption (by decide +kernel)
  have hexpand : t.expand a .standard = .ok (lit "?q=1x1") := eq_ok_of_toOption (by decide +kernel)
  have hexpand' : t.expand c .standard = .ok (lit "?q=1&page=201x1") :=
    eq_ok_of_toOption (by decide +kernel)
  have hnames : t.variableNames = [lit "q", lit "page"] := by decide
  have hagree : a.Agree b t.variableNames := by
    rw [hnames]
    exact List.forall_mem_cons.mpr ⟨rfl, List.forall_mem_singleton.mpr rfl⟩
  obtain ⟨hnodup, -, -, -, hdependence, -⟩ := variableNames_exact hparse
  obtain ⟨-, hfull, -, hpartial⟩ := hdependence a b hagree .standard
  exact ⟨t, hparse, hnames, hnodup, by decide, hagree, hexpand, hfull.symm.trans hexpand,
    hpartial, hexpand'⟩

end Template

end UriExpansion
