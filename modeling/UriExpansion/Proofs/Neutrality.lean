/-
UriExpansion/Proofs/Neutrality.lean

Names that are bound to nothing.

A name may be left out of a store or bound to a value that there is nothing in
(`Value.Vacant`): both resolve to the same, so that neither kind of expansion can
tell them apart.  Nor does an expansion show where such a name stood.  A variable
without a value has no units, and what a list of computations yields is not
changed where those are left out that yield nothing (`flatten_mapM_filterMap`);
this holds of the units of an expression as it does of the parts of a template.
So the variables of that name can be taken out of the expressions, and the
expressions that have lost all of theirs out of the template
(`Template.expand_neutral`).
-/
import UriExpansion.Proofs.Classification
import UriExpansion.Proofs.Dependence
import UriExpansion.Proofs.Entries

namespace UriExpansion

/-- Computations that yield nothing can be left out. -/
theorem flatten_mapM_filterMap {ε α γ β : Type} {f : α → Except ε (List β)}
    {g : γ → Except ε (List β)} {pick : α → Option γ} {as : List α}
    (h : ∀ a ∈ as, f a = ((pick a).map g).getD (.ok [])) :
    (as.mapM f).map List.flatten = ((as.filterMap pick).mapM g).map List.flatten := by
  induction as with
  | nil => rfl
  | cons a as ih =>
    obtain ⟨ha, has⟩ := List.forall_mem_cons.mp h
    rw [flatten_mapM_cons, ha, ih has, List.filterMap_cons]
    cases pick a with
    | none => rcases ((as.filterMap pick).mapM g).map List.flatten with e | bs <;> rfl
    | some c => exact (flatten_mapM_cons g c _).symm

/-! ### Leaving a name out -/

/-- The store without a name. -/
def Store.without (store : Store) (name : Text) : Store :=
  ⟨Entries.erase store.entries name, store.nodup.sublist (List.filter_sublist.map Prod.fst)⟩

theorem Store.get?_without (store : Store) (name other : Text) :
    (store.without name).get? other = if name = other then none else store.get? other :=
  Entries.get?_erase store.entries name other

/-- The expression without the variables of a name; its text is left alone. -/
def Expression.without (e : Expression) (name : Text) : Expression :=
  { e with varspecs := e.varspecs.filter fun spec => spec.name ≠ name }

/-- The component without the variables of a name, unless it is an expression
that has no others. -/
def Component.without (name : Text) : Component → Option Component
  | literal text p => some (literal text p)
  | expression e =>
    if (e.without name).varspecs.isEmpty then none else some (expression (e.without name))

/-- The template with what is left of its components; its source is left alone. -/
def Template.without (t : Template) (name : Text) : Template :=
  { t with components := t.components.filterMap (Component.without name) }

/-! ### Names without a value -/

namespace Store

/-- The value that is found for the name has nothing in it. -/
def Lacks (store : Store) (name : Text) : Prop := (store.lookup name).Vacant

variable {store : Store} {name : Text}

theorem lacks_without (store : Store) (name : Text) : (store.without name).Lacks name := by
  rw [Lacks, lookup, get?_without, if_pos rfl]
  exact .none

theorem lacks_set (store : Store) (name : Text) {w : Value} (hw : w.Vacant) :
    (store.set name w).Lacks name := by
  rw [Lacks, lookup, get?, set, Entries.get?_set, if_pos rfl]
  exact hw

theorem Lacks.meaning (h : store.Lacks name) (s : Settings) :
    store.meaning s name = .ok .undefined := by
  have hresolve : ((store.get? name).getD .none).resolve s = .ok .undefined :=
    Value.Vacant.resolve h s
  rw [Store.meaning, hresolve]

/-- The units of a variable. -/
def units (store : Store) (s : Settings) (op : Operator) (spec : VarSpec) :
    Except Refusal (List Text) :=
  (store.meaning s spec.name).map (spec.written op)

/-- An expression joins the units of its variables. -/
theorem expansion_eq_units (store : Store) (s : Settings) (op : Operator) (specs : List VarSpec) :
    store.expansion s op specs
      = ((specs.mapM (store.units s op)).map List.flatten).map op.join := by
  have hunits : (store.meanings s specs).map (op.written specs)
      = (specs.mapM (store.units s op)).map List.flatten := by
    induction specs with
    | nil => rfl
    | cons spec specs ih =>
      have hcons : store.meanings s (spec :: specs) = do
          let value ← store.meaning s spec.name
          let values ← store.meanings s specs
          return value :: values := List.mapM_cons
      rw [flatten_mapM_cons, ← ih, hcons, units]
      rcases store.meaning s spec.name with r | value
      · rfl
      · rcases store.meanings s specs with r | values <;> rfl
  rw [← hunits, expansion]
  rcases store.meanings s specs with r | values <;> rfl

/-- **An expression means the same without the variables of a name that has no
value.**  They have no units. -/
theorem Lacks.expansion (h : store.Lacks name) {other : Store} {s : Settings}
    (hagree : ∀ n, n ≠ name → store.meaning s n = other.meaning s n) (op : Operator)
    (specs : List VarSpec) : store.expansion s op specs
      = other.expansion s op (specs.filter fun spec => spec.name ≠ name) := by
  rw [expansion_eq_units, expansion_eq_units, ← List.filterMap_eq_filter]
  refine congrArg (Except.map op.join) (flatten_mapM_filterMap fun spec _ => ?_)
  by_cases hname : spec.name = name
  · have hpick : Option.guard (fun spec : VarSpec => decide (spec.name ≠ name)) spec = none := by
      simp [Option.guard, hname]
    rw [hpick, units, hname, h.meaning s]
    rfl
  · have hpick :
        Option.guard (fun spec : VarSpec => decide (spec.name ≠ name)) spec = some spec := by
      simp [Option.guard, hname]
    rw [hpick, units, hagree spec.name hname]
    rfl

end Store

/-- A component is expanded to the same text, or to none if nothing is left of it. -/
theorem Component.outcome_expand_without {store other : Store} {s : Settings} {name : Text}
    (h : store.Lacks name) (hagree : ∀ n, n ≠ name → store.meaning s n = other.meaning s n)
    (c : Component) : (c.expand store s).outcome
      = ((c.without name).map fun c => (c.expand other s).outcome).getD (.ok []) := by
  cases c with
  | literal text p => rfl
  | expression e =>
    rw [expand, e.outcome_expand, h.expansion hagree e.operator e.varspecs, without]
    show (other.expansion s e.operator (e.without name).varspecs).mapError _ = _
    split
    · next hempty =>
      rw [List.isEmpty_iff.mp hempty]
      rfl
    · show _ = ((e.without name).expand other s).outcome
      rw [Expression.outcome_expand]
      -- an error is reported from the text of the whole expression
      refine congrArg (fun g => Except.mapError g _) (funext fun r => ?_)
      cases r <;> rfl

namespace Template

theorem expand_without (t : Template) {store other : Store} {s : Settings} {name : Text}
    (h : store.Lacks name) (hagree : ∀ n, n ≠ name → store.meaning s n = other.meaning s n) :
    t.expand store s = (t.without name).expand other s := by
  rw [expand, expand, expandTraced, expandTraced, Traced.outcome_bind, Traced.outcome_bind,
    Traced.outcome_forEach, Traced.outcome_forEach]
  exact flatten_mapM_filterMap fun c _ => c.outcome_expand_without h hagree

/-- **A name without a value leaves no trace.**  Whether it is left out or bound
to a value that there is nothing in, a template has the same expansion and the
same partial expansion, reports and errors included.  The expansion is that of
the template without the variables of that name. -/
theorem expand_neutral (t : Template) (store : Store) (s : Settings) (name : Text) {w : Value}
    (hw : w.Vacant) :
    t.expandTraced (store.set name w) s = t.expandTraced (store.without name) s ∧
      t.expand (store.set name w) s = t.expand (store.without name) s ∧
      t.expandPartialTraced (store.set name w) s = t.expandPartialTraced (store.without name) s ∧
      t.expandPartial (store.set name w) s = t.expandPartial (store.without name) s ∧
      t.expand (store.without name) s = (t.without name).expand store s := by
  have halike : (store.set name w).Alike (store.without name) s t.variableNames := by
    intro n _
    by_cases hn : name = n
    · subst hn
      rw [(store.lacks_set name hw).resolve s, (store.lacks_without name).resolve s]
    · have hlookup : (store.set name w).lookup n = (store.without name).lookup n := by
        rw [Store.lookup, Store.lookup, Store.get?_without, Store.get?, Store.set,
          Entries.get?_set, if_neg hn, if_neg hn, Store.get?]
      rw [hlookup]
  have hagree : ∀ n, n ≠ name → (store.without name).meaning s n = store.meaning s n := by
    intro n hn
    rw [Store.meaning, Store.meaning, Store.get?_without, if_neg hn.symm]
  have hfull := expandTraced_of_alike halike
  have hpartial := expandPartialTraced_of_alike halike
  exact ⟨hfull, congrArg Traced.outcome hfull, hpartial, congrArg Traced.outcome hpartial,
    t.expand_without (store.lacks_without name) hagree⟩

/-- A name at the beginning, alone and at the end of an expression, bound to a
mapping with no value but an absent one. -/
theorem expand_neutral_positions :
    let w : Value := .map [(.str (lit "k"), .none)]
    let store := Store.ofList [(lit "x", .str (lit "1"))]
    w.Vacant ∧ ∃ t, parse (lit "\x7b?v,x\x7d\x7b/v*\x7d-\x7bx,v:3\x7d") = .ok t ∧
      (t.without (lit "v")).components = [
        .expression ⟨lit "?v,x", .query, [⟨lit "x", .none⟩], 0⟩, .literal (lit "-") 11,
        .expression ⟨lit "x,v:3", .simple, [⟨lit "x", .none⟩], 12⟩] ∧
      t.expand (store.set (lit "v") w) .standard = .ok (lit "?x=1-1") ∧
      t.expand (store.without (lit "v")) .standard = .ok (lit "?x=1-1") ∧
      (t.without (lit "v")).expand store .standard = .ok (lit "?x=1-1") := by
  intro w store
  have hw : w.Vacant := .pairs (.map _) (List.forall_mem_singleton.mpr rfl)
  let t : Template := ⟨lit "\x7b?v,x\x7d\x7b/v*\x7d-\x7bx,v:3\x7d", [
    .expression ⟨lit "?v,x", .query, [⟨lit "v", .none⟩, ⟨lit "x", .none⟩], 0⟩,
    .expression ⟨lit "/v*", .path, [⟨lit "v", .explode⟩], 6⟩, .literal (lit "-") 11,
    .expression ⟨lit "x,v:3", .simple, [⟨lit "x", .none⟩, ⟨lit "v", .upTo 3⟩], 12⟩]⟩
  have hexpand : t.expand (store.set (lit "v") w) .standard = .ok (lit "?x=1-1") :=
    eq_ok_of_toOption (by decide +kernel)
  obtain ⟨-, hbound, -, -, hremoved⟩ := expand_neutral t store .standard (lit "v") hw
  have habsent := hbound.symm.trans hexpand
  exact ⟨hw, t, eq_ok_of_toOption (by decide +kernel), by decide, hexpand, habsent,
    hremoved.symm.trans habsent⟩

end Template

end UriExpansion
