/-
UriExpansion/Proofs/Concealment.lean

What is excluded from a host object leaves no trace in what comes out of it.

Two objects of the same classes may differ in the values of the attributes that a
property or a marker excludes (`HostObject.SameShown`).  The values of an object
are in its state and in what its getters return, which is part of how its classes
are described here; `HostClass.blanked` takes the latter away for hidden names and
leaves the classes otherwise as they are.  Nothing that is asked of a class for
another name sees the difference, nor does any question about fields or markers,
so that both objects hide the same names and agree on each of the others
(`SameShown.contribution?`).  The hidden names may stand at other places in the
order of the attributes, but nothing is found under them (`SameShown.contributed`).
-/
import UriExpansion.Proofs.AttributeRule
import UriExpansion.Proofs.Dependence

namespace UriExpansion

open Entries

/-! ### Classes without hidden values -/

/-- The property without what its getter returns, if its name is hidden. -/
def Property.blanked (hidden : Text → Bool) (p : Property Value) : Property Value :=
  if hidden p.name then ⟨p.name, p.getter.map fun g => { g with reading := .returns .none }⟩ else p

/-- The class without what getters return under hidden names. -/
def HostClass.blanked (hidden : Text → Bool) (c : HostClass Value) : HostClass Value :=
  { c with properties := c.properties.map (Property.blanked hidden) }

section
variable {hidden : Text → Bool} {a : Text}

theorem Property.name_blanked (p : Property Value) : (p.blanked hidden).name = p.name := by
  rw [blanked]
  split <;> rfl

theorem Property.blanked_of_shown {p : Property Value} (h : hidden p.name = false) :
    p.blanked hidden = p := by
  rw [blanked, h]
  rfl

/-- Taking values away leaves the markers of a getter alone. -/
theorem Property.any_transient_blanked (p : Property Value) :
    (p.blanked hidden).getter.any Getter.transient = p.getter.any Getter.transient := by
  rw [blanked]
  split
  · cases p.getter <;> rfl
  · rfl

namespace HostClass

variable {c : HostClass Value}

theorem findRev?_properties_blanked (c : HostClass Value) (a : Text) :
    (c.blanked hidden).properties.findRev? (fun p => p.name = a)
      = (c.properties.findRev? fun p => p.name = a).map (Property.blanked hidden) := by
  rw [blanked, List.findRev?_eq_find?_reverse, List.findRev?_eq_find?_reverse, ← List.map_reverse,
    List.find?_map]
  simp only [Function.comp_def, Property.name_blanked]

theorem name_of_findRev? {p : Property Value}
    (h : (c.properties.findRev? fun p => p.name = a) = some p) : p.name = a := by
  rw [List.findRev?_eq_find?_reverse] at h
  have hname := List.find?_some h
  exact of_decide_eq_true hname

/-- What a class binds to a name that is not hidden stays as it is. -/
theorem binding?_blanked (h : hidden a = false) (c : HostClass Value) :
    (c.blanked hidden).binding? a = c.binding? a := by
  have hproperty : (c.blanked hidden).properties.findRev? (fun p => p.name = a)
      = c.properties.findRev? fun p => p.name = a := by
    rw [findRev?_properties_blanked]
    refine (Option.map_congr fun p hp => ?_).trans Option.map_id'
    rw [Property.blanked_of_shown]
    rw [name_of_findRev? hp, h]
  rw [binding?, hproperty, binding?]
  rfl

end HostClass

theorem fieldsOf_blanked (classes : List (HostClass Value)) :
    fieldsOf (classes.map (HostClass.blanked hidden)) = fieldsOf classes := by
  rw [fieldsOf, List.flatMap_map, fieldsOf]
  rfl

theorem chainMarker?_blanked (before classes : List (HostClass Value)) :
    chainMarker? (before.map (HostClass.blanked hidden)) a (classes.map (HostClass.blanked hidden))
      = chainMarker? before a classes := by
  induction classes generalizing before with
  | nil => rfl
  | cons c rest ih =>
    have hseen : before.map (HostClass.blanked hidden) ++ [c.blanked hidden]
        = (before ++ [c]).map (HostClass.blanked hidden) := by
      rw [List.map_append, List.map_singleton]
    rw [List.map_cons, chainMarker?, HostClass.marker?, hseen, ih, fieldsOf_blanked, chainMarker?,
      HostClass.marker?]
    rfl

end

namespace HostObject

/-- The object without what its getters return under hidden names. -/
def blanked (o : HostObject Value) : HostObject Value :=
  { o with classes := o.classes.map (HostClass.blanked o.isHidden) }

variable {o o' : HostObject Value} {a : Text}

theorem marker?_blanked (o : HostObject Value) (a : Text) : o.blanked.marker? a = o.marker? a :=
  chainMarker?_blanked [] o.classes

theorem property?_blanked (o : HostObject Value) (a : Text) :
    o.blanked.property? a = (o.property? a).map (Property.blanked o.isHidden) := by
  rw [property?, blanked, ← List.map_reverse, List.findSome?_map, property?, List.map_findSome?]
  refine congrArg (List.findSome? · _) (funext fun c => ?_)
  exact c.findRev?_properties_blanked a

theorem name_of_property? {p : Property Value} (h : o.property? a = some p) : p.name = a := by
  obtain ⟨c, -, hp⟩ := List.exists_of_findSome?_eq_some h
  exact HostClass.name_of_findRev? hp

theorem property?_blanked_of_shown (h : o.isHidden a = false) :
    o.blanked.property? a = o.property? a := by
  rw [property?_blanked]
  refine (Option.map_congr fun p hp => ?_).trans Option.map_id'
  rw [Property.blanked_of_shown]
  rw [name_of_property? hp, h]

/-- The same names are hidden without what their getters return. -/
theorem isHidden_blanked (o : HostObject Value) : o.blanked.isHidden = o.isHidden := by
  funext a
  rw [isHidden, marker?_blanked, getter?, property?_blanked, isHidden, getter?]
  cases o.property? a with
  | none => rfl
  | some p => rw [Option.map_some, Option.bind_some, p.any_transient_blanked, Option.bind_some]

theorem classBinding?_blanked (h : o.isHidden a = false) :
    o.blanked.classBinding? a = o.classBinding? a := by
  rw [classBinding?, blanked, ← List.map_reverse, List.findSome?_map, classBinding?]
  exact congrArg (List.findSome? · _) (funext fun c => c.binding?_blanked h)

theorem propertyNames_blanked (o : HostObject Value) : o.blanked.propertyNames = o.propertyNames := by
  rw [propertyNames, blanked, List.flatMap_map, propertyNames, List.map_flatMap, List.map_flatMap]
  simp only [HostClass.blanked, List.map_map, Function.comp_def, Property.name_blanked]

theorem isRecord_blanked (o : HostObject Value) : o.blanked.isRecord = o.isRecord := by
  rw [isRecord, blanked, List.any_map, isRecord]
  rfl

theorem className_blanked (o : HostObject Value) : o.blanked.className = o.className := by
  rw [className, blanked, List.getLast?_map, Option.map_map, className]
  rfl

/-! ### Objects that differ in what is hidden -/

/-- The instance attributes that are not hidden. -/
def shownAttributes (o : HostObject Value) : Entries Text Value :=
  o.attributes.filter fun e => !o.isHidden e.1

/-- The objects have the same classes and differ in hidden values only.  Reading
these fails of neither, or alike of both. -/
structure SameShown (o o' : HostObject Value) : Prop where
  classes : o.blanked.classes = o'.blanked.classes
  attributes : o.shownAttributes = o'.shownAttributes
  fields : ∀ f ∈ o.readFields, o.isHidden f.name = true →
    error? (o.read f.name) = error? (o'.read f.name)
  getters : ∀ a, o.isHidden a = true →
    (o.property? a).map Property.raised? = (o'.property? a).map Property.raised?

namespace SameShown

variable (h : o.SameShown o')
include h

theorem marker? (a : Text) : o.marker? a = o'.marker? a := by
  rw [← marker?_blanked o, HostObject.marker?, h.classes, ← marker?_blanked o', HostObject.marker?]

/-- What is hidden is the same, although each object is blanked by its own account. -/
theorem isHidden : o.isHidden = o'.isHidden := by
  rw [← isHidden_blanked o, ← isHidden_blanked o']
  funext a
  rw [HostObject.isHidden, getter?, property?, HostObject.marker?, h.classes]
  rfl

theorem fieldsOf : fieldsOf o.classes = fieldsOf o'.classes := by
  have hfields := congrArg UriExpansion.fieldsOf h.classes
  rwa [blanked, blanked, fieldsOf_blanked, fieldsOf_blanked] at hfields

theorem isRecord : o.isRecord = o'.isRecord := by
  rw [← isRecord_blanked o, HostObject.isRecord, h.classes, ← isRecord_blanked o',
    HostObject.isRecord]

theorem className : o.className = o'.className := by
  rw [← className_blanked o, HostObject.className, h.classes, ← className_blanked o',
    HostObject.className]

theorem propertyNames : o.propertyNames = o'.propertyNames := by
  rw [← propertyNames_blanked o, HostObject.propertyNames, h.classes, ← propertyNames_blanked o',
    HostObject.propertyNames]

theorem readFields : o.readFields = o'.readFields := by
  rw [HostObject.readFields, h.isRecord, HostObject.fields, h.fieldsOf]
  rfl

theorem get?_attributes (ha : o.isHidden a = false) :
    get? o.attributes a = get? o'.attributes a := by
  have hshown := congrArg (get? · a) h.attributes
  simp only [shownAttributes] at hshown
  rwa [get?_filter o.attributes (fun key => !o.isHidden key),
    get?_filter o'.attributes (fun key => !o'.isHidden key), ← h.isHidden, ha] at hshown

theorem property?_of_shown (ha : o.isHidden a = false) : o.property? a = o'.property? a := by
  rw [← property?_blanked_of_shown ha, property?, h.classes,
    ← property?_blanked_of_shown (h.isHidden ▸ ha), property?]

theorem getter?_of_shown (ha : o.isHidden a = false) : o.getter? a = o'.getter? a := by
  rw [getter?, h.property?_of_shown ha, getter?]

/-- Whatever is not hidden reads alike. -/
theorem read_of_shown (ha : o.isHidden a = false) : o.read a = o'.read a := by
  have hbinding : o.classBinding? a = o'.classBinding? a := by
    rw [← classBinding?_blanked ha, classBinding?, h.classes,
      ← classBinding?_blanked (h.isHidden ▸ ha), classBinding?]
  rw [read, hbinding, h.get?_attributes ha, read]

theorem held?_of_shown (ha : o.isHidden a = false) : o.held? a = o'.held? a := by
  rw [held?, h.isRecord, h.fieldsOf, h.read_of_shown ha, h.get?_attributes ha, held?]

/-- Every attribute contributes alike: nothing if it is hidden. -/
theorem contribution? (a : Text) : o.contribution? a = o'.contribution? a := by
  rw [HostObject.contribution?, HostObject.contribution?, ← h.isHidden]
  cases ha : o.isHidden a with
  | true => rw [Bool.not_true, Bool.and_false, if_neg Bool.false_ne_true, if_neg Bool.false_ne_true]
  | false =>
    have hcomputed : o.computed? a = o'.computed? a := by
      rw [computed?, h.getter?_of_shown ha, computed?]
    have hlabel : o.labelOf a = o'.labelOf a := by
      rw [labelOf, h.marker?, hcomputed, h.getter?_of_shown ha, labelOf]
    rw [hcomputed, h.held?_of_shown ha, hlabel]

/-! ### Failures -/

theorem raised? (a : Text) :
    (o.property? a).map Property.raised? = (o'.property? a).map Property.raised? := by
  cases ha : o.isHidden a with
  | true => exact h.getters a ha
  | false => rw [h.property?_of_shown ha]

/-- The properties fail alike, in one order. -/
theorem raisedProperties : (o.properties.map fun e => (e.1, e.2.raised?))
    = o'.properties.map fun e => (e.1, e.2.raised?) := by
  have hnodup : ∀ x : HostObject Value,
      (keys (x.properties.map fun e => (e.1, e.2.raised?))).Nodup := by
    intro x
    rw [keys_map x.properties fun _ p => p.raised?, keys_properties]
    exact x.nodup_propertyNames
  -- both maps have the same keys in the same order
  rw [eq_tabulate (hnodup o), eq_tabulate (hnodup o'), keys_map o.properties fun _ p => p.raised?,
    keys_map o'.properties fun _ p => p.raised?, keys_properties, keys_properties, h.propertyNames]
  refine tabulate_congr fun a _ => ?_
  rw [get?_map o.properties fun _ p => p.raised?, get?_map o'.properties fun _ p => p.raised?,
    get?_properties, get?_properties]
  split
  · exact h.raised? a
  · rfl

/-- Taking the objects apart fails of neither, or alike of both. -/
theorem error?_collected : error? o.collected = error? o'.collected := by
  have hfields : (o.readFields.findSome? fun f => error? (o.read f.name))
      = o'.readFields.findSome? fun f => error? (o'.read f.name) := by
    have hreads : (o.readFields.map fun f => error? (o.read f.name))
        = o.readFields.map fun f => error? (o'.read f.name) := by
      refine List.map_congr_left fun f hf => ?_
      cases hhidden : o.isHidden f.name with
      | true => exact h.fields f hf hhidden
      | false => rw [h.read_of_shown hhidden]
    have hfirst := congrArg (List.findSome? id) hreads
    rw [List.findSome?_map, List.findSome?_map] at hfirst
    rw [← h.readFields]
    exact hfirst
  have hproperties : o.properties.findSome? (getterFailure o.className)
      = o'.properties.findSome? (getterFailure o'.className) := by
    have hraised := congrArg (List.findSome? fun e => e.2.map (propertyFailure e.1 o.className))
      h.raisedProperties
    rw [List.findSome?_map, List.findSome?_map, h.className] at hraised
    rw [h.className]
    exact hraised
  rw [HostObject.error?_collected, hfields, hproperties, HostObject.error?_collected]

/-! ### Order -/

theorem heldNames : (o.heldNames.filter fun a => !o.isHidden a)
    = o'.heldNames.filter fun a => !o'.isHidden a := by
  rw [HostObject.heldNames, HostObject.heldNames, fields_names, fields_names, h.fieldsOf, h.isRecord]
  split
  · rw [h.isHidden]
  · have hkeys := congrArg keys h.attributes
    rw [keys, keys, List.filter_map, List.filter_map]
    exact hkeys

theorem firstNames : (o.firstNames.filter fun a => !o.isHidden a)
    = o'.firstNames.filter fun a => !o'.isHidden a := by
  have hfirst : ∀ x : HostObject Value, (x.firstNames.filter fun a => !x.isHidden a)
      = (x.heldNames.filter fun a => !x.isHidden a).filter
        fun a => isPublic a && (x.held? a).isSome := by
    intro x
    rw [HostObject.firstNames, List.filter_filter, List.filter_filter]
    exact List.filter_congr fun a _ => Bool.and_comm _ _
  rw [hfirst, hfirst, ← h.heldNames]
  refine List.filter_congr fun a ha => ?_
  rw [h.held?_of_shown (Bool.not_eq_true' .. ▸ (List.mem_filter.mp ha).2)]

theorem order : (o.order.filter fun a => !o.isHidden a)
    = o'.order.filter fun a => !o'.isHidden a := by
  rw [HostObject.order, HostObject.order, filter_extended, filter_extended, h.firstNames,
    h.propertyNames, h.isHidden]

/-- The pairs are the same. -/
theorem contributed : o.contributed = o'.contributed := by
  have hshown : ∀ x : HostObject Value, x.contributed
      = ofList ((tabulate (x.order.filter fun a => !x.isHidden a) x.contribution?).map Prod.snd) := by
    intro x
    rw [HostObject.contributed, tabulate_filter x.order]
    -- a hidden name contributes nothing, wherever it stands
    intro a ha
    rw [HostObject.contribution?, ha, Bool.and_false, if_neg Bool.false_ne_true]
  rw [hshown, hshown, h.order, tabulate_congr fun a _ => h.contribution? a]

theorem pairs (hrule : o.ByRule) (hrule' : o'.ByRule) : o.pairs = o'.pairs := by
  refine eq_of_error?_eq ?_ fun found found' hfound hfound' => ?_
  · rw [hrule.error?_pairs, hrule'.error?_pairs, ← HostObject.error?_collected,
      ← HostObject.error?_collected, h.error?_collected]
  · have hread := hrule.readable hfound
    have hread' := hrule'.readable hfound'
    rw [hrule.pairs_eq, hread.rulePairs_eq, h.contributed] at hfound
    rw [hrule'.pairs_eq, hread'.rulePairs_eq] at hfound'
    exact Except.ok.inj (hfound.symm.trans hfound')

/-- The objects come apart alike. -/
theorem explode (hrule : o.ByRule) (hrule' : o'.ByRule) :
    (Value.object o).explode = (Value.object o').explode := by
  rw [Value.explode_object, Value.explode_object, h.pairs hrule hrule', h.className]

end SameShown

/-- **What is excluded does not show.**  Two objects of the same classes that
differ in the values of excluded attributes only have the same pairs, or are
refused or fail alike; and wherever one of them stands for the other in the
bindings of a template, full and partial expansion come to the same, reports
included. -/
theorem explode_sameShown (hrule : o.ByRule) (hrule' : o'.ByRule) (h : o.SameShown o') :
    (Value.object o).explode = (Value.object o').explode ∧
      ∀ (t : Template) (a b : Store), (∀ name ∈ t.variableNames, a.lookup name = b.lookup name ∨
          a.lookup name ∈ [.object o, .object o'] ∧ b.lookup name ∈ [.object o, .object o']) →
        ∀ s, t.expandTraced a s = t.expandTraced b s ∧ t.expand a s = t.expand b s ∧
          t.expandPartialTraced a s = t.expandPartialTraced b s ∧
          t.expandPartial a s = t.expandPartial b s := by
  have hexplode := h.explode hrule hrule'
  refine ⟨hexplode, fun t a b hlookup s => ?_⟩
  have hresolve : ∀ v ∈ [Value.object o, Value.object o'],
      v.resolve s = (Value.object o).resolve s := by
    have hother : (Value.object o').resolve s = (Value.object o).resolve s := by
      show ((Value.object o').explode >>= _) = ((Value.object o).explode >>= _)
      rw [hexplode]
    simp only [List.forall_mem_cons]
    exact ⟨trivial, hother, List.forall_mem_nil _⟩
  have halike : a.Alike b s t.variableNames := by
    intro name hname
    rcases hlookup name hname with hsame | ⟨ha, hb⟩
    · rw [hsame]
    · rw [hresolve _ ha, hresolve _ hb]
  have hfull := Template.expandTraced_of_alike halike
  have hpartial := Template.expandPartialTraced_of_alike halike
  exact ⟨hfull, congrArg Traced.outcome hfull, hpartial, congrArg Traced.outcome hpartial⟩

/-- A getter that is excluded, one that a marker excludes although its label is that
of another attribute, and an excluded field that one object has from its state and
the other from its class. -/
theorem explode_sameShown_token :
    let base := fun key mac : Value => (⟨lit "Base",
      some [⟨lit "token", some (.str (lit "d")), some ⟨some (lit "t"), true⟩⟩, ⟨lit "id", none, none⟩],
      [⟨lit "key", some ⟨none, true, .returns key⟩⟩,
        ⟨lit "mac", some ⟨some (lit "id"), false, .returns mac⟩⟩],
      [], [(lit "mac", some ⟨none, true⟩)], false, none⟩ : HostClass Value)
    let o : HostObject Value := ⟨0, [base (.str (lit "k")) (.int 7)],
      [(lit "token", .str (lit "s")), (lit "id", .int 1)]⟩
    let o' : HostObject Value := ⟨1, [base .none .none], [(lit "id", .int 1)]⟩
    let a := Store.ofList [(lit "x", .object o)]
    let b := Store.ofList [(lit "x", .object o')]
    let t : Template := ⟨lit "\x7bx*\x7d", [.expression ⟨lit "x*", .simple,
      [⟨lit "x", .explode⟩], 0⟩]⟩
    o.ByRule ∧ o'.ByRule ∧ o.SameShown o' ∧
      (Value.object o).explode = .ok [(.str (lit "id"), .int 1)] ∧
      (Value.object o').explode = .ok [(.str (lit "id"), .int 1)] ∧
      t.expand a .standard = .ok (lit "id=1") ∧ t.expand b .standard = .ok (lit "id=1") := by
  intro base o o' a b t
  have hrule : o.ByRule := ⟨rfl, rfl⟩
  have hrule' : o'.ByRule := ⟨rfl, rfl⟩
  have hpairs : o.rulePairs = .ok [(lit "id", .int 1)] := rfl
  have hsame : o.SameShown o' := by
    refine ⟨rfl, rfl, ?_, fun name _ => ?_⟩
    · show ∀ f ∈ [_, _], _
      simp only [List.forall_mem_cons]
      exact ⟨fun _ => rfl, fun _ => rfl, List.forall_mem_nil _⟩
    · by_cases hkey : lit "key" = name
      · subst hkey
        rfl
      · by_cases hmac : lit "mac" = name
        · subst hmac
          rfl
        · simp [property?, o, o', base, hkey, hmac]
  have hlookup : ∀ name ∈ [lit "x"], a.lookup name = b.lookup name ∨
      a.lookup name ∈ [.object o, .object o'] ∧ b.lookup name ∈ [.object o, .object o'] :=
    List.forall_mem_singleton.mpr
      (.inr ⟨List.mem_cons_self, List.mem_cons_of_mem _ List.mem_cons_self⟩)
  have hnames : t.variableNames = [lit "x"] := by decide
  have hexpand : t.expand b .standard = .ok (lit "id=1") := eq_ok_of_toOption (by decide +kernel)
  obtain ⟨hexplode, hexpands⟩ := explode_sameShown hrule hrule' hsame
  obtain ⟨-, hfull, -, -⟩ := hexpands t a b (hnames ▸ hlookup) .standard
  have hpairs' := hrule.explode_eq hpairs
  exact ⟨hrule, hrule', hsame, hpairs', hexplode.symm.trans hpairs', hfull.trans hexpand, hexpand⟩

end HostObject

end UriExpansion
