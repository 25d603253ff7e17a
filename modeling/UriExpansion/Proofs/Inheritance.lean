/-
UriExpansion/Proofs/Inheritance.lean

What one more class at the end of a chain changes if it declares nothing.

Fields, properties, plain attributes and whatever is read by name stay as they
are (`read_inSubclass` and the lemmas around it).  Markers need not.  They are
collected class by class, and every record class brings the markers of all its
fields, inherited ones included, so that the new class puts the marker of a field
back into force where its parent had declared another one for it
(`HostObject.Overrides`).  `HostObject.explode_inSubclass_iff` says that nothing
else can make the two objects come apart differently, and that this does whenever
an attribute is there to show it and its label is not that of another.
-/
import UriExpansion.Proofs.AttributeRule

namespace UriExpansion

open Entries

/-! ### Obstacles without their wording -/

/-- What stands in the way, without the wording. -/
inductive Obstacle.Kind
  | refusal (code : Text)
  | fault (f : Fault)
  deriving DecidableEq, Repr

/-- The code of a refusal, or the fault. -/
def Obstacle.kind : Obstacle → Obstacle.Kind
  | .cause c => .refusal c.code
  | .fault f => .fault f

/-- Computations that end in one value, or fail alike. -/
theorem mapError_congr {ε κ α : Type} {x y : Except ε α} {g : ε → κ}
    (herror : (error? x).map g = (error? y).map g) (hok : ∀ a b, x = .ok a → y = .ok b → a = b) :
    x.mapError g = y.mapError g := by
  refine eq_of_error?_eq ?_ fun a b ha hb => ?_
  · rw [error?_mapError, error?_mapError, herror]
  · exact hok a b (mapError_eq_ok.mp ha) (mapError_eq_ok.mp hb)

/-! ### Classes that declare nothing -/

namespace HostClass

/-- The marker that the class itself declares for an attribute. -/
def declared? (c : HostClass Value) (a : Text) : Option Marker := (get? (ofList c.markers) a).join

/-- The class says nothing of an attribute: it has no field of this name and
declares no marker for it. -/
structure SilentOn (c : HostClass Value) (a : Text) : Prop where
  fields : ∀ f ∈ c.fields.getD [], f.name ≠ a
  markers : c.declared? a = none

/-- The class declares nothing behind the others of its chain.  A record class
without fields of its own is one only if the chain has one already. -/
structure DeclaresNothing (c : HostClass Value) (before : List (HostClass Value)) : Prop where
  fields : c.fields.getD [] = []
  isRecord : c.fields.isSome = true → before.any (fun d => d.fields.isSome) = true
  properties : c.properties = []
  attributes : c.attributes = []
  markers : c.markers = []
  callable : c.callable = false
  pairs : c.pairs = none

variable {c : HostClass Value} {before : List (HostClass Value)}

theorem DeclaresNothing.silentOn (h : c.DeclaresNothing before) (a : Text) : c.SilentOn a where
  fields := by
    rw [h.fields]
    exact fun f hf => absurd hf List.not_mem_nil
  markers := by
    rw [declared?, h.markers]
    rfl

theorem DeclaresNothing.binding? (h : c.DeclaresNothing before) (name : Text) :
    c.binding? name = none := by
  rw [HostClass.binding?, h.properties, h.attributes, h.fields]
  rfl

end HostClass

namespace HostObject

/-- The object as an instance of one more class. -/
def inSubclass (o : HostObject Value) (c : HostClass Value) : HostObject Value :=
  { o with classes := o.classes ++ [c] }

variable {o : HostObject Value} {c : HostClass Value}

theorem reverse_classes_inSubclass (o : HostObject Value) (c : HostClass Value) :
    (o.inSubclass c).classes.reverse = c :: o.classes.reverse := List.reverse_concat

section
variable (hc : c.DeclaresNothing o.classes)
include hc

theorem fieldsOf_inSubclass : fieldsOf (o.inSubclass c).classes = fieldsOf o.classes := by
  have hfields : ((o.inSubclass c).classes.flatMap fun d => d.fields.getD [])
      = o.classes.flatMap fun d => d.fields.getD [] := by
    rw [inSubclass, List.flatMap_append, List.flatMap_singleton, hc.fields, List.append_nil]
  rw [fieldsOf, hfields, fieldsOf]

theorem isRecord_inSubclass : (o.inSubclass c).isRecord = o.isRecord := by
  rw [isRecord, inSubclass, List.any_append, isRecord]
  cases hrecord : c.fields.isSome with
  | false => simp [hrecord]
  | true => rw [hc.isRecord hrecord, Bool.true_or]

theorem isCallable_inSubclass : (o.inSubclass c).isCallable = o.isCallable := by
  rw [isCallable, inSubclass, List.any_append, isCallable, List.any_cons, hc.callable]
  simp

theorem properties_inSubclass : (o.inSubclass c).properties = o.properties := by
  have hproperties : (o.inSubclass c).classes.flatMap HostClass.properties
      = o.classes.flatMap HostClass.properties := by
    rw [inSubclass, List.flatMap_append, List.flatMap_singleton, hc.properties, List.append_nil]
  rw [properties, hproperties, properties]

theorem property?_inSubclass (a : Text) : (o.inSubclass c).property? a = o.property? a := by
  rw [property?, reverse_classes_inSubclass, List.findSome?_cons, hc.properties]
  rfl

theorem classBinding?_inSubclass (name : Text) :
    (o.inSubclass c).classBinding? name = o.classBinding? name := by
  rw [classBinding?, reverse_classes_inSubclass, List.findSome?_cons, hc.binding? name]
  rfl

/-- Reading by name passes the new class by. -/
theorem read_inSubclass (name : Text) : (o.inSubclass c).read name = o.read name := by
  rw [read, classBinding?_inSubclass hc]
  rfl

theorem pairsMember?_inSubclass : (o.inSubclass c).pairsMember? = o.pairsMember? := by
  have hmember : classPairsMember? c = none := by
    rw [classPairsMember?, hc.pairs, hc.binding? pairsName]
    rfl
  rw [pairsMember?, reverse_classes_inSubclass, List.findSome?_cons, hmember]
  rfl

theorem fields_inSubclass : (o.inSubclass c).fields = o.fields := by
  rw [fields, fieldsOf_inSubclass hc, fields]

theorem readFields_inSubclass : (o.inSubclass c).readFields = o.readFields := by
  rw [readFields, isRecord_inSubclass hc, fields_inSubclass hc, readFields]

theorem held?_inSubclass (a : Text) : (o.inSubclass c).held? a = o.held? a := by
  rw [held?, isRecord_inSubclass hc, fieldsOf_inSubclass hc, read_inSubclass hc]
  rfl

theorem getter?_inSubclass (a : Text) : (o.inSubclass c).getter? a = o.getter? a := by
  rw [getter?, property?_inSubclass hc, getter?]

theorem computed?_inSubclass (a : Text) : (o.inSubclass c).computed? a = o.computed? a := by
  rw [computed?, getter?_inSubclass hc, computed?]

theorem order_inSubclass : (o.inSubclass c).order = o.order := by
  have hheld : (o.inSubclass c).heldNames = o.heldNames := by
    rw [heldNames, isRecord_inSubclass hc, fields_inSubclass hc]
    rfl
  have hfirst : (o.inSubclass c).firstNames = o.firstNames := by
    rw [firstNames, hheld, firstNames]
    exact List.filter_congr fun a _ => by rw [held?_inSubclass hc]
  rw [order, hfirst, ← keys_properties, properties_inSubclass hc, keys_properties, order]

theorem byRule_inSubclass : (o.inSubclass c).ByRule ↔ o.ByRule := by
  constructor
  · rintro ⟨hunnamed, hcallable⟩
    exact ⟨pairsMember?_inSubclass hc ▸ hunnamed, isCallable_inSubclass hc ▸ hcallable⟩
  · rintro ⟨hunnamed, hcallable⟩
    exact ⟨(pairsMember?_inSubclass hc).trans hunnamed,
      (isCallable_inSubclass hc).trans hcallable⟩

theorem readable_inSubclass : (o.inSubclass c).Readable ↔ o.Readable := by
  constructor
  · rintro ⟨hfields, hproperties⟩
    rw [readFields_inSubclass hc] at hfields
    rw [properties_inSubclass hc] at hproperties
    exact ⟨fun f hf => read_inSubclass hc f.name ▸ hfields f hf, hproperties⟩
  · rintro ⟨hfields, hproperties⟩
    refine ⟨?_, ?_⟩
    · rw [readFields_inSubclass hc]
      exact fun f hf => (read_inSubclass hc f.name).symm ▸ hfields f hf
    · rw [properties_inSubclass hc]
      exact hproperties

end

/-! ### Markers -/

/-- The marker of the field that the object has under a name, as the most derived
class that has the field gives it. -/
def fieldMarker? (o : HostObject Value) (a : Text) : Option Marker :=
  (get? (fieldsOf o.classes) a).bind Field.marker

/-- The last class of the chain declares the marker `d` for an attribute whose
field carries the marker `m`. -/
structure Overrides (o : HostObject Value) (a : Text) (d m : Marker) : Prop where
  declared : (o.classes.getLast?.bind fun c => c.declared? a) = some d
  field : o.fieldMarker? a = some m

theorem fieldMarker?_inSubclass {a : Text} (h : c.SilentOn a) :
    (o.inSubclass c).fieldMarker? a = o.fieldMarker? a := by
  have hnone : get? ((c.fields.getD []).map fun f => (f.name, f)).reverse a = none := by
    refine get?_eq_none_iff.mpr fun hmem => ?_
    obtain ⟨e, he, hname⟩ := List.mem_map.mp hmem
    obtain ⟨f, hf, rfl⟩ := List.mem_map.mp (List.mem_reverse.mp he)
    exact h.fields f hf hname
  rw [fieldMarker?, fieldMarker?, fieldsOf, fieldsOf, inSubclass, List.flatMap_append,
    List.flatMap_singleton, List.map_append, get?_ofList, get?_ofList, List.reverse_append,
    get?_append, hnone, Option.none_or]

end HostObject

theorem chainMarker?_append (before classes : List (HostClass Value)) (c : HostClass Value)
    (a : Text) : chainMarker? before a (classes ++ [c])
      = (c.marker? (before ++ classes) a).or (chainMarker? before a classes) := by
  induction classes generalizing before with
  | nil =>
    rw [List.nil_append, List.append_nil, chainMarker?]
    exact Option.or_none.symm
  | cons d rest ih =>
    rw [List.cons_append, chainMarker?, ih, chainMarker?, Option.or_assoc, List.append_assoc]
    rfl

namespace HostObject

variable {o : HostObject Value} {c : HostClass Value} {a : Text} {d m : Marker}

/-- The marker of a field comes before all that was in force above the new class. -/
theorem marker?_inSubclass (h : c.SilentOn a) :
    (o.inSubclass c).marker? a = (o.fieldMarker? a).or (o.marker? a) := by
  have hfield : (get? (fieldsOf (o.classes ++ [c])) a).bind Field.marker = o.fieldMarker? a :=
    fieldMarker?_inSubclass h
  have hmarkers : (get? (ofList c.markers) a).join = none := h.markers
  rw [marker?, inSubclass, chainMarker?_append, List.nil_append, HostClass.marker?, hmarkers,
    hfield, Option.none_or, marker?]

theorem marker?_of_getLast? (h : o.classes.getLast? = some c) :
    o.marker? a = ((c.declared? a).or (o.fieldMarker? a)).or
      (chainMarker? [] a o.classes.dropLast) := by
  obtain ⟨before, hclasses⟩ := List.getLast?_eq_some_iff.mp h
  rw [marker?, fieldMarker?, hclasses, chainMarker?_append, List.nil_append,
    List.dropLast_concat]
  rfl

theorem Overrides.marker? (h : o.Overrides a d m) : o.marker? a = some d := by
  obtain ⟨c, hlast, hdeclared⟩ := Option.bind_eq_some_iff.mp h.declared
  rw [marker?_of_getLast? hlast, hdeclared]
  rfl

theorem Overrides.marker?_inSubclass (h : o.Overrides a d m) (hc : c.SilentOn a) :
    (o.inSubclass c).marker? a = some m := by
  rw [HostObject.marker?_inSubclass hc, h.field]
  rfl

/-- A marker stays in force, or the last class had put it in the place of the
marker of a field. -/
theorem marker?_cases (hc : c.SilentOn a) :
    ((o.inSubclass c).marker? a = o.marker? a ∧ ∀ d m, ¬ o.Overrides a d m) ∨
      ∃ d m, o.Overrides a d m := by
  rcases hfield : o.fieldMarker? a with - | m
  · refine .inl ⟨?_, fun d m h => ?_⟩
    · rw [marker?_inSubclass hc, hfield, Option.none_or]
    · rw [h.field] at hfield
      cases hfield
  · rcases hdeclared : o.classes.getLast?.bind (fun c => c.declared? a) with - | d
    · refine .inl ⟨?_, fun d m h => ?_⟩
      · -- there is a last class, since there is a field
        rcases hlast : o.classes.getLast? with - | last
        · rw [fieldMarker?, List.getLast?_eq_none_iff.mp hlast] at hfield
          cases hfield
        · rw [hlast, Option.bind_some] at hdeclared
          rw [marker?_inSubclass hc, marker?_of_getLast? hlast, hdeclared, hfield]
          rfl
      · rw [h.declared] at hdeclared
        cases hdeclared
    · exact .inr ⟨d, m, hdeclared, hfield⟩

/-- **A marker stays in force** in a class that says nothing of the attribute,
unless the field carries another one than the class above had declared. -/
theorem marker?_inSubclass_iff (hc : c.SilentOn a) :
    (o.inSubclass c).marker? a = o.marker? a ↔ ∀ d m, o.Overrides a d m → d = m := by
  constructor
  · intro h d m hoverrides
    rw [hoverrides.marker?, hoverrides.marker?_inSubclass hc] at h
    exact (Option.some.inj h).symm
  · intro h
    rcases marker?_cases hc (o := o) with ⟨hsame, -⟩ | ⟨d, m, hoverrides⟩
    · exact hsame
    · rw [hoverrides.marker?, hoverrides.marker?_inSubclass hc, h d m hoverrides]

/-! ### Contributions -/

/-- What is found of an attribute before markers are looked at, its label and its
value. -/
def unmarked? (o : HostObject Value) (a : Text) : Option (Text × Value) :=
  if isPublic a && !(o.getter? a).any Getter.transient then
    ((o.computed? a).map fun v => (((o.getter? a).bind Getter.label).getD a, v)).or
      ((o.held? a).map fun v => (a, v))
  else none

theorem contribution?_eq_act (o : HostObject Value) (a : Text) :
    o.contribution? a = ((o.marker? a).map Marker.act).getD id (o.unmarked? a) := by
  rw [← contribution?_eq, get?_properties, get?_firstFound, unmarked?]
  cases isPublic a with
  | false => rfl
  | true =>
    simp only [if_true, property_act_eq, Bool.true_and]
    cases (o.getter? a).any Getter.transient <;> rfl

section
variable (hc : c.DeclaresNothing o.classes)
include hc

theorem unmarked?_inSubclass (a : Text) : (o.inSubclass c).unmarked? a = o.unmarked? a := by
  rw [unmarked?, getter?_inSubclass hc, computed?_inSubclass hc, held?_inSubclass hc, unmarked?]

/-- An attribute contributes as before if the markers do the same to it. -/
theorem contribution?_inSubclass_iff :
    (o.inSubclass c).contribution? a = o.contribution? a ↔
      ∀ d m, o.Overrides a d m → d.act (o.unmarked? a) = m.act (o.unmarked? a) := by
  rw [contribution?_eq_act, contribution?_eq_act, unmarked?_inSubclass hc]
  constructor
  · intro h d m hoverrides
    rw [hoverrides.marker?, hoverrides.marker?_inSubclass (hc.silentOn a)] at h
    exact h.symm
  · intro h
    rcases marker?_cases (hc.silentOn a) (o := o) with ⟨hsame, -⟩ | ⟨d, m, hoverrides⟩
    · rw [hsame]
    · rw [hoverrides.marker?, hoverrides.marker?_inSubclass (hc.silentOn a)]
      exact (h d m hoverrides).symm

end

/-! ### Explosions -/

/-- Objects fail alike to name their pairs but for their classes' names. -/
theorem kind_ownPairs (o o' : HostObject Value) (m : PairsMember) :
    (o'.ownPairs m).mapError Obstacle.kind = (o.ownPairs m).mapError Obstacle.kind := by
  cases m with
  | method reading =>
    rcases reading with v | r
    · rw [ownPairs, ownPairs]
      rcases v.toEntries with wording | entries <;> rfl
    · cases r <;> rfl
  | property getter =>
    rcases getter with - | ⟨label, transient, v | r⟩
    · rfl
    · rfl
    · cases r <;> rfl
  | value v => rfl

/-- What a failing getter comes to but for the wording. -/
def propertyFailureKind : Raised → Obstacle.Kind
  | .interrupt message => .fault (.interrupted message)
  | _ => .refusal explodeFailed

theorem kind_getterFailure (className : Text) (e : Text × Property Value) :
    (getterFailure className e).map Obstacle.kind = e.2.raised?.map propertyFailureKind := by
  rw [getterFailure, Option.map_map]
  refine Option.map_congr fun r _ => ?_
  cases r <;> rfl

theorem kind_explode {o o' : HostObject Value}
    (h : o'.pairs.mapError Obstacle.kind = o.pairs.mapError Obstacle.kind) :
    (Value.object o').explode.mapError Obstacle.kind
      = (Value.object o).explode.mapError Obstacle.kind := by
  rcases hpairs : o.pairs with ob | pairs <;> rcases hpairs' : o'.pairs with ob' | pairs' <;>
    rw [hpairs, hpairs'] at h
  · rw [Value.explode_of_pairs_eq_error hpairs, Value.explode_of_pairs_eq_error hpairs']
    exact congrArg Except.error (Except.error.inj h)
  · cases h
  · cases h
  · obtain rfl := Except.ok.inj h
    rw [Value.explode_of_pairs_eq_ok hpairs, Value.explode_of_pairs_eq_ok hpairs']
    cases pairs' <;> rfl

/-- What comes out of an object tells the pairs that its contributions make up. -/
theorem contributed_eq_of_kind_explode {o o' : HostObject Value} (hrule : o.ByRule)
    (hrule' : o'.ByRule) (h : o.Readable) (h' : o'.Readable)
    (hkind : (Value.object o').explode.mapError Obstacle.kind
      = (Value.object o).explode.mapError Obstacle.kind) : o'.contributed = o.contributed := by
  have hinjective : Function.Injective fun e : Text × Value => (Value.str e.1, e.2) := by
    rintro ⟨label, v⟩ ⟨label', v'⟩ heq
    obtain ⟨hlabel, hvalue⟩ := Prod.mk.inj heq
    exact Prod.ext (Value.str.inj hlabel) hvalue
  rw [hrule.explode_eq h.rulePairs_eq, hrule'.explode_eq h'.rulePairs_eq] at hkind
  rcases hpairs : o.contributed with - | ⟨e, pairs⟩ <;>
    rcases hpairs' : o'.contributed with - | ⟨e', pairs'⟩ <;> rw [hpairs, hpairs'] at hkind
  · cases hkind
  · cases hkind
  · exact List.map_injective_iff.mpr hinjective (Except.ok.inj hkind)

section
variable (hc : c.DeclaresNothing o.classes)
include hc

theorem contributed_inSubclass
    (h : ∀ a, (o.inSubclass c).contribution? a = o.contribution? a) :
    (o.inSubclass c).contributed = o.contributed := by
  rw [contributed, order_inSubclass hc, tabulate_congr fun a _ => h a, contributed]

/-- The pairs stay as they are if the markers do the same wherever pairs are made of
what is found. -/
theorem kind_pairs_inSubclass (h : o.ByRule → o.Readable →
      ∀ a d m, o.Overrides a d m → d.act (o.unmarked? a) = m.act (o.unmarked? a)) :
    (o.inSubclass c).pairs.mapError Obstacle.kind = o.pairs.mapError Obstacle.kind := by
  rcases hmember : o.pairsMember? with - | m
  · by_cases hcallable : o.isCallable = true
    · rw [pairs, pairs, pairsMember?_inSubclass hc, hmember, isCallable_inSubclass hc, hcallable]
      rfl
    · have hrule : o.ByRule := ⟨hmember, Bool.not_eq_true _ ▸ hcallable⟩
      have hrule' : (o.inSubclass c).ByRule := (byRule_inSubclass hc).mpr hrule
      refine mapError_congr ?_ fun pairs' pairs hpairs' hpairs => ?_
      · rw [hrule'.error?_pairs, hrule.error?_pairs, readFields_inSubclass hc,
          properties_inSubclass hc, Option.map_or, Option.map_or]
        simp only [List.map_findSome?, Function.comp_def, kind_getterFailure, read_inSubclass hc]
      · have hread := hrule.readable hpairs
        have hread' : (o.inSubclass c).Readable := (readable_inSubclass hc).mpr hread
        have hcontributed := contributed_inSubclass hc fun a =>
          (contribution?_inSubclass_iff hc).mpr (h hrule hread a)
        rw [hrule'.pairs_eq, hread'.rulePairs_eq, hcontributed, ← hread.rulePairs_eq,
          ← hrule.pairs_eq, hpairs] at hpairs'
        exact (Except.ok.inj hpairs').symm
  · rw [pairs, pairs, pairsMember?_inSubclass hc, hmember]
    exact kind_ownPairs o (o.inSubclass c) m

/-- Attributes contribute as before if the pairs stay as they are and no two
attributes share a label. -/
theorem contribution?_inSubclass_of_kind (hrule : o.ByRule) (hread : o.Readable)
    (hlabels : ∀ a b label v w, o.Contributes a label v ∨ (o.inSubclass c).Contributes a label v →
      o.Contributes b label w ∨ (o.inSubclass c).Contributes b label w → a = b)
    (hkind : (Value.object (o.inSubclass c)).explode.mapError Obstacle.kind
      = (Value.object o).explode.mapError Obstacle.kind) (a : Text) :
    (o.inSubclass c).contribution? a = o.contribution? a := by
  have hcontributed := contributed_eq_of_kind_explode hrule ((byRule_inSubclass hc).mpr hrule)
    hread ((readable_inSubclass hc).mpr hread) hkind
  ext ⟨label, v⟩
  rw [contribution?_eq_some_iff, contribution?_eq_some_iff]
  constructor
  · intro h
    have hpair := h.get?_contributed fun b w hb => hlabels b a label w v (.inr hb) (.inr h)
    rw [hcontributed] at hpair
    obtain ⟨b, hb⟩ := exists_contributes (mem_of_get?_eq_some hpair)
    obtain rfl := hlabels b a label v v (.inl hb) (.inr h)
    exact hb
  · intro h
    have hpair := h.get?_contributed fun b w hb => hlabels b a label w v (.inl hb) (.inl h)
    rw [← hcontributed] at hpair
    obtain ⟨b, hb⟩ := exists_contributes (mem_of_get?_eq_some hpair)
    obtain rfl := hlabels b a label v v (.inr hb) (.inl h)
    exact hb

/-- **An instance of a class that declares nothing comes apart like one of its
parent**, but for one thing.  A marker that the parent declares for a field with a
marker of its own is in force in the parent only; below it that of the field is.
The pairs, or the code of the refusal, are the same if in every such case both
markers do the same to what is found of the attribute, and only then where no two
attributes share a label. -/
theorem explode_inSubclass_iff :
    (∀ (e : HostClass Value) a, e.SilentOn a → ((o.inSubclass e).marker? a = o.marker? a ↔
        ∀ d m, o.Overrides a d m → d = m)) ∧
      ((o.ByRule → o.Readable →
          ∀ a d m, o.Overrides a d m → d.act (o.unmarked? a) = m.act (o.unmarked? a)) →
        (Value.object (o.inSubclass c)).explode.mapError Obstacle.kind
          = (Value.object o).explode.mapError Obstacle.kind) ∧
      ((∀ a b label v w, o.Contributes a label v ∨ (o.inSubclass c).Contributes a label v →
          o.Contributes b label w ∨ (o.inSubclass c).Contributes b label w → a = b) →
        (Value.object (o.inSubclass c)).explode.mapError Obstacle.kind
          = (Value.object o).explode.mapError Obstacle.kind →
        o.ByRule → o.Readable →
          ∀ a d m, o.Overrides a d m → d.act (o.unmarked? a) = m.act (o.unmarked? a)) := by
  refine ⟨fun e a he => marker?_inSubclass_iff he, fun h => ?_, fun hlabels hkind hrule hread => ?_⟩
  · exact kind_explode (kind_pairs_inSubclass hc h)
  · intro a
    exact (contribution?_inSubclass_iff hc).mp
      (contribution?_inSubclass_of_kind hc hrule hread hlabels hkind a)

end

/-- The marker of a field comes back that excludes an attribute as the declared one
did, beside a property that stays renamed. -/
theorem explode_inSubclass_excluded :
    let base : HostClass Value := ⟨lit "Base", some [⟨lit "id", none, none⟩,
      ⟨lit "token", none, some ⟨none, true⟩⟩], [], [], [], false, none⟩
    let derived : HostClass Value := ⟨lit "P", none,
      [⟨lit "url", some ⟨none, false, .returns (.str (lit "/a"))⟩⟩], [],
      [(lit "token", some ⟨some (lit "t"), true⟩), (lit "url", some ⟨some (lit "u"), false⟩)],
      false, none⟩
    let empty : HostClass Value := ⟨lit "Q", some [], [], [], [], false, none⟩
    let o : HostObject Value :=
      ⟨0, [base, derived], [(lit "id", .int 1), (lit "token", .str (lit "s"))]⟩
    empty.DeclaresNothing o.classes ∧
      (o.inSubclass empty).marker? (lit "token") ≠ o.marker? (lit "token") ∧
      (o.inSubclass empty).marker? (lit "url") = o.marker? (lit "url") ∧
      (Value.object o).explode
        = .ok [(.str (lit "id"), .int 1), (.str (lit "u"), .str (lit "/a"))] ∧
      (Value.object (o.inSubclass empty)).explode.mapError Obstacle.kind
        = .ok [(.str (lit "id"), .int 1), (.str (lit "u"), .str (lit "/a"))] := by
  intro base derived empty o
  have hempty : empty.DeclaresNothing o.classes :=
    ⟨rfl, fun _ => rfl, rfl, rfl, rfl, rfl, rfl⟩
  have htoken : o.Overrides (lit "token") ⟨some (lit "t"), true⟩ ⟨none, true⟩ := ⟨rfl, rfl⟩
  have honly : ∀ a d m, o.Overrides a d m → a = lit "token" := by
    intro a d m h
    obtain ⟨f, hf, hmarker⟩ := Option.bind_eq_some_iff.mp h.field
    have hmem : (a, f) ∈ [(lit "id", (⟨lit "id", none, none⟩ : Field Value)),
      (lit "token", ⟨lit "token", none, some ⟨none, true⟩⟩)] := mem_of_get?_eq_some hf
    rcases List.mem_cons.mp hmem with heq | hmem
    · obtain ⟨-, rfl⟩ := Prod.mk.inj heq
      cases hmarker
    · exact (Prod.mk.inj (List.mem_singleton.mp hmem)).1
  obtain ⟨hmarkers, hsame, -⟩ := explode_inSubclass_iff hempty
  have hrule : o.ByRule := ⟨rfl, rfl⟩
  have hpairs : o.rulePairs = .ok [(lit "id", .int 1), (lit "u", .str (lit "/a"))] := rfl
  have hexplode : (Value.object o).explode
      = .ok [(.str (lit "id"), .int 1), (.str (lit "u"), .str (lit "/a"))] :=
    hrule.explode_eq hpairs
  have hkind := hsame fun _ _ a d m h => by
    obtain rfl := honly a d m h
    obtain rfl := Option.some.inj (htoken.declared.symm.trans h.declared)
    obtain rfl := Option.some.inj (htoken.field.symm.trans h.field)
    cases o.unmarked? (lit "token") <;> rfl
  rw [hexplode] at hkind
  refine ⟨hempty, fun h => ?_, ?_, hexplode, hkind⟩
  · exact absurd ((hmarkers empty _ (hempty.silentOn _)).mp h _ _ htoken) (by decide)
  · exact (hmarkers empty _ (hempty.silentOn _)).mpr fun d m h =>
      absurd (honly _ d m h) (by decide)

/-- **An exclusion is lifted.**  A class excludes an attribute whose field has a
marker that renames it; in its empty subclass the attribute comes out again. -/
theorem explode_inSubclass_restored :
    let base : HostClass Value := ⟨lit "Base", some [⟨lit "id", none, none⟩,
      ⟨lit "token", none, some ⟨some (lit "t"), false⟩⟩], [], [], [], false, none⟩
    let derived : HostClass Value :=
      ⟨lit "P", none, [], [], [(lit "token", some ⟨none, true⟩)], false, none⟩
    let empty : HostClass Value := ⟨lit "Q", none, [], [], [], false, none⟩
    let o : HostObject Value :=
      ⟨0, [base, derived], [(lit "id", .int 1), (lit "token", .str (lit "s"))]⟩
    empty.DeclaresNothing o.classes ∧
      (Value.object o).explode = .ok [(.str (lit "id"), .int 1)] ∧
      (Value.object (o.inSubclass empty)).explode
        = .ok [(.str (lit "id"), .int 1), (.str (lit "t"), .str (lit "s"))] := by
  intro base derived empty o
  have hrule : o.ByRule := ⟨rfl, rfl⟩
  have hpairs : o.rulePairs = .ok [(lit "id", .int 1)] := rfl
  have hrule' : (o.inSubclass empty).ByRule := ⟨rfl, rfl⟩
  have hpairs' : (o.inSubclass empty).rulePairs
      = .ok [(lit "id", .int 1), (lit "t", .str (lit "s"))] := rfl
  exact ⟨⟨rfl, (nomatch ·), rfl, rfl, rfl, rfl, rfl⟩, hrule.explode_eq hpairs,
    hrule'.explode_eq hpairs'⟩

end HostObject

end UriExpansion
