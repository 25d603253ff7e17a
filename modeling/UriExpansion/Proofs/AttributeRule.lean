/-
UriExpansion/Proofs/AttributeRule.lean

Which attributes of a host object come out of it, one by one.

An object that does not name its pairs is taken apart in three steps, each of
which goes over all attributes.  What becomes of one of them can be told without
the others (`HostObject.contribution?`): it depends on the value that the object
holds for it, on the property in force, and on the marker in force.  The steps
after the first are changes at distinct keys of an ordered map
(`withProperties_eq_alterAll`, `withMarkers_eq_alterAll`), so that they come down
to a table of the contributions in a fixed order (`collected_eq_tabulate`).

`HostObject.rulePairs_pointwise` reads the pairs off this table.
-/
import UriExpansion.Proofs.Entries
import UriExpansion.Proofs.Explosion

namespace UriExpansion

open Entries

/-! ### What is in force for an attribute -/

/-- The value that host code returns, if it returns one that is present. -/
def Reading.value? : Reading Value → Option Value
  | .returns v => if v.isNone then none else some v
  | .raises _ => none

/-- The marker that a class, behind the others of its chain, gives to an
attribute: the one that it declares, or that of its field, which may be
inherited. -/
def HostClass.marker? (before : List (HostClass Value)) (c : HostClass Value) (a : Text) :
    Option Marker :=
  (get? (ofList c.markers) a).join.or ((get? (fieldsOf (before ++ [c])) a).bind Field.marker)

/-- The marker that the most derived class gives that gives one, of a chain of
classes behind others. -/
def chainMarker? (before : List (HostClass Value)) (a : Text) :
    List (HostClass Value) → Option Marker
  | [] => none
  | c :: rest => (chainMarker? (before ++ [c]) a rest).or (c.marker? before a)

namespace HostObject

/-- The property in force, as the most derived class defines it that has one of
this name. -/
def property? (o : HostObject Value) (a : Text) : Option (Property Value) :=
  o.classes.reverse.findSome? fun c => c.properties.findRev? fun p => p.name = a

/-- The getter in force. -/
def getter? (o : HostObject Value) (a : Text) : Option (Getter Value) :=
  (o.property? a).bind Property.getter

/-- The marker in force. -/
def marker? (o : HostObject Value) (a : Text) : Option Marker := chainMarker? [] a o.classes

/-- The names under which an object holds values: the fields of a record, or else
the instance attributes. -/
def heldNames (o : HostObject Value) : List Text :=
  if o.isRecord then o.fields.map Field.name else keys o.attributes

/-- The value that is held under a name, unless it is absent. -/
def held? (o : HostObject Value) (a : Text) : Option Value :=
  (if o.isRecord then (get? (fieldsOf o.classes) a).bind fun _ => (o.read a).toOption
    else get? o.attributes a).filter fun v => !v.isNone

/-- The value that the getter in force returns, unless it is absent. -/
def computed? (o : HostObject Value) (a : Text) : Option Value :=
  (o.getter? a).bind fun getter => getter.reading.value?

/-- Whether a property or a marker excludes the attribute. -/
def isHidden (o : HostObject Value) (a : Text) : Bool :=
  (o.getter? a).any Getter.transient || (o.marker? a).any Marker.transient

/-- The label of an attribute: the name that its marker gives, unless that is
empty, or what the getter gives if the value is its own, or else its own name. -/
def labelOf (o : HostObject Value) (a : Text) : Text :=
  match (o.marker? a).bind Marker.label with
  | some (c :: label) => c :: label
  | _ => if (o.computed? a).isSome then ((o.getter? a).bind Getter.label).getD a else a

/-- What an attribute contributes, a label and a value, if anything. -/
def contribution? (o : HostObject Value) (a : Text) : Option (Text × Value) :=
  if isPublic a && !o.isHidden a then
    ((o.computed? a).or (o.held? a)).map fun v => (o.labelOf a, v)
  else none

/-- The attribute comes out of the object, with this label and this value. -/
structure Contributes (o : HostObject Value) (a label : Text) (v : Value) : Prop where
  /-- The name is public. -/
  isPublic : isPublic a = true
  /-- The value is that of the getter, or else the one that is held. -/
  value : (o.computed? a).or (o.held? a) = some v
  /-- The property in force does not exclude it. -/
  shown : ∀ getter, o.getter? a = some getter → getter.transient = false
  /-- The marker in force does not exclude it. -/
  kept : ∀ m, o.marker? a = some m → m.transient = false
  label : label = o.labelOf a

theorem contribution?_eq_some_iff {o : HostObject Value} {a label : Text} {v : Value} :
    o.contribution? a = some (label, v) ↔ o.Contributes a label v := by
  have hhidden : o.isHidden a = false ↔
      (∀ getter, o.getter? a = some getter → getter.transient = false) ∧
        ∀ m, o.marker? a = some m → m.transient = false := by
    rw [isHidden, Bool.or_eq_false_iff, Option.any_eq_false, Option.any_eq_false]
  rw [contribution?]
  constructor
  · intro h
    split at h
    · next hcond =>
      obtain ⟨hpublic, hshown⟩ := Bool.and_eq_true .. ▸ hcond
      obtain ⟨w, hw, heq⟩ := Option.map_eq_some_iff.mp h
      obtain ⟨rfl, rfl⟩ := Prod.mk.inj heq
      obtain ⟨hgetter, hmarker⟩ := hhidden.mp (Bool.not_eq_true' .. ▸ hshown)
      exact ⟨hpublic, hw, hgetter, hmarker, rfl⟩
    · cases h
  · rintro ⟨hpublic, hvalue, hgetter, hmarker, rfl⟩
    rw [hpublic, hhidden.mpr ⟨hgetter, hmarker⟩, hvalue]
    rfl

/-- The names of the attributes that are held with a value. -/
def firstNames (o : HostObject Value) : List Text :=
  o.heldNames.filter fun a => isPublic a && (o.held? a).isSome

/-- The names of the public properties in order of first definition. -/
def propertyNames (o : HostObject Value) : List Text :=
  (((o.classes.flatMap HostClass.properties).map Property.name).filter isPublic).eraseDups

/-- The order of the attributes: those that are held with a value, then the other
properties. -/
def order (o : HostObject Value) : List Text := extended o.firstNames o.propertyNames

/-- Whatever is read of the object is returned. -/
structure Readable (o : HostObject Value) : Prop where
  fields : ∀ f ∈ o.readFields, ∃ v, o.read f.name = .ok v
  properties : ∀ e ∈ o.properties, e.2.raised? = none

variable {o : HostObject Value}

/-- The steps end in attributes if whatever they read is returned. -/
theorem readable_iff : o.Readable ↔ ∃ found, o.collected = .ok found := by
  rw [← error?_eq_none, error?_collected, Option.or_eq_none_iff, List.findSome?_eq_none_iff,
    List.findSome?_eq_none_iff]
  simp only [error?_eq_none, getterFailure, Option.map_eq_none_iff]
  exact ⟨fun h => ⟨h.fields, h.properties⟩, fun h => ⟨h.1, h.2⟩⟩

/-! ### Markers in force -/

theorem get?_declaredMarkers (c : HostClass Value) (a : Text) :
    get? (declaredMarkers c) a = (get? (ofList c.markers) a).join :=
  get?_filterMap (nodup_keys_ofList c.markers) (fun _ m => m) a

theorem nodup_keys_declaredMarkers (c : HostClass Value) : (keys (declaredMarkers c)).Nodup :=
  nodup_keys_filterMap (nodup_keys_ofList c.markers) fun _ m => m

theorem nodup_keys_fieldsOf (classes : List (HostClass Value)) : (keys (fieldsOf classes)).Nodup :=
  nodup_keys_ofList _

theorem get?_fieldMarkers (classes : List (HostClass Value)) (a : Text) :
    get? (fieldMarkers (fieldsOf classes)) a = (get? (fieldsOf classes) a).bind Field.marker :=
  get?_filterMap (nodup_keys_fieldsOf classes) (fun _ f => f.marker) a

theorem nodup_keys_fieldMarkers (classes : List (HostClass Value)) :
    (keys (fieldMarkers (fieldsOf classes))).Nodup :=
  nodup_keys_filterMap (nodup_keys_fieldsOf classes) fun _ f => f.marker

/-- Markers are collected class by class, and the last one counts. -/
theorem get?_collectMarkers (before : List (HostClass Value)) (found : Entries Text Marker)
    (classes : List (HostClass Value)) (a : Text) :
    get? (collectMarkers before found classes) a
      = (chainMarker? before a classes).or (get? found a) := by
  induction classes generalizing before found with
  | nil => rfl
  | cons c rest ih =>
    rw [collectMarkers, ih, get?_setAll_of_nodup _ (nodup_keys_declaredMarkers c),
      get?_setAll_of_nodup _ (nodup_keys_fieldMarkers _), get?_declaredMarkers,
      get?_fieldMarkers, chainMarker?, HostClass.marker?, Option.or_assoc, Option.or_assoc]

theorem nodup_keys_collectMarkers (before : List (HostClass Value)) {found : Entries Text Marker}
    (h : (keys found).Nodup) (classes : List (HostClass Value)) :
    (keys (collectMarkers before found classes)).Nodup := by
  induction classes generalizing before found with
  | nil => exact h
  | cons c rest ih => exact ih _ (nodup_keys_setAll _ _ (nodup_keys_setAll _ _ h))

theorem nodup_keys_markers (o : HostObject Value) : (keys o.markers).Nodup := by
  refine nodup_keys_collectMarkers [] ?_ o.classes
  exact List.nodup_nil

theorem get?_markers (o : HostObject Value) (a : Text) : get? o.markers a = o.marker? a :=
  (get?_collectMarkers [] [] o.classes a).trans Option.or_none

/-! ### Properties in force -/

theorem get?_properties (o : HostObject Value) (a : Text) :
    get? o.properties a = if isPublic a then o.property? a else none := by
  rw [properties, get?_ofList, ← List.map_reverse, get?_map_name, ← List.filter_reverse,
    List.find?_filter, List.reverse_flatMap, List.find?_flatMap, property?]
  split
  · next hpublic =>
    refine congrArg (List.findSome? · _) (funext fun c => ?_)
    rw [List.findRev?_eq_find?_reverse]
    refine congrArg (List.find? · _) (funext fun p => decide_eq_decide.mpr ?_)
    rw [decide_eq_true_eq]
    exact and_iff_right_of_imp fun hname => hname ▸ hpublic
  · next hprivate =>
    refine List.findSome?_eq_none_iff.mpr fun c _ => List.find?_eq_none.mpr fun p _ h => ?_
    obtain ⟨hpublic, hname⟩ := of_decide_eq_true h
    exact hprivate (of_decide_eq_true hname ▸ hpublic)

theorem keys_properties (o : HostObject Value) : keys o.properties = o.propertyNames := by
  rw [properties, keys_ofList, keys, List.map_map, propertyNames, List.filter_map]
  rfl

theorem nodup_propertyNames (o : HostObject Value) : o.propertyNames.Nodup := by
  rw [← keys_properties]
  exact nodup_keys_ofList _

/-! ### The first step -/

theorem fields_names (o : HostObject Value) :
    o.fields.map Field.name = keys (fieldsOf o.classes) := by
  rw [fields, keys, List.map_map]
  refine List.map_congr_left fun e he => ?_
  obtain ⟨f, -, rfl⟩ := List.mem_map.mp (mem_of_mem_ofList he)
  rfl

theorem nodup_heldNames (o : HostObject Value) : o.heldNames.Nodup := by
  rw [heldNames]
  split
  · rw [fields_names]
    exact nodup_keys_fieldsOf o.classes
  · exact nodup_keys_ofList o.state

theorem held?_eq_none {a : Text} (h : a ∉ o.heldNames) : o.held? a = none := by
  rw [heldNames] at h
  rw [held?]
  split
  · next hrecord =>
    rw [if_pos hrecord, fields_names] at h
    rw [get?_eq_none_iff.mpr h]
    rfl
  · next hrecord =>
    rw [if_neg hrecord] at h
    rw [get?_eq_none_iff.mpr h]
    rfl

/-- The attributes that are found first. -/
def firstFound (o : HostObject Value) : Found :=
  tabulate o.heldNames fun a => if isPublic a then (o.held? a).map fun v => (a, v) else none

theorem keys_firstFound (o : HostObject Value) : keys o.firstFound = o.firstNames := by
  rw [firstFound, keys_tabulate, firstNames]
  refine List.filter_congr fun a _ => ?_
  cases isPublic a <;> simp

theorem get?_firstFound (o : HostObject Value) (a : Text) : get? o.firstFound a
    = if isPublic a then (o.held? a).map fun v => (a, v) else none := by
  rw [firstFound, get?_tabulate]
  split
  · rfl
  · next h => simp [held?_eq_none h]

theorem foundFields_eq {fields : List (Field Value)}
    (h : ∀ f ∈ fields, isPublic f.name = true → ∃ v, o.read f.name = .ok v) :
    o.foundFields fields = .ok (tabulate (fields.map Field.name) fun a =>
      if isPublic a then ((o.read a).toOption.filter fun v => !v.isNone).map fun v => (a, v)
      else none) := by
  induction fields with
  | nil => rfl
  | cons f rest ih =>
    obtain ⟨hf, hrest⟩ := List.forall_mem_cons.mp h
    rw [foundFields, ih hrest, List.map_cons, tabulate_cons]
    split
    · next hpublic =>
      obtain ⟨v, hv⟩ := hf hpublic
      rw [hv]
      show Except.ok (if v.isNone then _ else _) = Except.ok _
      cases hnone : v.isNone <;> simp [Except.toOption, Option.filter_some, hnone]
    · rfl

theorem foundAttributes_eq (o : HostObject Value) : o.foundAttributes
    = tabulate (keys o.attributes) fun a =>
      if isPublic a then ((get? o.attributes a).filter fun v => !v.isNone).map fun v => (a, v)
      else none := by
  have hsteps : o.foundAttributes = o.attributes.filterMap fun e =>
      (if isPublic e.1 then ((some e.2).filter fun v => !v.isNone).map fun v => (e.1, v)
        else none).map (e.1, ·) := by
    rw [foundAttributes, ← List.filterMap_eq_map, List.filterMap_filter]
    refine List.filterMap_congr fun e _ => ?_
    rw [Option.filter_some]
    cases isPublic e.1 <;> cases e.2.isNone <;> rfl
  have hnodup : (keys o.attributes).Nodup := nodup_keys_ofList o.state
  rw [hsteps, filterMap_eq_tabulate hnodup fun a v =>
    if isPublic a then ((some v).filter fun v => !v.isNone).map fun v => (a, v) else none]
  refine tabulate_congr fun a _ => ?_
  cases get? o.attributes a <;> cases isPublic a <;> rfl

theorem Readable.first (h : o.Readable) :
    (if o.isRecord then o.foundFields o.fields else .ok o.foundAttributes) = .ok o.firstFound := by
  rw [firstFound]
  split
  · next hrecord =>
    have hread : ∀ f ∈ o.fields, isPublic f.name = true → ∃ v, o.read f.name = .ok v := by
      intro f hf hpublic
      refine h.fields f ?_
      rw [readFields, if_pos hrecord]
      exact List.mem_filter.mpr ⟨hf, hpublic⟩
    rw [foundFields_eq hread, heldNames, if_pos hrecord]
    refine congrArg Except.ok (tabulate_congr fun a ha => ?_)
    rw [fields_names, ← isSome_get?] at ha
    obtain ⟨f, hf⟩ := Option.isSome_iff_exists.mp ha
    rw [held?, if_pos hrecord, hf, Option.bind_some]
  · next hrecord =>
    rw [foundAttributes_eq, heldNames, if_neg hrecord]
    refine congrArg Except.ok (tabulate_congr fun a _ => ?_)
    rw [held?, if_neg hrecord]

end HostObject

/-! ### The steps after it -/

/-- What a property does to an attribute. -/
def Property.act (a : Text) (p : Property Value) (found : Option (Text × Value)) :
    Option (Text × Value) :=
  match p.getter with
  | none => found
  | some getter =>
    if getter.transient then none
    else match getter.reading.value? with
      | some v => some (getter.label.getD a, v)
      | none => found

theorem Property.act_returns (a name : Text) (label : Option Text) (v : Value) :
    Property.act a ⟨name, some ⟨label, false, .returns v⟩⟩
      = fun found => if v.isNone then found else some (label.getD a, v) := by
  funext found
  simp only [act, Reading.value?]
  cases v.isNone <;> rfl

/-- What a marker does to an attribute. -/
def Marker.act (m : Marker) (found : Option (Text × Value)) : Option (Text × Value) :=
  found.bind fun e => if m.transient then none else
    match m.label with
    | some (c :: label) => some (c :: label, e.2)
    | _ => some e

namespace HostObject

variable {o : HostObject Value}

/-- The second step changes the attributes for which there are properties. -/
theorem withProperties_eq_alterAll (className : Text) (found : Found)
    {properties : List (Text × Property Value)} (h : ∀ e ∈ properties, e.2.raised? = none) :
    withProperties className found properties
      = .ok (alterAll found (properties.map fun e => (e.1, e.2.act e.1))) := by
  induction properties generalizing found with
  | nil => rfl
  | cons e rest ih =>
    obtain ⟨he, hrest⟩ := List.forall_mem_cons.mp h
    obtain ⟨a, ⟨name, getter⟩⟩ := e
    rw [List.map_cons, alterAll_cons, withProperties]
    rcases getter with - | ⟨label, transient, reading⟩
    · rw [alter_eq_self rfl]
      exact ih found hrest
    · cases transient with
      | true => exact ih _ hrest
      | false =>
        rcases reading with v | r
        · rw [Property.act_returns]
          show (if v.isNone then withProperties className found rest
            else withProperties className (Entries.set found a (label.getD a, v)) rest) = _
          split
          · rw [alter_eq_self rfl]
            exact ih found hrest
          · exact ih _ hrest
        · cases he

/-- The third step changes the attributes for which there are markers. -/
theorem applyMarker_eq_alter (found : Found) (a : Text) (m : Marker) :
    applyMarker found a m = alter found a m.act := by
  rw [applyMarker]
  rcases h : get? found a with - | ⟨label, v⟩
  · exact (alter_eq_self (by rw [h]; rfl)).symm
  · obtain ⟨name, transient⟩ := m
    cases transient with
    | true =>
      rw [alter, h]
      rfl
    | false =>
      rcases name with - | (- | ⟨c, name⟩)
      · show found = _
        exact (alter_eq_self (by rw [h]; rfl)).symm
      · show found = _
        exact (alter_eq_self (by rw [h]; rfl)).symm
      · rw [alter, h]
        rfl

theorem withMarkers_eq_alterAll (found : Found) (markers : List (Text × Marker)) :
    withMarkers found markers = alterAll found (markers.map fun e => (e.1, e.2.act)) := by
  rw [withMarkers, alterAll, List.foldl_map]
  simp only [applyMarker_eq_alter]

/-! ### Contributions -/

/-- What is left of an attribute after its property, found so before. -/
theorem property_act_eq (o : HostObject Value) (a : Text) (found : Option (Text × Value)) :
    ((o.property? a).map (Property.act a)).getD id found
      = if (o.getter? a).any Getter.transient then none
        else ((o.computed? a).map fun v =>
          (((o.getter? a).bind Getter.label).getD a, v)).or found := by
  rw [computed?, getter?]
  rcases o.property? a with - | ⟨name, getter⟩
  · rfl
  · rcases getter with - | ⟨label, transient, reading⟩
    · rfl
    · cases transient with
      | true => rfl
      | false =>
        show (match reading.value? with | some v => some (label.getD a, v) | none => found) = _
        simp only [Option.bind_some]
        cases reading.value? <;> simp

theorem contribution?_eq (o : HostObject Value) (a : Text) :
    ((o.marker? a).map Marker.act).getD id
        (((get? o.properties a).map (Property.act a)).getD id (get? o.firstFound a))
      = o.contribution? a := by
  rw [get?_properties, get?_firstFound, contribution?]
  cases isPublic a with
  | false => cases o.marker? a <;> rfl
  | true =>
    simp only [if_true, property_act_eq, Bool.true_and]
    rw [isHidden, labelOf]
    cases (o.getter? a).any Getter.transient with
    | true => cases o.marker? a <;> rfl
    | false =>
      -- only an attribute with a value is changed by a marker
      rcases o.marker? a with - | ⟨name, - | -⟩
      · cases o.computed? a <;> cases o.held? a <;> rfl
      · rcases name with - | (- | ⟨c, name⟩) <;>
          cases o.computed? a <;> cases o.held? a <;> rfl
      · cases o.computed? a <;> cases o.held? a <;> rfl

/-- **The steps come down to a table of contributions.** -/
theorem collected_eq_tabulate (h : o.Readable) :
    o.collected = .ok (tabulate o.order o.contribution?) := by
  let properties := o.properties.map fun e => (e.1, e.2.act e.1)
  let markers := o.markers.map fun e => (e.1, e.2.act)
  have hproperty : ∀ a, get? properties a = (get? o.properties a).map (Property.act a) :=
    get?_map o.properties fun a p => p.act a
  have hmarker : ∀ a, get? markers a = (o.marker? a).map Marker.act := fun a =>
    (get?_map o.markers (fun _ m => m.act) a).trans (by rw [get?_markers])
  have hnames : keys properties = o.propertyNames :=
    (keys_map o.properties fun a p => p.act a).trans o.keys_properties
  have hfirst : (keys o.firstFound).Nodup := by
    rw [keys_firstFound]
    exact o.nodup_heldNames.filter _
  have hproperties : (keys properties).Nodup := by
    rw [hnames]
    exact o.nodup_propertyNames
  have hmarkers : (keys markers).Nodup := by
    rw [keys_map o.markers fun _ m => m.act]
    exact o.nodup_keys_markers
  have hsecond := alterAll_eq_tabulate hfirst hproperties
  rw [keys_firstFound, hnames] at hsecond
  have hthird := alterAll_tabulate (hsecond ▸ nodup_keys_alterAll hfirst properties) hmarkers
    fun a => by
      rw [hmarker]
      cases o.marker? a <;> rfl
  have hcontribution : ∀ a, (get? markers a).getD id
      ((get? properties a).getD id (get? o.firstFound a)) = o.contribution? a := by
    intro a
    rw [hmarker, hproperty, contribution?_eq]
  have hsteps : o.collected
      = ((if o.isRecord then o.foundFields o.fields else .ok o.foundAttributes) >>= fun found =>
        withProperties o.className found o.properties >>= fun found =>
          pure (withMarkers found o.markers)) := by
    rw [collected]
    split <;> rfl
  rw [hsteps, h.first]
  show (withProperties o.className o.firstFound o.properties >>= _) = _
  rw [withProperties_eq_alterAll o.className o.firstFound h.properties]
  show Except.ok (withMarkers (alterAll o.firstFound properties) o.markers) = _
  rw [withMarkers_eq_alterAll, hsecond]
  exact congrArg Except.ok (hthird.trans (tabulate_congr fun a _ => hcontribution a))

theorem nodup_order (o : HostObject Value) : o.order.Nodup :=
  nodup_extended (o.nodup_heldNames.filter _) o.nodup_propertyNames

/-- Whatever contributes has a place in the order. -/
theorem Contributes.mem_order {a label : Text} {v : Value} (h : o.Contributes a label v) :
    a ∈ o.order := by
  rw [order, mem_extended_iff]
  rcases hheld : o.held? a with - | w
  · -- without a value that is held the getter has returned one
    have hvalue : o.computed? a = some v := by
      rw [← h.value, hheld, Option.or_none]
    obtain ⟨getter, hgetter, -⟩ := Option.bind_eq_some_iff.mp hvalue
    obtain ⟨p, hproperty, -⟩ := Option.bind_eq_some_iff.mp hgetter
    have hbound : get? o.properties a = some p := by
      rw [get?_properties, if_pos h.isPublic, hproperty]
    refine .inr ?_
    rw [← keys_properties]
    exact List.mem_map_of_mem (mem_of_get?_eq_some hbound)
  · have hname : a ∈ o.heldNames := by
      by_contra hname
      rw [held?_eq_none hname] at hheld
      cases hheld
    refine .inl (List.mem_filter.mpr ⟨hname, ?_⟩)
    rw [h.isPublic, hheld]
    rfl

theorem mem_tabulate_contribution? {a label : Text} {v : Value} :
    (a, label, v) ∈ tabulate o.order o.contribution? ↔ o.Contributes a label v := by
  rw [← contribution?_eq_some_iff, tabulate, List.mem_filterMap]
  constructor
  · rintro ⟨b, -, hb⟩
    obtain ⟨e, he, heq⟩ := Option.map_eq_some_iff.mp hb
    obtain ⟨rfl, rfl⟩ := Prod.mk.inj heq
    exact he
  · intro h
    exact ⟨a, (contribution?_eq_some_iff.mp h).mem_order, by rw [h, Option.map_some]⟩

/-! ### Pairs -/

/-- The pairs that the contributions make up. -/
def contributed (o : HostObject Value) : Entries Text Value :=
  ofList ((tabulate o.order o.contribution?).map Prod.snd)

theorem Readable.rulePairs_eq (h : o.Readable) : o.rulePairs = .ok o.contributed := by
  rw [rulePairs, collected_eq_tabulate h]
  rfl

theorem exists_contributes {label : Text} {v : Value} (h : (label, v) ∈ o.contributed) :
    ∃ a, o.Contributes a label v := by
  obtain ⟨⟨a, e⟩, he, rfl⟩ := List.mem_map.mp (mem_of_mem_ofList h)
  exact ⟨a, mem_tabulate_contribution?.mp he⟩

/-- An attribute whose label is its own gives the value of the pair. -/
theorem Contributes.get?_contributed {label : Text} {v : Value} (h : o.Contributes a label v)
    (hown : ∀ b w, o.Contributes b label w → b = a) : get? o.contributed label = some v := by
  have hmem : (label, v) ∈ (tabulate o.order o.contribution?).map Prod.snd :=
    List.mem_map_of_mem (f := Prod.snd) (mem_tabulate_contribution?.mpr h)
  have hkey : label ∈ keys ((tabulate o.order o.contribution?).map Prod.snd).reverse :=
    List.mem_map_of_mem (f := Prod.fst) (List.mem_reverse.mpr hmem)
  obtain ⟨w, hw⟩ := Option.isSome_iff_exists.mp ((isSome_get? _ _).mpr hkey)
  obtain ⟨⟨b, e⟩, he, rfl⟩ :=
    List.mem_map.mp (List.mem_reverse.mp (mem_of_get?_eq_some hw))
  have hother := mem_tabulate_contribution?.mp he
  obtain rfl := hown b w hother
  have hsame := (contribution?_eq_some_iff.mpr hother).symm.trans (contribution?_eq_some_iff.mpr h)
  rw [contributed, get?_ofList, hw, (Prod.mk.inj (Option.some.inj hsame)).2]

theorem ByRule.pairs_eq (h : o.ByRule) :
    o.pairs = o.rulePairs.map fun pairs => pairs.map fun e => (Value.str e.1, e.2) := by
  rw [pairs, h.unnamed, h.notCallable]
  rfl

theorem ByRule.readable {pairs : List (Value × Value)} (hrule : o.ByRule)
    (h : o.pairs = .ok pairs) : o.Readable := by
  rw [hrule.pairs_eq] at h
  obtain ⟨contributed, hpairs, -⟩ := map_eq_ok.mp h
  obtain ⟨found, hfound, -⟩ := map_eq_ok.mp hpairs
  exact readable_iff.mpr ⟨found, hfound⟩

theorem ByRule.explode_eq {found : Entries Text Value} (hrule : o.ByRule)
    (h : o.rulePairs = .ok found) : (Value.object o).explode
      = if found.isEmpty then .error (.cause (.noPairs o.className))
        else .ok (found.map fun e => (.str e.1, e.2)) := by
  have hpairs : o.pairs = .ok (found.map fun e => (Value.str e.1, e.2)) := by
    rw [hrule.pairs_eq, h]
    rfl
  rw [Value.explode_of_pairs_eq_ok hpairs, List.isEmpty_map]

/-- **An object is taken apart attribute by attribute.**  The attributes that
come out are those that contribute, each once and in a fixed order: those that
are held with a value, then the other properties.  Of attributes with one label
the first gives the place of the pair and the last its value. -/
theorem rulePairs_pointwise (h : o.Readable) :
    ∃ found pairs, o.collected = .ok found ∧ o.rulePairs = .ok pairs ∧
      (∀ a label v, (a, label, v) ∈ found ↔ o.Contributes a label v) ∧
      (keys found).Sublist o.order ∧ o.order.Nodup ∧
      keys pairs = (found.map fun e => e.2.1).eraseDups ∧
      (∀ label, get? pairs label = get? (found.map Prod.snd).reverse label) ∧
      (o.ByRule → (Value.object o).explode
        = if pairs.isEmpty then .error (.cause (.noPairs o.className))
          else .ok (pairs.map fun e => (.str e.1, e.2))) := by
  have hcollected := collected_eq_tabulate h
  have hpairs : o.rulePairs
      = .ok (ofList ((tabulate o.order o.contribution?).map Prod.snd)) := by
    rw [rulePairs, hcollected]
    rfl
  refine ⟨_, _, hcollected, hpairs, fun a label v => mem_tabulate_contribution?, ?_,
    o.nodup_order, ?_, get?_ofList _, ?_⟩
  · rw [keys_tabulate]
    exact List.filter_sublist
  · rw [keys_ofList, keys, List.map_map]
    rfl
  · intro hrule
    have hexplode : o.pairs = .ok ((ofList ((tabulate o.order o.contribution?).map Prod.snd)).map
        fun e => (Value.str e.1, e.2)) := by
      rw [pairs, hrule.unnamed, hrule.notCallable, hpairs]
      rfl
    rw [Value.explode_of_pairs_eq_ok hexplode, List.isEmpty_map]

/-- A property and a field with one label, and a field that a property excludes. -/
theorem rulePairs_pointwise_collision :
    let base : HostClass Value := ⟨lit "Base", some [⟨lit "id", none, none⟩,
      ⟨lit "title", none, some ⟨some (lit "t"), false⟩⟩, ⟨lit "key", none, none⟩],
      [], [], [], false, none⟩
    let derived : HostClass Value := ⟨lit "Page", none,
      [⟨lit "url", some ⟨some (lit "u"), false, .returns (.str (lit "/a"))⟩⟩,
        ⟨lit "key", some ⟨none, true, .returns (.str (lit "k"))⟩⟩,
        ⟨lit "draft", some ⟨none, false, .returns .none⟩⟩],
      [], [(lit "url", some ⟨some (lit "t"), false⟩)], false, none⟩
    let o : HostObject Value := ⟨0, [base, derived],
      [(lit "id", .int 1), (lit "title", .str (lit "A")), (lit "_new", .bool true)]⟩
    o.Readable ∧ o.ByRule ∧ o.Contributes (lit "title") (lit "t") (.str (lit "A")) ∧
      o.Contributes (lit "url") (lit "t") (.str (lit "/a")) ∧
      (∀ label v, ¬ o.Contributes (lit "key") label v) ∧
      (Value.object o).explode
        = .ok [(.str (lit "id"), .int 1), (.str (lit "t"), .str (lit "/a"))] := by
  intro base derived o
  have hreadable : o.Readable := by
    refine ⟨?_, ?_⟩
    · show ∀ f ∈ [_, _, _], _
      simp only [List.forall_mem_cons]
      exact ⟨⟨_, rfl⟩, ⟨_, rfl⟩, ⟨_, rfl⟩, List.forall_mem_nil _⟩
    · show ∀ e ∈ [_, _, _], _
      simp only [List.forall_mem_cons]
      exact ⟨rfl, rfl, rfl, List.forall_mem_nil _⟩
  have hfound : o.collected = .ok [(lit "id", lit "id", .int 1),
      (lit "title", lit "t", .str (lit "A")), (lit "url", lit "t", .str (lit "/a"))] := rfl
  have hpairs : o.rulePairs = .ok [(lit "id", .int 1), (lit "t", .str (lit "/a"))] := rfl
  obtain ⟨found, pairs, hcollected, hrule, hmem, -, -, -, -, hexplode⟩ :=
    rulePairs_pointwise hreadable
  obtain rfl := Except.ok.inj (hfound.symm.trans hcollected)
  obtain rfl := Except.ok.inj (hpairs.symm.trans hrule)
  refine ⟨hreadable, ⟨rfl, rfl⟩, ?_, ?_, ?_, ?_⟩
  · refine (hmem _ _ _).mp ?_
    simp
  · refine (hmem _ _ _).mp ?_
    simp
  · intro label v hkey
    have hname : lit "key" ∈ [lit "id", lit "title", lit "url"] :=
      List.mem_map_of_mem (f := Prod.fst) ((hmem _ _ _).mpr hkey)
    exact absurd hname (by decide)
  · exact hexplode ⟨rfl, rfl⟩

end HostObject

end UriExpansion
