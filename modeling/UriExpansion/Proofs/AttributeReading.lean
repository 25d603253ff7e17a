/-
UriExpansion/Proofs/AttributeReading.lean

When a value that comes out of a host object is the one that reading gives.

Reading by name asks the most derived class that binds the name.  Taking an
object apart asks the state for what it holds, and then every property for its
value, whichever class has bound the name since.  The two part in two ways, which
`HostObject.Stale` lists: something else has been bound over a property, and a
property that has no value stands over an attribute of the state.
`HostObject.read_iff` goes through what the object binds to the name, and
`HostObject.explode_reads_iff` says it of all that comes out of an object.
-/
import UriExpansion.Proofs.AttributeRule

namespace UriExpansion

open Entries

theorem Reading.value?_eq_some_iff {reading : Reading Value} {v : Value} :
    reading.value? = some v ↔ reading = .returns v ∧ v.isNone = false := by
  rcases reading with w | r
  · rw [value?, Reading.returns.injEq]
    split
    · next hnone =>
      refine iff_of_false (Option.some_ne_none v).symm ?_
      rintro ⟨rfl, hv⟩
      exact absurd hnone (ne_true_of_eq_false hv)
    · next hpresent =>
      rw [Option.some_inj]
      refine ⟨?_, And.left⟩
      rintro rfl
      exact ⟨rfl, Bool.not_eq_true _ ▸ hpresent⟩
  · rw [value?]
    simp

/-! ### What a name is bound to -/

namespace HostClass

variable {c : HostClass Value} {a : Text}

/-- A property that a class binds to a name is one that it defines. -/
theorem exists_property_of_binding? {getter : Option (Getter Value)}
    (h : c.binding? a = some (.property getter)) :
    ∃ p, c.properties.findRev? (fun p => p.name = a) = some p ∧ p.getter = getter := by
  rw [binding?] at h
  split at h
  · next p hp => exact ⟨p, hp, ClassBinding.property.inj (Option.some.inj h)⟩
  · split at h
    · cases h
    · obtain ⟨v, -, hv⟩ := Option.map_eq_some_iff.mp h
      cases hv

theorem findRev?_of_binding?_eq_none (h : c.binding? a = none) :
    c.properties.findRev? (fun p => p.name = a) = none := by
  rw [binding?] at h
  split at h
  · cases h
  · assumption

end HostClass

namespace HostObject

/-- The most derived class that binds a name binds this to it. -/
def Binds (o : HostObject Value) (a : Text) (b : ClassBinding) : Prop :=
  ∃ base c derived, o.classes = base ++ c :: derived ∧ c.binding? a = some b ∧
    ∀ d ∈ derived, d.binding? a = none

/-- What comes out for an attribute is not what reading it gives. -/
inductive Stale (o : HostObject Value) (a : Text) : Prop
  /-- A class binds something else than a property to the name, which the property
  of a class before it still gives a value. -/
  | hidden {w v : Value} (binds : o.Binds a (.value w)) (computed : o.computed? a = some v)
    (differs : (get? o.attributes a).getD w ≠ v)
  /-- The state of an object that is no record has a value under the name of a
  property that gives none. -/
  | shadowed {getter : Option (Getter Value)} {v : Value} (binds : o.Binds a (.property getter))
    (computed : o.computed? a = none) (noRecord : o.isRecord = false)
    (held : get? o.attributes a = some v) (present : v.isNone = false)

variable {o : HostObject Value} {a label : Text} {v : Value} {b : ClassBinding}
  {getter : Option (Getter Value)}

theorem classBinding?_eq_some_iff : o.classBinding? a = some b ↔ o.Binds a b := by
  rw [classBinding?, List.findSome?_eq_some_iff]
  constructor
  · rintro ⟨derived, c, base, hclasses, hbinding, hnone⟩
    refine ⟨base.reverse, c, derived.reverse, ?_, hbinding, ?_⟩
    · rw [← List.reverse_reverse o.classes, hclasses]
      simp
    · exact fun d hd => hnone d (List.mem_reverse.mp hd)
  · rintro ⟨base, c, derived, hclasses, hbinding, hnone⟩
    refine ⟨derived.reverse, c, base.reverse, ?_, hbinding, ?_⟩
    · rw [hclasses]
      simp
    · exact fun d hd => hnone d (List.mem_reverse.mp hd)

/-- A name has one meaning. -/
theorem Binds.unique {b' : ClassBinding} (h : o.Binds a b) (h' : o.Binds a b') : b = b' :=
  Option.some.inj ((classBinding?_eq_some_iff.mpr h).symm.trans (classBinding?_eq_some_iff.mpr h'))

theorem classBinding?_eq_none_iff :
    o.classBinding? a = none ↔ ∀ c ∈ o.classes, c.binding? a = none := by
  rw [classBinding?, List.findSome?_eq_none_iff]
  simp only [List.mem_reverse]

/-- A property that is bound to a name is in force. -/
theorem Binds.getter? (h : o.Binds a (.property getter)) : o.getter? a = getter := by
  obtain ⟨base, c, derived, hclasses, hbinding, hnone⟩ := h
  obtain ⟨p, hp, hgetter⟩ := c.exists_property_of_binding? hbinding
  have hlater : derived.reverse.findSome?
      (fun d => d.properties.findRev? fun p => p.name = a) = none :=
    List.findSome?_eq_none_iff.mpr fun d hd =>
      d.findRev?_of_binding?_eq_none (hnone d (List.mem_reverse.mp hd))
  have hproperty : o.property? a = some p := by
    rw [property?, hclasses, List.reverse_append, List.reverse_cons, List.append_assoc,
      List.findSome?_append, hlater, Option.none_or, List.singleton_append, List.findSome?_cons, hp]
  rw [HostObject.getter?, hproperty, Option.bind_some, hgetter]

theorem computed?_of_classBinding?_eq_none (h : o.classBinding? a = none) :
    o.computed? a = none := by
  have hproperty : o.property? a = none := List.findSome?_eq_none_iff.mpr fun c hc =>
    c.findRev?_of_binding?_eq_none
      (classBinding?_eq_none_iff.mp h c (List.mem_reverse.mp hc))
  rw [computed?, getter?, hproperty]
  rfl

/-! ### Reading by name -/

theorem read_of_unbound (h : o.classBinding? a = none) (hv : get? o.attributes a = some v) :
    o.read a = .ok v := by
  rw [read, h, hv]

theorem Binds.read_value {w : Value} (h : o.Binds a (.value w)) :
    o.read a = .ok ((get? o.attributes a).getD w) := by
  rw [read, classBinding?_eq_some_iff.mpr h]

theorem Binds.read_property (h : o.Binds a (.property getter)) :
    o.read a = .ok v ↔ getter.map Getter.reading = some (.returns v) := by
  rw [read, classBinding?_eq_some_iff.mpr h]
  rcases getter with - | ⟨name, transient, w | r⟩ <;> simp

/-- What is held for an attribute is read, or stands in the state. -/
theorem held?_eq_some (h : o.held? a = some v) : v.isNone = false ∧
    (o.read a = .ok v ∨ o.isRecord = false ∧ get? o.attributes a = some v) := by
  obtain ⟨hvalue, hpresent⟩ := Option.filter_eq_some_iff.mp h
  refine ⟨Bool.not_eq_true' .. ▸ hpresent, ?_⟩
  split at hvalue
  · obtain ⟨-, -, hread⟩ := Option.bind_eq_some_iff.mp hvalue
    cases hcase : o.read a with
    | error ob =>
      rw [hcase] at hread
      cases hread
    | ok w =>
      rw [hcase] at hread
      exact .inl (congrArg Except.ok (Option.some.inj hread))
  · next hrecord => exact .inr ⟨Bool.not_eq_true _ ▸ hrecord, hvalue⟩

/-! ### Stale attributes -/

theorem not_stale_of_unbound (h : o.classBinding? a = none) : ¬ o.Stale a := by
  have hunbound : ∀ b, ¬ o.Binds a b := by
    intro b hb
    rw [classBinding?_eq_some_iff.mpr hb] at h
    cases h
  intro hstale
  cases hstale with
  | hidden hb => exact hunbound _ hb
  | shadowed hb => exact hunbound _ hb

theorem Binds.stale_value_iff {w : Value} (h : o.Binds a (.value w)) :
    o.Stale a ↔ ∃ v, o.computed? a = some v ∧ (get? o.attributes a).getD w ≠ v := by
  constructor
  · intro hstale
    cases hstale with
    | hidden hb hcomputed hdiffers =>
      obtain rfl := ClassBinding.value.inj (h.unique hb)
      exact ⟨_, hcomputed, hdiffers⟩
    | shadowed hb => cases h.unique hb
  · rintro ⟨v, hcomputed, hdiffers⟩
    exact .hidden h hcomputed hdiffers

theorem Binds.stale_property_iff (h : o.Binds a (.property getter)) :
    o.Stale a ↔ o.computed? a = none ∧ o.isRecord = false ∧
      ∃ v, get? o.attributes a = some v ∧ v.isNone = false := by
  constructor
  · intro hstale
    cases hstale with
    | hidden hb => cases h.unique hb
    | shadowed _ hcomputed hrecord hheld hpresent =>
      exact ⟨hcomputed, hrecord, _, hheld, hpresent⟩
  · rintro ⟨hcomputed, hrecord, v, hheld, hpresent⟩
    exact .shadowed h hcomputed hrecord hheld hpresent

/-- What contributes is computed or, if nothing is, held. -/
theorem Contributes.value_cases (h : o.Contributes a label v) :
    o.computed? a = some v ∨ o.computed? a = none ∧ o.held? a = some v := by
  have hvalue := h.value
  rcases hcomputed : o.computed? a with - | u
  · rw [hcomputed, Option.none_or] at hvalue
    exact .inr ⟨rfl, hvalue⟩
  · rw [hcomputed, Option.some_or] at hvalue
    exact .inl hvalue

/-- **Reading an attribute gives the value that comes out for it** unless it is
stale. -/
theorem Contributes.read_iff (h : o.Contributes a label v) : o.read a = .ok v ↔ ¬ o.Stale a := by
  rcases hbinding : o.classBinding? a with - | (getter | w)
  · -- no property is in force under a name that no class binds
    refine iff_of_true ?_ (not_stale_of_unbound hbinding)
    obtain hcomputed | ⟨-, hheld⟩ := h.value_cases
    · rw [computed?_of_classBinding?_eq_none hbinding] at hcomputed
      cases hcomputed
    · obtain ⟨-, hread | ⟨-, hattribute⟩⟩ := held?_eq_some hheld
      · exact hread
      · exact read_of_unbound hbinding hattribute
  · have hbinds := classBinding?_eq_some_iff.mp hbinding
    rw [hbinds.stale_property_iff, hbinds.read_property, ← hbinds.getter?]
    obtain hcomputed | ⟨hcomputed, hheld⟩ := h.value_cases
    · -- the property in force gives the value in both ways
      obtain ⟨g, hg, hvalue⟩ := Option.bind_eq_some_iff.mp hcomputed
      obtain ⟨hreading, -⟩ := Reading.value?_eq_some_iff.mp hvalue
      refine iff_of_true ?_ fun hstale => ?_
      · rw [hg, Option.map_some, hreading]
      · rw [hcomputed] at hstale
        cases hstale.1
    · -- a property without a value cannot be read for one, so the state has held it
      obtain ⟨hpresent, hcase⟩ := held?_eq_some hheld
      have hdiffers : (o.getter? a).map Getter.reading ≠ some (.returns v) := by
        intro hreading
        obtain ⟨g, hg, hreturns⟩ := Option.map_eq_some_iff.mp hreading
        rw [computed?, hg, Option.bind_some,
          Reading.value?_eq_some_iff.mpr ⟨hreturns, hpresent⟩] at hcomputed
        cases hcomputed
      refine iff_of_false hdiffers fun hright => ?_
      obtain hread | ⟨hrecord, hattribute⟩ := hcase
      · rw [hbinds.read_property, ← hbinds.getter?] at hread
        exact hdiffers hread
      · exact hright ⟨hcomputed, hrecord, v, hattribute, hpresent⟩
  · have hbinds := classBinding?_eq_some_iff.mp hbinding
    rw [hbinds.stale_value_iff, hbinds.read_value]
    obtain hcomputed | ⟨hcomputed, hheld⟩ := h.value_cases
    · -- the value is that of a property below what is bound
      constructor
      · rintro hread ⟨u, hu, hdiffers⟩
        rw [hcomputed] at hu
        exact hdiffers ((Except.ok.inj hread).trans (Option.some.inj hu))
      · intro hsame
        by_contra hread
        exact hsame ⟨v, hcomputed, fun heq => hread (congrArg Except.ok heq)⟩
    · refine iff_of_true ?_ fun hstale => ?_
      · obtain ⟨-, hread | ⟨-, hattribute⟩⟩ := held?_eq_some hheld
        · rw [← hbinds.read_value, hread]
        · rw [hattribute, Option.getD_some]
      · obtain ⟨u, hu, -⟩ := hstale
        rw [hcomputed] at hu
        cases hu

/-- **What comes out of an object is what reading gives**, attribute by attribute,
unless the attribute is stale; and every pair is that of an attribute that comes
out. -/
theorem explode_reads_iff {found : Found} (h : o.collected = .ok found) :
    (∀ a label v, (a, label, v) ∈ found → (o.read a = .ok v ↔ ¬ o.Stale a)) ∧
      (o.ByRule → ∀ pairs, (Value.object o).explode = .ok pairs →
        ∀ key v, (key, v) ∈ pairs → ∃ a label, key = .str label ∧ (a, label, v) ∈ found) := by
  have hreadable : o.Readable := readable_iff.mpr ⟨found, h⟩
  obtain rfl := Except.ok.inj (h.symm.trans (collected_eq_tabulate hreadable))
  refine ⟨fun a label v hmem => (mem_tabulate_contribution?.mp hmem).read_iff, ?_⟩
  intro hrule pairs hpairs key v hmem
  rw [hrule.explode_eq hreadable.rulePairs_eq] at hpairs
  split at hpairs
  · cases hpairs
  · obtain rfl := Except.ok.inj hpairs
    obtain ⟨⟨label, w⟩, hpair, heq⟩ := List.mem_map.mp hmem
    obtain ⟨rfl, rfl⟩ := Prod.mk.inj heq
    obtain ⟨a, ha⟩ := exists_contributes hpair
    exact ⟨a, label, rfl, mem_tabulate_contribution?.mpr ha⟩

/-- A property in the place of another one, and a property in the place of a field. -/
theorem explode_reads_overridden :
    let base : HostClass Value := ⟨lit "Base", some [⟨lit "id", none, none⟩,
      ⟨lit "key", some (.str (lit "k")), none⟩],
      [⟨lit "url", some ⟨none, false, .returns (.str (lit "/a"))⟩⟩], [], [], false, none⟩
    let derived : HostClass Value := ⟨lit "Page", none,
      [⟨lit "url", some ⟨some (lit "u"), false, .returns (.str (lit "/b"))⟩⟩,
        ⟨lit "key", some ⟨none, false, .returns (.int 2)⟩⟩], [], [], false, none⟩
    let o : HostObject Value := ⟨0, [base, derived], [(lit "id", .int 1)]⟩
    o.collected = .ok [(lit "id", lit "id", .int 1), (lit "key", lit "key", .int 2),
        (lit "url", lit "u", .str (lit "/b"))] ∧
      o.read (lit "id") = .ok (.int 1) ∧ o.read (lit "key") = .ok (.int 2) ∧
      o.read (lit "url") = .ok (.str (lit "/b")) := by
  intro base derived o
  have hfound : o.collected = .ok [(lit "id", lit "id", .int 1), (lit "key", lit "key", .int 2),
      (lit "url", lit "u", .str (lit "/b"))] := rfl
  have hreads := (explode_reads_iff hfound).1
  have hkey : o.Binds (lit "key") (.property (some ⟨none, false, .returns (.int 2)⟩)) :=
    classBinding?_eq_some_iff.mp rfl
  have hurl : o.Binds (lit "url")
      (.property (some ⟨some (lit "u"), false, .returns (.str (lit "/b"))⟩)) :=
    classBinding?_eq_some_iff.mp rfl
  refine ⟨hfound, (hreads _ (lit "id") _ ?_).mpr ?_, (hreads _ (lit "key") _ ?_).mpr ?_,
    (hreads _ (lit "u") _ ?_).mpr ?_⟩
  · simp
  · exact not_stale_of_unbound rfl
  · simp
  · rw [hkey.stale_property_iff]
    exact fun hstale => absurd hstale.2.1 (by decide)
  · simp
  · rw [hurl.stale_property_iff]
    exact fun hstale => absurd hstale.2.1 (by decide)

/-- **The value of a property that is no more.**  A record class has a field with a
default in the place of a property of the class before it: reading gives the
default, and what comes out is the value of the property. -/
theorem explode_reads_stale :
    let base : HostClass Value := ⟨lit "Base", none,
      [⟨lit "a", some ⟨none, false, .returns (.str (lit "old"))⟩⟩], [], [], false, none⟩
    let derived : HostClass Value :=
      ⟨lit "P", some [⟨lit "a", some (.str (lit "new")), none⟩], [], [], [], false, none⟩
    let o : HostObject Value := ⟨0, [base, derived], []⟩
    o.ByRule ∧ o.read (lit "a") = .ok (.str (lit "new")) ∧
      o.collected = .ok [(lit "a", lit "a", .str (lit "old"))] ∧
      (Value.object o).explode = .ok [(.str (lit "a"), .str (lit "old"))] := by
  intro base derived o
  have hrule : o.ByRule := ⟨rfl, rfl⟩
  have hpairs : o.rulePairs = .ok [(lit "a", .str (lit "old"))] := rfl
  exact ⟨hrule, rfl, rfl, hrule.explode_eq hpairs⟩

end HostObject

end UriExpansion
