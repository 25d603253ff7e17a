/-
UriExpansion/Proofs/Explosion.lean

How taking a value apart fails.

Host code can fail in three places while a host object is taken apart
(`HostObject.Call`): where the object names its own pairs, where a field of a
record is read by name, and where a getter is asked for the value of its
property.  The first and the last are guarded, and an error there becomes a
refusal.  A field is read without a guard, so that a property which hides it,
or the want of a value, can end the explosion outside the error envelope
(`HostObject.Unread`).  What is no error passes every guard.
`Value.explode_enveloped_iff` says that nothing else leaves the envelope
(`HostObject.Escapes`).
-/
import UriExpansion.Proofs.Policy

namespace UriExpansion

/-! ### Getters that fail -/

/-- How host code fails, if it does. -/
def Reading.raised? {α : Type} : Reading α → Option Raised
  | .returns _ => none
  | .raises r => some r

/-- How asking a property for its value fails, if it does.  The getter of a
transient property is not asked. -/
def Property.raised? {α : Type} (p : Property α) : Option Raised :=
  p.getter.bind fun getter => if getter.transient then none else getter.reading.raised?

/-- The code of an error of resolution that host code announces. -/
def Raised.announced? : Raised → Option Text
  | .resolution code _ => some code
  | _ => none

/-- A guard against errors holds this back. -/
def Raised.isError : Raised → Bool
  | .interrupt _ => false
  | _ => true

/-- The code of a failure of host code that is guarded. -/
def explodeFailed : Text := lit "E_EXPLODE_FAILED"

namespace HostObject

/-- How the code fails with which an object names its pairs, if it does. -/
def PairsMember.raised? : PairsMember → Option Raised
  | .method r => r.raised?
  | .property getter => getter.bind fun getter => getter.reading.raised?
  | .value _ => none

variable {o : HostObject Value}

/-! ### Objects taken apart by rule -/

/-- The object does not name its pairs itself and can be taken apart. -/
structure ByRule (o : HostObject Value) : Prop where
  unnamed : o.pairsMember? = none
  notCallable : o.isCallable = false

/-- The fields that are read by name: the public ones of a record. -/
def readFields (o : HostObject Value) : List (Field Value) :=
  if o.isRecord then o.fields.filter fun f => isPublic f.name else []

theorem error?_foundFields (o : HostObject Value) (fields : List (Field Value)) :
    error? (o.foundFields fields)
      = (fields.filter fun f => isPublic f.name).findSome? fun f => error? (o.read f.name) := by
  induction fields with
  | nil => rfl
  | cons f rest ih =>
    rw [foundFields, List.filter_cons]
    split
    · -- what stands behind a field is asked for only if the field can be read
      rw [List.findSome?_cons, ← ih]
      rcases o.read f.name with ob | v
      · rfl
      · rcases o.foundFields rest with ob | found <;> rfl
    · exact ih

/-- The refusal of a property whose getter failed. -/
def getterFailure (className : Text) (e : Text × Property Value) : Option Obstacle :=
  e.2.raised?.map (propertyFailure e.1 className)

theorem error?_withProperties (className : Text) (found : Found)
    (properties : List (Text × Property Value)) :
    error? (withProperties className found properties)
      = properties.findSome? (getterFailure className) := by
  induction properties generalizing found with
  | nil => rfl
  | cons e rest ih =>
    obtain ⟨name, ⟨pname, getter⟩⟩ := e
    rw [withProperties, List.findSome?_cons]
    rcases getter with - | ⟨label, transient, reading⟩
    · exact ih found
    · cases transient with
      | true => exact ih _
      | false =>
        rcases reading with v | r
        · -- the property adds or replaces a value, or it is absent
          show error? (if v.isNone then _ else _) = _
          split
          · exact ih found
          · exact ih _
        · cases r <;> rfl

theorem error?_collected (o : HostObject Value) :
    error? o.collected = (o.readFields.findSome? fun f => error? (o.read f.name)).or
      (o.properties.findSome? (getterFailure o.className)) := by
  have hproperties : ∀ found : Found, error? (withProperties o.className found o.properties >>=
      fun found => pure (withMarkers found o.markers))
      = o.properties.findSome? (getterFailure o.className) := by
    intro found
    rw [← error?_withProperties o.className found]
    rcases withProperties o.className found o.properties with ob | found <;> rfl
  unfold collected readFields
  split
  · rw [← error?_foundFields]
    rcases o.foundFields o.fields with ob | found
    · rfl
    · exact hproperties found
  · exact hproperties o.foundAttributes

theorem ByRule.error?_pairs (h : o.ByRule) :
    error? o.pairs = (o.readFields.findSome? fun f => error? (o.read f.name)).or
      (o.properties.findSome? (getterFailure o.className)) := by
  unfold pairs
  rw [h.unnamed, h.notCallable, ← error?_collected]
  show error? ((o.collected.map _).map _) = _
  rw [error?_map, error?_map]

/-! ### Objects that name their pairs -/

/-- An error in naming the pairs is a refusal, with the code that the object
announces if it announces one. -/
theorem pairsFailure_eq (o : HostObject Value) {r : Raised} (h : r.isError = true) :
    ∃ c, o.pairsFailure r = .cause c ∧ c.code = r.announced?.getD explodeFailed := by
  cases r with
  | runtime message => exact ⟨_, rfl, rfl⟩
  | value message => exact ⟨_, rfl, rfl⟩
  | resolution code message => exact ⟨_, rfl, rfl⟩
  | interrupt message => cases h

theorem pairsFailure_eq_fault_iff {o : HostObject Value} {r : Raised} {f : Fault} :
    o.pairsFailure r = .fault f ↔ ∃ message, r = .interrupt message ∧ f = .interrupted message := by
  cases r <;> simp [pairsFailure, eq_comm]

theorem propertyFailure_eq_fault_iff {name className : Text} {r : Raised} {f : Fault} :
    propertyFailure name className r = .fault f ↔
      ∃ message, r = .interrupt message ∧ f = .interrupted message := by
  cases r <;> simp [propertyFailure, eq_comm]

theorem ownPairs_of_raised? (o : HostObject Value) {m : PairsMember} {r : Raised}
    (h : m.raised? = some r) : o.ownPairs m = .error (o.pairsFailure r) := by
  cases m with
  | method reading =>
    cases reading with
    | returns v => cases h
    | raises r' =>
      obtain rfl := Option.some.inj h
      rfl
  | property getter =>
    obtain ⟨getter, rfl, hraised⟩ := Option.bind_eq_some_iff.mp h
    obtain ⟨label, transient, reading⟩ := getter
    cases reading with
    | returns v => cases hraised
    | raises r' =>
      obtain rfl := Option.some.inj hraised
      rfl
  | value v => cases h

/-- An object that fails to name its pairs is refused, unless it interrupts the
program. -/
theorem ownPairs_eq_fault_iff {m : PairsMember} {f : Fault} :
    o.ownPairs m = .error (.fault f) ↔
      ∃ message, m.raised? = some (.interrupt message) ∧ f = .interrupted message := by
  rcases hraised : m.raised? with - | r
  · -- without a failure of host code there are pairs, or a refusal of what is there instead
    have hnone : ∀ f, o.ownPairs m ≠ .error (.fault f) := by
      intro f
      rcases m with (v | r) | (- | ⟨label, transient, v | r⟩) | v
      · rw [ownPairs]
        rcases v.toEntries with wording | entries <;> exact fun h => nomatch h
      · cases hraised
      · exact fun h => nomatch h
      · exact fun h => nomatch h
      · cases hraised
      · exact fun h => nomatch h
    exact ⟨fun h => absurd h (hnone f), fun ⟨_, h, _⟩ => nomatch h⟩
  · rw [o.ownPairs_of_raised? hraised]
    simp only [Except.error.injEq, Option.some.injEq]
    exact pairsFailure_eq_fault_iff

/-! ### Fields that cannot be read -/

/-- Reading this field fails so, and it is the first that the object is asked for. -/
structure Unread (o : HostObject Value) (f : Field Value) (ob : Obstacle) : Prop where
  rule : o.ByRule
  first : ∃ before after, o.readFields = before ++ f :: after ∧
    ∀ g ∈ before, ∃ v, o.read g.name = .ok v
  fails : o.read f.name = .error ob

theorem findSome?_readFields {ob : Obstacle} (hrule : o.ByRule) :
    (o.readFields.findSome? fun f => error? (o.read f.name)) = some ob ↔
      ∃ f, o.Unread f ob := by
  simp only [List.findSome?_eq_some_iff, error?_eq_some, error?_eq_none]
  constructor
  · rintro ⟨before, f, after, hfields, hfails, hbefore⟩
    exact ⟨f, hrule, ⟨before, after, hfields, hbefore⟩, hfails⟩
  · rintro ⟨f, -, ⟨before, after, hfields, hbefore⟩, hfails⟩
    exact ⟨before, f, after, hfields, hfails, hbefore⟩

theorem Unread.pairs {f : Field Value} {ob : Obstacle} (h : o.Unread f ob) :
    o.pairs = .error ob := by
  rw [← error?_eq_some, h.rule.error?_pairs, (findSome?_readFields h.rule).mpr ⟨f, h⟩]
  rfl

/-! ### Host code that fails -/

/-- Where host code runs while an object is taken apart. -/
inductive Call
  /-- The object names its pairs. -/
  | ownPairs
  /-- A record field is read by name. -/
  | field
  /-- A getter is asked for the value of its property. -/
  | property
  deriving DecidableEq, Repr

/-- Taking the object apart runs host code there, which fails so. -/
inductive Raises (o : HostObject Value) : Call → Raised → Prop
  | ownPairs {m : PairsMember} {r : Raised} (hm : o.pairsMember? = some m)
      (hr : m.raised? = some r) : Raises o .ownPairs r
  | field {f : Field Value} {getter : Getter Value} {r : Raised} (hf : o.Unread f (unguarded r))
      (hbinding : o.classBinding? f.name = some (.property (some getter)))
      (hr : getter.reading = .raises r) : Raises o .field r
  | property {before after : List (Text × Property Value)} {name : Text} {p : Property Value}
      {r : Raised} (hrule : o.ByRule) (hfields : ∀ f ∈ o.readFields, ∃ v, o.read f.name = .ok v)
      (hproperties : o.properties = before ++ (name, p) :: after)
      (hbefore : ∀ e ∈ before, e.2.raised? = none) (hr : p.raised? = some r) :
      Raises o .property r

theorem Raises.pairs_ownPairs {r : Raised} (h : o.Raises .ownPairs r) :
    o.pairs = .error (o.pairsFailure r) := by
  cases h with
  | ownPairs hm hr =>
    rw [pairs, hm]
    exact o.ownPairs_of_raised? hr

theorem Raises.pairs_field {r : Raised} (h : o.Raises .field r) :
    o.pairs = .error (unguarded r) := by
  cases h with
  | field hf hbinding hr => exact hf.pairs

theorem Raises.pairs_property {r : Raised} (h : o.Raises .property r) :
    ∃ name, o.pairs = .error (propertyFailure name o.className r) := by
  cases h with
  | @property before after name p r hrule hfields hproperties hbefore hr =>
    refine ⟨name, ?_⟩
    have hread : (o.readFields.findSome? fun f => error? (o.read f.name)) = none :=
      List.findSome?_eq_none_iff.mpr fun f hf => error?_eq_none.mpr (hfields f hf)
    rw [← error?_eq_some, hrule.error?_pairs, hread, Option.none_or,
      List.findSome?_eq_some_iff]
    refine ⟨before, (name, p), after, hproperties, ?_, ?_⟩
    · rw [getterFailure, hr]
      rfl
    · intro e he
      rw [getterFailure, hbefore e he]
      rfl

/-- Taking the object apart ends so outside the error envelope. -/
inductive Escapes (o : HostObject Value) : Fault → Prop
  | unread {field : Field Value} {f : Fault} (h : o.Unread field (.fault f)) : Escapes o f
  | interrupted {call : Call} {message : Text} (h : o.Raises call (.interrupt message)) :
      Escapes o (.interrupted message)

/-- **Only a field that cannot be read and an interruption of the program get past
the guards.** -/
theorem pairs_eq_fault_iff {f : Fault} : o.pairs = .error (.fault f) ↔ o.Escapes f := by
  constructor
  · intro h
    rcases hnamed : o.pairsMember? with - | m
    · -- an object that can be called is refused, any other is taken apart by rule
      have hrule : o.ByRule := by
        refine ⟨hnamed, Bool.eq_false_iff.mpr fun hcallable => ?_⟩
        rw [pairs, hnamed, hcallable] at h
        cases h
      rw [← error?_eq_some, hrule.error?_pairs, Option.or_eq_some_iff] at h
      rcases h with hfield | ⟨hread, hgetter⟩
      · obtain ⟨field, hunread⟩ := (findSome?_readFields hrule).mp hfield
        exact .unread hunread
      · obtain ⟨before, ⟨name, p⟩, after, hproperties, hfails, hbefore⟩ :=
          List.findSome?_eq_some_iff.mp hgetter
        obtain ⟨r, hr, hfailure⟩ := Option.map_eq_some_iff.mp hfails
        obtain ⟨message, rfl, rfl⟩ := propertyFailure_eq_fault_iff.mp hfailure
        exact .interrupted (.property hrule
          (fun f hf => error?_eq_none.mp (List.findSome?_eq_none_iff.mp hread f hf)) hproperties
          (fun e he => Option.map_eq_none_iff.mp (hbefore e he)) hr)
    · rw [pairs, hnamed] at h
      obtain ⟨message, hr, rfl⟩ := ownPairs_eq_fault_iff.mp h
      exact .interrupted (.ownPairs hnamed hr)
  · rintro (⟨h⟩ | @⟨call, message, h⟩)
    · exact h.pairs
    · cases call with
      | ownPairs => exact h.pairs_ownPairs
      | field => exact h.pairs_field
      | property =>
        obtain ⟨name, hpairs⟩ := h.pairs_property
        exact hpairs

end HostObject

/-! ### Values -/

namespace Value

variable {o : HostObject Value}

theorem explode_of_pairs_eq_error {ob : Obstacle} (h : o.pairs = .error ob) :
    (object o).explode = .error ob := by
  unfold explode
  simp only [h]
  rfl

theorem explode_of_pairs_eq_ok {pairs : List (Value × Value)} (h : o.pairs = .ok pairs) :
    (object o).explode
      = if pairs.isEmpty then .error (.cause (.noPairs o.className)) else .ok pairs := by
  unfold explode
  simp only [h]
  cases pairs <;> rfl

/-- An object without pairs is refused. -/
theorem explode_object (o : HostObject Value) : (object o).explode
    = o.pairs >>= fun pairs =>
      if pairs.isEmpty then .error (.cause (.noPairs o.className)) else .ok pairs := by
  rcases hpairs : o.pairs with ob | pairs
  · exact explode_of_pairs_eq_error hpairs
  · exact explode_of_pairs_eq_ok hpairs

theorem ne_nil_of_explode {v : Value} {pairs : List (Value × Value)} (h : v.explode = .ok pairs) :
    pairs ≠ [] := by
  rintro rfl
  cases v with
  | object o =>
    rcases hpairs : o.pairs with ob | pairs
    · rw [explode_of_pairs_eq_error hpairs] at h
      cases h
    · rw [explode_of_pairs_eq_ok hpairs] at h
      cases pairs <;> cases h
  | _ => cases h

theorem explode_object_eq_fault_iff {f : Fault} :
    (object o).explode = .error (.fault f) ↔ o.Escapes f := by
  rw [← HostObject.pairs_eq_fault_iff]
  rcases hpairs : o.pairs with ob | pairs
  · rw [explode_of_pairs_eq_error hpairs]
  · -- pairs are passed on, or refused if there are none
    rw [explode_of_pairs_eq_ok hpairs]
    constructor
    · intro h
      cases pairs <;> cases h
    · exact fun h => nomatch h

/-- **Taking a value apart ends in a fault only where a host object takes one past
the guards.** -/
theorem explode_eq_fault_iff {v : Value} {f : Fault} :
    v.explode = .error (.fault f) ↔ ∃ o, v = object o ∧ o.Escapes f := by
  constructor
  · intro h
    cases v with
    | object o => exact ⟨o, rfl, explode_object_eq_fault_iff.mp h⟩
    | _ => cases h
  · rintro ⟨o, rfl, hescapes⟩
    exact explode_object_eq_fault_iff.mpr hescapes

/-- Any other value is taken apart or refused. -/
theorem explode_settles_iff {v : Value} :
    ((∃ pairs, pairs ≠ [] ∧ v.explode = .ok pairs) ∨ ∃ c, v.explode = .error (.cause c)) ↔
      ∀ o, v = object o → ∀ f, ¬ o.Escapes f := by
  constructor
  · intro h o ho f hescapes
    have hfault := explode_eq_fault_iff.mpr ⟨o, ho, hescapes⟩
    rcases h with ⟨pairs, -, hok⟩ | ⟨c, hcause⟩
    · rw [hok] at hfault
      cases hfault
    · rw [hcause] at hfault
      cases hfault
  · intro h
    rcases hexplode : v.explode with (c | f) | pairs
    · exact .inr ⟨c, rfl⟩
    · obtain ⟨o, ho, hescapes⟩ := explode_eq_fault_iff.mp hexplode
      exact absurd hescapes (h o ho f)
    · exact .inl ⟨pairs, ne_nil_of_explode hexplode, rfl⟩

/-- A host object's resolution ends in a fault where its explosion does, or
where the text of a pair does. -/
theorem resolve_object_eq_fault_iff {s : Settings} {f : Fault} :
    (object o).resolve s = .error (.fault f) ↔ o.Escapes f ∨
      ∃ pairs, (object o).explode = .ok pairs ∧ pairTexts s pairs = .error (.fault f) := by
  have hresolve : (object o).resolve s
      = (object o).explode >>= fun pairs => (pairTexts s pairs).map .ofPairs := rfl
  rw [hresolve, ← explode_object_eq_fault_iff]
  rcases (object o).explode with ob | pairs
  · constructor
    · intro h
      obtain rfl := Except.error.inj h
      exact .inl rfl
    · rintro (h | ⟨pairs, h, -⟩)
      · obtain rfl := Except.error.inj h
        rfl
      · cases h
  · show (pairTexts s pairs).map _ = _ ↔ _
    rw [← error?_eq_some, error?_map, error?_eq_some]
    constructor
    · exact fun h => .inr ⟨pairs, rfl, h⟩
    · rintro (h | ⟨pairs', h, htexts⟩)
      · cases h
      · obtain rfl := Except.ok.inj h
        exact htexts

end Value

/-! ### Getters -/

namespace HostObject

variable {o : HostObject Value}

theorem Raises.explode_ownPairs {r : Raised} (h : o.Raises .ownPairs r) (hr : r.isError = true) :
    ∃ c, (Value.object o).explode = .error (.cause c) ∧
      c.code = r.announced?.getD explodeFailed := by
  obtain ⟨c, hc, hcode⟩ := o.pairsFailure_eq hr
  exact ⟨c, Value.explode_of_pairs_eq_error (hc ▸ h.pairs_ownPairs), hcode⟩

theorem Raises.explode_field {r : Raised} (h : o.Raises .field r) :
    (Value.object o).explode = .error (unguarded r) :=
  Value.explode_of_pairs_eq_error h.pairs_field

theorem Raises.explode_property {r : Raised} (h : o.Raises .property r) (hr : r.isError = true) :
    ∃ c, (Value.object o).explode = .error (.cause c) ∧ c.code = explodeFailed := by
  obtain ⟨name, hpairs⟩ := h.pairs_property
  refine ⟨.getterFailed name o.className (detail r), Value.explode_of_pairs_eq_error ?_, rfl⟩
  rw [hpairs]
  cases r with
  | interrupt message => cases hr
  | _ => rfl

/-- **A failing getter ends in the refusal of a failed explosion** if it fails with
an error, and is asked under a guard and its error is not passed on as it is, or
that is the code that it announces. -/
theorem Raises.code_iff {call : Call} {r : Raised} (h : o.Raises call r) :
    (∃ c, (Value.object o).explode = .error (.cause c) ∧ c.code = explodeFailed) ↔
      r.isError = true ∧ (call = .property ∨ call = .ownPairs ∧ r.announced? = none ∨
        r.announced? = some explodeFailed) := by
  rcases herror : r.isError with - | -
  · -- an interruption is no refusal, wherever it comes from
    obtain ⟨message, rfl⟩ : ∃ message, r = .interrupt message := by
      cases r with
      | interrupt message => exact ⟨message, rfl⟩
      | _ => cases herror
    rw [Value.explode_object_eq_fault_iff.mpr (.interrupted h)]
    simp
  rw [eq_self_iff_true, true_and]
  cases call with
  | ownPairs =>
    obtain ⟨c, hexplode, hcode⟩ := h.explode_ownPairs herror
    have hrefused : (∃ c, (Value.object o).explode = .error (.cause c) ∧ c.code = explodeFailed) ↔
        r.announced?.getD explodeFailed = explodeFailed := by
      rw [hexplode, ← hcode]
      constructor
      · rintro ⟨c', hc, hcode'⟩
        obtain rfl := Obstacle.cause.inj (Except.error.inj hc)
        exact hcode'
      · exact fun h => ⟨c, rfl, h⟩
    rw [hrefused]
    rcases r.announced? with - | code
    · simp
    · simp
  | field =>
    rw [h.explode_field]
    cases r with
    | resolution code message => simp [unguarded, Raised.announced?, ResolutionCause.code]
    | _ => simp [unguarded, Raised.announced?]
  | property =>
    exact ⟨fun _ => .inl rfl, fun _ => h.explode_property herror⟩

end HostObject

/-! ### The envelope -/

namespace Template

/-- Where refusals are not final, an expansion whose other values resolve
succeeds if its host objects can be read and their pairs written. -/
theorem exists_expand_iff_objects {t : Template} (hsound : ∀ c ∈ t.components, c.Sound)
    {store : Store} {s : Settings} (hp : s.onResolutionError ≠ .abort)
    (hothers : ∀ x ∈ t.occurrences, ∀ v, store.get? x.2.name = some v → (∀ o, v ≠ .object o) →
      ∀ f, v.resolve s ≠ .error (.fault f)) :
    (∃ out, t.expand store s = .ok out) ↔
      ∀ x ∈ t.occurrences, ∀ o, store.get? x.2.name = some (.object o) →
        (∀ f, ¬ o.Escapes f) ∧
        ∀ pairs f, (Value.object o).explode = .ok pairs →
          Value.pairTexts s pairs ≠ .error (.fault f) := by
  rw [exists_expand_iff_resolve hsound store hp]
  refine forall₂_congr fun x hx => ⟨?_, ?_⟩
  · intro h o ho
    constructor
    · intro f hescapes
      exact h _ f ho (Value.resolve_object_eq_fault_iff.mpr (.inl hescapes))
    · intro pairs f hpairs htexts
      exact h _ f ho (Value.resolve_object_eq_fault_iff.mpr (.inr ⟨pairs, hpairs, htexts⟩))
  · intro h v f hv hfault
    by_cases hobject : ∃ o, v = .object o
    · obtain ⟨o, rfl⟩ := hobject
      obtain ⟨hread, htexts⟩ := h o hv
      rcases Value.resolve_object_eq_fault_iff.mp hfault with hescapes | ⟨pairs, hp, ht⟩
      · exact hread f hescapes
      · exact htexts pairs f hp ht
    · exact hothers x hx v hv (fun o ho => hobject ⟨o, ho⟩) f hfault

end Template

namespace Value

/-- **A value is taken apart or refused, unless it is a record with a field that
cannot be read or its code interrupts the program.**  A getter that fails with an
error is reported as a failed explosion where it is asked under a guard, and a
record field is read without one.  So a host object ends an expansion for which
refusals are not final only in one of these two ways, or with a pair whose text
cannot be made. -/
theorem explode_enveloped_iff (v : Value) :
    (((∃ pairs, pairs ≠ [] ∧ v.explode = .ok pairs) ∨ ∃ c, v.explode = .error (.cause c)) ↔
        ∀ o, v = object o → ∀ f, ¬ o.Escapes f) ∧
      (∀ o call r, v = object o → o.Raises call r →
        ((∃ c, v.explode = .error (.cause c) ∧ c.code = lit "E_EXPLODE_FAILED") ↔
          r.isError = true ∧ (call = .property ∨ call = .ownPairs ∧ r.announced? = .none ∨
            r.announced? = some (lit "E_EXPLODE_FAILED")))) ∧
      ∀ source t, Template.parse source = .ok t → ∀ (store : Store) (s : Settings),
        s.onResolutionError ≠ .abort →
        (∀ x ∈ t.occurrences, ∀ w, store.get? x.2.name = some w → (∀ o, w ≠ object o) →
          ∀ f, w.resolve s ≠ .error (.fault f)) →
        ((∃ out, t.expand store s = .ok out) ↔
          ∀ x ∈ t.occurrences, ∀ o, store.get? x.2.name = some (object o) →
            (∀ f, ¬ o.Escapes f) ∧
            ∀ pairs f, (object o).explode = .ok pairs → pairTexts s pairs ≠ .error (.fault f)) := by
  refine ⟨explode_settles_iff, ?_, ?_⟩
  · rintro o call r rfl hraises
    exact hraises.code_iff
  · intro source t ht store s hp hothers
    exact Template.exists_expand_iff_objects (Template.parse_sound ht) hp hothers

/-- A record whose own field can be read beside a property whose getter fails. -/
theorem explode_failing_property_refused :
    let getter : Getter Value := ⟨.none, false, .raises (.runtime (lit "boom"))⟩
    let record : HostClass Value := ⟨lit "P", some [⟨lit "a", .none, .none⟩],
      [⟨lit "b", some getter⟩], [], [], false, .none⟩
    let o : HostObject Value := ⟨0, [record], [(lit "a", str (lit "1"))]⟩
    let store := Store.ofList [(lit "x", object o)]
    o.Raises .property (.runtime (lit "boom")) ∧
      (∃ c, (object o).explode = .error (.cause c) ∧ c.code = lit "E_EXPLODE_FAILED") ∧
      ∃ t, Template.parse (lit "a\x7bx*\x7d") = .ok t ∧
        ∃ out, t.expand store ⟨.none, .undefined⟩ = .ok out := by
  intro getter record o store
  let t : Template := ⟨lit "a\x7bx*\x7d", [.literal (lit "a") 0,
    .expression ⟨lit "x*", .simple, [⟨lit "x", .explode⟩], 1⟩]⟩
  have hparse : Template.parse (lit "a\x7bx*\x7d") = .ok t := eq_ok_of_toOption (by decide +kernel)
  have hraises : o.Raises .property (.runtime (lit "boom")) := by
    refine @HostObject.Raises.property o [] [] (lit "b") ⟨lit "b", some getter⟩ _
      ⟨rfl, rfl⟩ ?_ rfl (fun _ h => nomatch h) rfl
    show ∀ f ∈ [_], _
    exact List.forall_mem_singleton.mpr ⟨_, rfl⟩
  obtain ⟨hexplode, hgetters, hexpand⟩ := explode_enveloped_iff (object o)
  obtain ⟨c, hc, hcode⟩ := (hgetters o .property _ rfl hraises).mpr ⟨rfl, .inl rfl⟩
  have hread := hexplode.mp (.inr ⟨c, hc⟩) o rfl
  have hbound : ∀ name v, store.get? name = some v → v = object o := by
    intro name v hv
    have hmem : (name, v) ∈ [(lit "x", object o)] := Entries.mem_of_get?_eq_some hv
    exact (Prod.mk.inj (List.mem_singleton.mp hmem)).2
  refine ⟨hraises, ⟨c, hc, hcode⟩, t, hparse, ?_⟩
  refine (hexpand _ t hparse store ⟨.none, .undefined⟩ (by decide) ?_).mpr ?_
  · exact fun x _ w hw hne => absurd (hbound x.2.name w hw) (hne o)
  · intro x _ o' ho'
    obtain rfl := object.inj (hbound x.2.name _ ho')
    refine ⟨hread, fun pairs f hpairs => ?_⟩
    rw [hc] at hpairs
    cases hpairs

/-- **The envelope has a hole.**  A derived class puts a property in the place
of an inherited record field, and its getter fails: the explosion ends in a
fault, and so does an expansion for which refusals are not final. -/
theorem explode_overridden_field :
    let base : HostClass Value :=
      ⟨lit "Base", some [⟨lit "a", .none, .none⟩], [], [], [], false, .none⟩
    let derived : HostClass Value := ⟨lit "P", .none,
      [⟨lit "a", some ⟨.none, false, .raises (.runtime (lit "boom"))⟩⟩], [], [], false, .none⟩
    let v : Value := object ⟨0, [base, derived], []⟩
    v.explode = .error (.fault (.getterRuntime (lit "boom"))) ∧
      ¬ ((∃ pairs, pairs ≠ [] ∧ v.explode = .ok pairs) ∨ ∃ c, v.explode = .error (.cause c)) ∧
      ∃ t, Template.parse (lit "a\x7bx*\x7d") = .ok t ∧
        t.expand (.ofList [(lit "x", v)]) ⟨.none, .undefined⟩
          = .error (.fault (.getterRuntime (lit "boom"))) := by
  intro base derived v
  have hexplode : v.explode = .error (.fault (.getterRuntime (lit "boom"))) := rfl
  refine ⟨hexplode, ?_, ?_⟩
  · rw [hexplode]
    rintro (⟨pairs, -, h⟩ | ⟨c, h⟩) <;> cases h
  · refine ⟨⟨lit "a\x7bx*\x7d", [.literal (lit "a") 0,
      .expression ⟨lit "x*", .simple, [⟨lit "x", .explode⟩], 1⟩]⟩, ?_, ?_⟩
    · exact eq_ok_of_toOption (by decide +kernel)
    · exact error?_eq_some.mp (by decide +kernel)

end Value

end UriExpansion
