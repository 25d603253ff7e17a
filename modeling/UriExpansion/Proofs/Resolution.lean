/-
UriExpansion/Proofs/Resolution.lean

What a name means under a store.

A value resolves to texts that can be encoded, and never to an empty list or
mapping (`Value.resolve_sound`).  Where a value does not resolve, the policy
decides: the failure is final, or the name counts as unbound.
`Store.meaning` is that decision for one name, apart from the expression in
which the name occurs; the expression only adds its own text and place to a
final failure (`Expression.outcome_forEach_resolve`).
-/
import UriExpansion.Expansion
import UriExpansion.Proofs.Outcome
import UriExpansion.Proofs.Percent

namespace UriExpansion

/-! ### Resolved values -/

/-- What resolution guarantees: every text can be encoded, and a composite has
a member. -/
def Resolved.Sound : Resolved → Prop
  | .undefined => True
  | .scalar text => Text.Encodable text
  | .list items => items ≠ [] ∧ ∀ item ∈ items, Text.Encodable item
  | .map pairs => pairs ≠ [] ∧ ∀ pair ∈ pairs, Text.Encodable pair.1 ∧ Text.Encodable pair.2

namespace Value

theorem encodable_sound {t u : Text} (h : encodable t = .ok u) : Text.Encodable u := by
  unfold encodable at h
  split at h
  · next hnone =>
    obtain rfl := Except.ok.inj h
    rw [Text.firstSurrogate?, List.findIdx?_eq_none_iff] at hnone
    exact hnone
  · cases h

theorem encodableText_sound {x : Except Fault Text} {u : Text} (h : encodableText x = .ok u) :
    Text.Encodable u := by
  unfold encodableText at h
  split at h
  · exact encodable_sound h
  · cases h

theorem memberText_sound {s : Settings} {v : Value} {u : Text} (h : memberText s v = .ok u) :
    Text.Encodable u := by
  unfold memberText at h
  split at h
  · exact encodableText_sound h
  · cases h

theorem keyText_sound {s : Settings} {v : Value} {u : Text} (h : keyText s v = .ok u) :
    Text.Encodable u := by
  unfold keyText at h
  split at h
  · exact encodableText_sound h
  · exact encodableText_sound h

theorem itemTexts_sound {s : Settings} {items : List Value} {texts : List Text}
    (h : itemTexts s items = .ok texts) : ∀ text ∈ texts, Text.Encodable text := by
  induction items generalizing texts with
  | nil =>
    obtain rfl := Except.ok.inj h
    exact fun _ h => absurd h List.not_mem_nil
  | cons v items ih =>
    unfold itemTexts at h
    split at h
    · exact ih h
    · obtain ⟨text, hv, h⟩ := bind_eq_ok.mp h
      obtain ⟨rest, hrest, h⟩ := bind_eq_ok.mp h
      obtain rfl := Except.ok.inj h
      exact List.forall_mem_cons.mpr ⟨memberText_sound hv, ih hrest⟩

theorem pairTexts_sound {s : Settings} {entries : List (Value × Value)}
    {texts : List (Text × Text)} (h : pairTexts s entries = .ok texts) :
    ∀ pair ∈ texts, Text.Encodable pair.1 ∧ Text.Encodable pair.2 := by
  induction entries generalizing texts with
  | nil =>
    obtain rfl := Except.ok.inj h
    exact fun _ h => absurd h List.not_mem_nil
  | cons entry entries ih =>
    obtain ⟨k, v⟩ := entry
    unfold pairTexts at h
    split at h
    · exact ih h
    · obtain ⟨key, hk, h⟩ := bind_eq_ok.mp h
      obtain ⟨text, hv, h⟩ := bind_eq_ok.mp h
      obtain ⟨rest, hrest, h⟩ := bind_eq_ok.mp h
      obtain rfl := Except.ok.inj h
      exact List.forall_mem_cons.mpr ⟨⟨keyText_sound hk, memberText_sound hv⟩, ih hrest⟩

theorem ofItems_sound {texts : List Text} (h : ∀ text ∈ texts, Text.Encodable text) :
    (Resolved.ofItems texts).Sound := by
  rcases texts with - | ⟨text, texts⟩
  · trivial
  · exact ⟨List.cons_ne_nil text texts, h⟩

theorem ofPairs_sound {texts : List (Text × Text)}
    (h : ∀ pair ∈ texts, Text.Encodable pair.1 ∧ Text.Encodable pair.2) :
    (Resolved.ofPairs texts).Sound := by
  rcases texts with - | ⟨pair, texts⟩
  · trivial
  · exact ⟨List.cons_ne_nil pair texts, h⟩

theorem resolveComposite_sound {s : Settings} {v : Value} {r : Resolved}
    (h : resolveComposite s v = .ok r) : r.Sound := by
  have hpairs : ∀ {entries}, (pairTexts s entries).map Resolved.ofPairs = .ok r → r.Sound := by
    intro entries h
    obtain ⟨texts, ht, rfl⟩ := map_eq_ok.mp h
    exact ofPairs_sound (pairTexts_sound ht)
  have hitems : ∀ {items}, (itemTexts s items).map Resolved.ofItems = .ok r → r.Sound := by
    intro items h
    obtain ⟨texts, ht, rfl⟩ := map_eq_ok.mp h
    exact ofItems_sound (itemTexts_sound ht)
  unfold resolveComposite at h
  split at h
  · obtain rfl := Except.ok.inj h
    trivial
  · exact hpairs h
  · exact hpairs h
  · exact hitems h
  · exact hitems h
  · obtain ⟨pairs, -, h⟩ := bind_eq_ok.mp h
    obtain ⟨texts, ht, h⟩ := bind_eq_ok.mp h
    obtain rfl := Except.ok.inj h
    exact ofPairs_sound (pairTexts_sound ht)

/-- **A value that resolves resolves to a sound value.** -/
theorem resolve_sound {s : Settings} {v : Value} {r : Resolved} (h : v.resolve s = .ok r) :
    r.Sound := by
  unfold resolve at h
  split at h
  · obtain ⟨t, ht, rfl⟩ := map_eq_ok.mp h
    exact encodableText_sound ht
  · exact resolveComposite_sound h

end Value

/-- A value as resolution produces it. -/
def Resolved.Produced (value : Resolved) : Prop :=
  ∃ (s : Settings) (v : Value), v.resolve s = .ok value

theorem Resolved.Produced.sound {value : Resolved} (h : value.Produced) : value.Sound := by
  obtain ⟨s, v, hv⟩ := h
  exact Value.resolve_sound hv

/-! ### Names under a store -/

/-- A final failure to resolve the value of a name. -/
inductive Refusal
  | cause (name : Text) (c : ResolutionCause)
  | fault (f : Fault)

/-- A refusal with the expression in which the name occurs. -/
def Refusal.failure (e : Expression) : Refusal → Failure
  | cause name c => .resolution ⟨c, some ⟨name, e.toText, e.position⟩⟩
  | fault f => .fault f

namespace Store

/-- What a name means: its resolved value, which the policy may let count as
undefined if it does not resolve. -/
def meaning (store : Store) (s : Settings) (name : Text) : Except Refusal Resolved :=
  match ((store.get? name).getD .none).resolve s with
  | .ok value => .ok value
  | .error (.fault f) => .error (.fault f)
  | .error (.cause c) =>
    match s.onResolutionError with
    | .abort => .error (.cause name c)
    | .undefined => .ok .undefined

/-- What the variables of a list mean, in order. -/
def meanings (store : Store) (s : Settings) (specs : List VarSpec) :
    Except Refusal (List Resolved) :=
  specs.mapM fun spec => store.meaning s spec.name

theorem meaning_sound {store : Store} {s : Settings} {name : Text} {value : Resolved}
    (h : store.meaning s name = .ok value) : value.Sound := by
  unfold meaning at h
  split at h
  · next hr =>
    obtain rfl := Except.ok.inj h
    exact Value.resolve_sound hr
  · cases h
  · split at h
    · cases h
    · obtain rfl := Except.ok.inj h
      trivial

theorem meanings_sound {store : Store} {s : Settings} {specs : List VarSpec}
    {values : List Resolved} (h : store.meanings s specs = .ok values) :
    ∀ value ∈ values, value.Sound := by
  intro value hvalue
  obtain ⟨spec, -, hspec⟩ := exists_of_mem_mapM h value hvalue
  exact meaning_sound hspec

/-! ### Names with a value -/

/-- The name is bound to a value that is not undefined. -/
def Defines (store : Store) (s : Settings) (name : Text) : Prop :=
  ∃ v value, store.get? name = some v ∧ v.resolve s = .ok value ∧ value.isDefined = true

theorem defines_iff_any {store : Store} {s : Settings} {name : Text} :
    ((store.get? name).any fun v => (v.resolve s).toOption.any Resolved.isDefined) = true ↔
      store.Defines s name := by
  simp only [Option.any_eq_true]
  constructor
  · rintro ⟨v, hv, value, hr, hd⟩
    exact ⟨v, value, hv, eq_ok_of_toOption hr, hd⟩
  · rintro ⟨v, value, hv, hr, hd⟩
    exact ⟨v, hv, value, by rw [hr]; rfl, hd⟩

instance (store : Store) (s : Settings) (name : Text) : Decidable (store.Defines s name) :=
  decidable_of_iff _ defines_iff_any

/-- The later store keeps what the earlier one defines; everything else may
change. -/
def Keeps (s : Settings) (earlier later : Store) : Prop :=
  ∀ name, earlier.Defines s name → later.get? name = earlier.get? name

theorem Keeps.trans {s : Settings} {a b c : Store} (hab : Keeps s a b) (hbc : Keeps s b c) :
    Keeps s a c := by
  intro name hname
  have hb : b.get? name = a.get? name := hab name hname
  obtain ⟨v, value, hv, hrest⟩ := hname
  rw [← hb] at hv ⊢
  exact hbc name ⟨v, value, hv, hrest⟩

/-- A binding of a name that had none keeps all others. -/
theorem keeps_set (s : Settings) {store : Store} {name : Text} (h : store.get? name = none)
    (v : Value) : Keeps s store (store.set name v) := by
  rintro other ⟨w, -, hw, -⟩
  have hne : name ≠ other := by
    rintro rfl
    rw [h] at hw
    cases hw
  rw [get?, set, Entries.get?_set, if_neg hne, get?]

theorem Defines.meaning {store : Store} {s : Settings} {name : Text} (h : store.Defines s name) :
    ∃ value, store.meaning s name = .ok value ∧ value.isDefined = true := by
  obtain ⟨v, value, hv, hr, hd⟩ := h
  refine ⟨value, ?_, hd⟩
  rw [Store.meaning, hv, Option.getD_some, hr]

/-- A name with a meaning that is not undefined is bound. -/
theorem defines_of_meaning {store : Store} {s : Settings} {name : Text} {value : Resolved}
    (h : store.meaning s name = .ok value) (hd : value.isDefined = true) :
    store.Defines s name := by
  unfold meaning at h
  split at h
  · next hr =>
    obtain rfl := Except.ok.inj h
    cases hv : store.get? name with
    | some v =>
      rw [hv] at hr
      exact ⟨v, _, hv, hr, hd⟩
    | none =>
      -- an unbound name counts as bound to nothing
      rw [hv] at hr
      obtain rfl := Except.ok.inj hr
      cases hd
  · cases h
  · split at h
    · cases h
    · obtain rfl := Except.ok.inj h
      cases hd

theorem isDefined_iff_defines {store : Store} {s : Settings} {name : Text} {value : Resolved}
    (h : store.meaning s name = .ok value) :
    value.isDefined = true ↔ store.Defines s name := by
  constructor
  · exact defines_of_meaning h
  · intro hdefines
    obtain ⟨value', hvalue, hd⟩ := hdefines.meaning
    obtain rfl := Except.ok.inj (h.symm.trans hvalue)
    exact hd

/-- Variables are defined if their meanings are. -/
theorem forall_defines_iff {store : Store} {s : Settings} {specs : List VarSpec}
    {values : List Resolved} (h : store.meanings s specs = .ok values) :
    (∀ spec ∈ specs, store.Defines s spec.name) ↔ ∀ value ∈ values, value.isDefined = true :=
  forall_mem_iff_of_mapM h fun _ _ hvalue => (isDefined_iff_defines hvalue).symm

theorem forall_not_defines_iff {store : Store} {s : Settings} {specs : List VarSpec}
    {values : List Resolved} (h : store.meanings s specs = .ok values) :
    (∀ spec ∈ specs, ¬ store.Defines s spec.name) ↔ ∀ value ∈ values, value.isDefined = false :=
  forall_mem_iff_of_mapM h fun _ _ hvalue => by
    rw [← isDefined_iff_defines hvalue, Bool.not_eq_true]

theorem Keeps.meaning {s : Settings} {earlier later : Store} (hk : Keeps s earlier later)
    {name : Text} {value : Resolved} (h : earlier.meaning s name = .ok value)
    (hd : value.isDefined = true) : later.meaning s name = .ok value := by
  rw [Store.meaning, hk name (defines_of_meaning h hd)]
  exact h

/-- Variables with values keep their meanings. -/
theorem Keeps.meanings {s : Settings} {earlier later : Store} (hk : Keeps s earlier later)
    {specs : List VarSpec} {values : List Resolved} (h : earlier.meanings s specs = .ok values)
    (hd : ∀ value ∈ values, value.isDefined = true) : later.meanings s specs = .ok values := by
  induction specs generalizing values with
  | nil => exact h
  | cons spec specs ih =>
    obtain ⟨value, rest, rfl, hvalue, hrest⟩ := mapM_cons_eq_ok.mp h
    obtain ⟨hdv, hdr⟩ := List.forall_mem_cons.mp hd
    exact mapM_cons_eq_ok.mpr ⟨value, rest, rfl, hk.meaning hvalue hdv, ih hrest hdr⟩

end Store

namespace Expression

/-- An expression resolves a variable to its meaning, and adds itself to a
refusal. -/
theorem outcome_resolve (e : Expression) (store : Store) (s : Settings) (spec : VarSpec) :
    (e.resolve store s spec).outcome
      = (store.meaning s spec.name).mapError (Refusal.failure e) := by
  unfold resolve Store.meaning
  rcases ((store.get? spec.name).getD .none).resolve s with (c | f) | value
  · rcases s.onResolutionError with - | - <;> rfl
  · rfl
  · rfl

theorem outcome_forEach_resolve (e : Expression) (store : Store) (s : Settings)
    (specs : List VarSpec) : (Traced.forEach (e.resolve store s) specs).outcome
      = (store.meanings s specs).mapError (Refusal.failure e) := by
  rw [Traced.outcome_forEach, Store.meanings, ← mapM_mapError]
  exact congrArg (List.mapM · specs) (funext (outcome_resolve e store s))

end Expression

end UriExpansion
