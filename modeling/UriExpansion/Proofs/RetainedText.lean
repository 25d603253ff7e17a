/-
UriExpansion/Proofs/RetainedText.lean

The texts that come out of a value, and out of the source of a template.

A value retains the text of a scalar, the texts of the items of a list that are
present, and the texts of the keys and values of those pairs whose value is
present; the pairs are the entries of a mapping or what a host object is taken
apart into.  `Value.Retains` says so without a word about surrogates.  Where a
value resolves, its texts are exactly those it retains (`Value.mem_texts_iff`),
and resolution has looked at each of them; so a value that retains a text with
a surrogate does not resolve (`Value.Retains.encodable`).  The source of a
template has been looked at as well, its literals by the scanner and its
expressions by the grammar of names (`Template.encodable_source`).
-/
import UriExpansion.Proofs.Derivation
import UriExpansion.Proofs.Layout
import UriExpansion.Proofs.Resolution

namespace UriExpansion

/-! ### Texts of a resolved value -/

namespace Resolved

/-- The texts of a resolved value. -/
def texts : Resolved → List Text
  | undefined => []
  | scalar text => [text]
  | list items => items
  | map pairs => pairs.flatMap fun p => [p.1, p.2]

theorem Sound.encodable {r : Resolved} (h : r.Sound) : ∀ text ∈ r.texts, Text.Encodable text := by
  intro text htext
  cases r with
  | undefined => cases htext
  | scalar t =>
    obtain rfl := List.mem_singleton.mp htext
    exact h
  | list items => exact h.2 text htext
  | map pairs =>
    obtain ⟨pair, hpair, htext⟩ := List.mem_flatMap.mp htext
    obtain ⟨hkey, hvalue⟩ := h.2 pair hpair
    rcases List.mem_cons.mp htext with rfl | htext
    · exact hkey
    · obtain rfl := List.mem_singleton.mp htext
      exact hvalue

theorem texts_ofItems (items : List Text) : (ofItems items).texts = items := by
  cases items <;> rfl

theorem texts_ofPairs (pairs : List (Text × Text)) :
    (ofPairs pairs).texts = pairs.flatMap fun p => [p.1, p.2] := by
  cases pairs <;> rfl

end Resolved

/-! ### Texts that a value retains -/

namespace Value

/-- The items of a value that is a sequence. -/
inductive HasItems : Value → List Value → Prop
  | list (items) : HasItems (.list items) items
  | tuple (items) : HasItems (.tuple items) items

/-- The pairs of a value that is a mapping or is taken apart into one. -/
inductive HasPairs : Value → List (Value × Value) → Prop
  | map (entries) : HasPairs (.map entries) entries
  | store (entries) : HasPairs (.store entries) entries
  | exploded {v : Value} {pairs} : v.isScalar = false → v.explode = .ok pairs → HasPairs v pairs

/-- The text of a key: its own if it is a scalar, and else the text as which it
is shown. -/
def nameText (s : Settings) (k : Value) : Except Fault Text := (k.scalarText? s).getD k.shown

/-- The pair has a value, and the text is that of its key or of its value. -/
def PairRetains (s : Settings) (pair : Value × Value) (text : Text) : Prop :=
  pair.2.isNone = false ∧
    (nameText s pair.1 = .ok text ∨ pair.2.scalarText? s = some (.ok text))

/-- The text is one that the value retains. -/
inductive Retains (s : Settings) : Value → Text → Prop
  | scalar {v text} : v.scalarText? s = some (.ok text) → Retains s v text
  | item {v items item text} : HasItems v items → item ∈ items →
      item.scalarText? s = some (.ok text) → Retains s v text
  | pair {v pairs pair text} : HasPairs v pairs → pair ∈ pairs → PairRetains s pair text →
      Retains s v text

variable {s : Settings} {v : Value} {text : Text}

theorem encodable_eq_ok {t u : Text} (h : encodable t = .ok u) : t = u := by
  unfold encodable at h
  split at h
  · exact Except.ok.inj h
  · cases h

theorem encodableText_eq_ok {x : Except Fault Text} {u : Text} (h : encodableText x = .ok u) :
    x = .ok u := by
  unfold encodableText at h
  split at h
  · exact congrArg Except.ok (encodable_eq_ok h)
  · cases h

theorem memberText_eq_ok (h : memberText s v = .ok text) : v.scalarText? s = some (.ok text) := by
  unfold memberText at h
  split at h
  · next hscalar => rw [hscalar, encodableText_eq_ok h]
  · cases h

theorem keyText_eq_ok (h : keyText s v = .ok text) : nameText s v = .ok text := by
  unfold keyText at h
  rw [nameText]
  split at h
  · next hscalar =>
    rw [hscalar]
    exact encodableText_eq_ok h
  · next hscalar =>
    rw [hscalar]
    exact encodableText_eq_ok h

theorem scalarText?_of_isNone (h : v.isNone = true) : v.scalarText? s = .none := by
  cases v with
  | none => rfl
  | _ => cases h

/-- The texts of a list are those of its items. -/
theorem mem_itemTexts {items : List Value} {texts : List Text} (h : itemTexts s items = .ok texts) :
    text ∈ texts ↔ ∃ item ∈ items, item.scalarText? s = some (.ok text) := by
  induction items generalizing texts with
  | nil =>
    obtain rfl := Except.ok.inj h
    simp
  | cons v items ih =>
    rw [List.exists_mem_cons_iff]
    unfold itemTexts at h
    split at h
    · next hnone =>
      -- an absent item has no text
      rw [scalarText?_of_isNone hnone, ih h]
      exact (or_iff_right (Option.some_ne_none _).symm).symm
    · obtain ⟨t, hv, h⟩ := bind_eq_ok.mp h
      obtain ⟨rest, hrest, h⟩ := bind_eq_ok.mp h
      obtain rfl := Except.ok.inj h
      rw [List.mem_cons, ih hrest, memberText_eq_ok hv, Option.some.injEq, Except.ok.injEq, eq_comm]

/-- The texts of pairs are those of their keys and values. -/
theorem mem_pairTexts {pairs : List (Value × Value)} {texts : List (Text × Text)}
    (h : pairTexts s pairs = .ok texts) : text ∈ (texts.flatMap fun p => [p.1, p.2]) ↔
      ∃ pair ∈ pairs, PairRetains s pair text := by
  induction pairs generalizing texts with
  | nil =>
    obtain rfl := Except.ok.inj h
    simp
  | cons pair pairs ih =>
    obtain ⟨k, v⟩ := pair
    rw [List.exists_mem_cons_iff]
    unfold pairTexts at h
    split at h
    · next hnone =>
      rw [ih h]
      refine ⟨.inr, fun h => h.resolve_left ?_⟩
      rintro ⟨hsome, -⟩
      rw [hnone] at hsome
      cases hsome
    · next hsome =>
      obtain ⟨key, hk, h⟩ := bind_eq_ok.mp h
      obtain ⟨value, hv, h⟩ := bind_eq_ok.mp h
      obtain ⟨rest, hrest, h⟩ := bind_eq_ok.mp h
      obtain rfl := Except.ok.inj h
      have hpair : PairRetains s (k, v) text ↔ key = text ∨ value = text := by
        rw [PairRetains, keyText_eq_ok hk, memberText_eq_ok hv, Option.some.injEq,
          Except.ok.injEq, Except.ok.injEq]
        exact and_iff_right (Bool.eq_false_iff.mpr hsome)
      rw [hpair, List.flatMap_cons, List.mem_append, ih hrest, List.mem_cons, List.mem_singleton,
        eq_comm, eq_comm (b := value)]

/-- A value has one list of pairs at most. -/
theorem HasPairs.unique {pairs pairs' : List (Value × Value)} (h : HasPairs v pairs)
    (h' : HasPairs v pairs') : pairs = pairs' := by
  cases h with
  | map _ =>
    cases h' with
    | map _ => rfl
    | exploded _ hexplode => cases hexplode
  | store _ =>
    cases h' with
    | store _ => rfl
    | exploded _ hexplode => cases hexplode
  | exploded _ hexplode =>
    cases h' with
    | map _ => cases hexplode
    | store _ => cases hexplode
    | exploded _ hexplode' => exact Except.ok.inj (hexplode.symm.trans hexplode')

theorem HasPairs.isScalar {pairs : List (Value × Value)} (h : HasPairs v pairs) :
    v.isScalar = false := by
  cases h with
  | map _ => rfl
  | store _ => rfl
  | exploded hscalar _ => exact hscalar

theorem HasPairs.not_hasItems {pairs : List (Value × Value)} (h : HasPairs v pairs)
    (items : List Value) : ¬ HasItems v items := by
  intro hitems
  cases hitems with
  | list _ =>
    cases h with
    | exploded _ hexplode => cases hexplode
  | tuple _ =>
    cases h with
    | exploded _ hexplode => cases hexplode

theorem HasItems.scalarText? {items : List Value} (h : HasItems v items) :
    v.scalarText? s = .none := by
  cases h <;> rfl

theorem isScalar_of_scalarText? {t : Except Fault Text} (h : v.scalarText? s = some t) :
    v.isScalar = true := by
  rw [← isSome_scalarText? s v, h]
  rfl

/-- A scalar retains its text only. -/
theorem retains_scalar_iff {t : Text} (h : v.scalarText? s = some (.ok t)) :
    v.Retains s text ↔ text = t := by
  constructor
  · intro hretains
    cases hretains with
    | scalar h' => exact Except.ok.inj (Option.some.inj (h'.symm.trans h))
    | item hitems _ _ =>
      rw [hitems.scalarText?] at h
      cases h
    | pair hpairs _ _ =>
      have hscalar := hpairs.isScalar
      rw [isScalar_of_scalarText? h] at hscalar
      cases hscalar
  · rintro rfl
    exact .scalar h

/-- A sequence retains the texts of its items. -/
theorem HasItems.retains_iff {items : List Value} (h : HasItems v items) :
    v.Retains s text ↔ ∃ item ∈ items, item.scalarText? s = some (.ok text) := by
  constructor
  · intro hretains
    cases hretains with
    | scalar hscalar =>
      rw [h.scalarText?] at hscalar
      cases hscalar
    | item hitems hitem htext =>
      cases h <;> cases hitems <;> exact ⟨_, hitem, htext⟩
    | pair hpairs _ _ => exact absurd h (hpairs.not_hasItems items)
  · rintro ⟨item, hitem, htext⟩
    exact .item h hitem htext

/-- A value with pairs retains the texts of these. -/
theorem HasPairs.retains_iff {pairs : List (Value × Value)} (h : HasPairs v pairs) :
    v.Retains s text ↔ ∃ pair ∈ pairs, PairRetains s pair text := by
  constructor
  · intro hretains
    cases hretains with
    | scalar hscalar =>
      have hnot := h.isScalar
      rw [isScalar_of_scalarText? hscalar] at hnot
      cases hnot
    | item hitems _ _ => exact absurd hitems (h.not_hasItems _)
    | pair hpairs hpair htext =>
      obtain rfl := h.unique hpairs
      exact ⟨_, hpair, htext⟩
  · rintro ⟨pair, hpair, htext⟩
    exact .pair h hpair htext

theorem not_retains_none : ¬ none.Retains s text := by
  intro hretains
  cases hretains with
  | scalar h => cases h
  | item hitems _ _ => cases hitems
  | pair hpairs _ _ =>
    cases hpairs with
    | exploded _ hexplode => cases hexplode

theorem mem_texts_iff_of_composite {r : Resolved} (hscalar : v.isScalar = false)
    (h : resolveComposite s v = .ok r) : text ∈ r.texts ↔ v.Retains s text := by
  -- every composite goes one of two ways, by its pairs or by its items
  have hpairs : ∀ {pairs}, HasPairs v pairs → (pairTexts s pairs).map .ofPairs = .ok r →
      (text ∈ r.texts ↔ v.Retains s text) := by
    intro pairs hpairs h
    obtain ⟨texts, htexts, rfl⟩ := map_eq_ok.mp h
    rw [Resolved.texts_ofPairs, mem_pairTexts htexts, hpairs.retains_iff]
  have hitems : ∀ {items}, HasItems v items → (itemTexts s items).map .ofItems = .ok r →
      (text ∈ r.texts ↔ v.Retains s text) := by
    intro items hitems h
    obtain ⟨texts, htexts, rfl⟩ := map_eq_ok.mp h
    rw [Resolved.texts_ofItems, mem_itemTexts htexts, hitems.retains_iff]
  unfold resolveComposite at h
  split at h
  · obtain rfl := Except.ok.inj h
    exact iff_of_false List.not_mem_nil not_retains_none
  · exact hpairs (.map _) h
  · exact hpairs (.store _) h
  · exact hitems (.list _) h
  · exact hitems (.tuple _) h
  · obtain ⟨pairs, hexplode, h⟩ := bind_eq_ok.mp h
    obtain ⟨texts, htexts, h⟩ := bind_eq_ok.mp h
    exact hpairs (.exploded hscalar hexplode) (map_eq_ok.mpr ⟨texts, htexts, Except.ok.inj h⟩)

/-- **The texts of a resolved value are those that the value retains.** -/
theorem mem_texts_iff {r : Resolved} (h : v.resolve s = .ok r) :
    text ∈ r.texts ↔ v.Retains s text := by
  unfold resolve at h
  split at h
  · next t hscalar =>
    obtain ⟨u, hu, rfl⟩ := map_eq_ok.mp h
    rw [encodableText_eq_ok hu] at hscalar
    rw [retains_scalar_iff hscalar]
    exact List.mem_singleton
  · next hnone =>
    refine mem_texts_iff_of_composite ?_ h
    rw [← isSome_scalarText? s v, hnone]
    rfl

/-- **A value that resolves retains no surrogate.** -/
theorem Retains.encodable (htext : v.Retains s text) {r : Resolved} (h : v.resolve s = .ok r) :
    Text.Encodable text :=
  (resolve_sound h).encodable text ((mem_texts_iff h).mpr htext)

end Value

/-! ### The source of a template -/

/-- A body that is read is made of ASCII characters. -/
theorem Expression.encodable_body {body : Text} {op : Operator} {specs : List VarSpec}
    (h : readBody body = .ok (op, specs)) : Text.Encodable body := by
  obtain ⟨hspecs, rfl⟩ := derives_iff.mp (readBody_eq_ok_iff.mp h)
  refine Text.encodable_append.mpr ⟨by cases op <;> decide, fun c hc => ?_⟩
  cases c with
  | scalar x => rfl
  | surrogate i =>
    exact absurd hc (VarSpec.not_mem_listToText hspecs.each rfl (by simp) (by simp) (by simp)
      (by simp))

theorem Component.Sound.encodable {c : Component} (h : c.Sound) : Text.Encodable c.toText := by
  cases c with
  | literal text p => exact h.2
  | expression e =>
    have hbrace : ∀ x : Char, Text.Encodable [CodePoint.scalar x] :=
      fun x => List.forall_mem_singleton.mpr rfl
    exact Text.encodable_append.mpr ⟨hbrace '\x7b',
      Text.encodable_append.mpr ⟨Expression.encodable_body h.2, hbrace '\x7d'⟩⟩

/-- **The source of a template holds no surrogate**, neither in its literals nor
in its expressions. -/
theorem Template.encodable_source {source : Text} {t : Template} (h : parse source = .ok t) :
    Text.Encodable source := by
  obtain ⟨-, hlaid⟩ := parse_laid h
  rw [← hlaid.allText_eq, Component.allText_map_token]
  intro c hc
  obtain ⟨component, hcomponent, hc⟩ := List.mem_flatMap.mp hc
  exact (parse_sound h component hcomponent).encodable c hc

end UriExpansion
