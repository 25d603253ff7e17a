/-
UriExpansion/Proofs/Classification.lean

Which values are undefined, and what the others resolve to.

Items and pairs that are absent are left out before anything else is asked of
them.  What is left are the parts of a value (`Value.HasParts`): the value itself
if it is a scalar, else its items, or the keys and values of its pairs, in order
and a key before its value.  Resolution reads the parts one after the other, so
that it fails as the first part does that cannot be read
(`HasParts.error?_resolve`).

`Value.Means` says without a computation what a value resolves to.  It is what
resolution computes (`resolve_eq_ok_iff`); with the order of the parts this gives
the whole classification (`resolve_classifies`).
-/
import UriExpansion.Proofs.Rendering
import UriExpansion.Proofs.RetainedText

namespace UriExpansion.Value

variable {s : Settings} {v : Value} {t : Text}

/-! ### Reading one text -/

theorem encodable_eq_ok_iff {u : Text} :
    encodable t = .ok u ↔ t = u ∧ Text.Encodable u := by
  constructor
  · intro h
    exact ⟨encodable_eq_ok h, encodable_sound h⟩
  · rintro ⟨rfl, hencodable⟩
    rw [encodable, Text.encodable_iff.mp hencodable]

theorem encodableText_eq_ok_iff {x : Except Fault Text} :
    encodableText x = .ok t ↔ x = .ok t ∧ Text.Encodable t := by
  rcases x with f | u
  · constructor
    · exact fun h => nomatch h
    · exact fun h => nomatch h.1
  · show encodable u = .ok t ↔ _
    rw [encodable_eq_ok_iff, Except.ok.injEq]

/-- A text is passed on or refused. -/
theorem encodable_cases (t : Text) : (Text.Encodable t ∧ encodable t = .ok t) ∨
    ¬ Text.Encodable t ∧ ∃ i, encodable t = .error (.cause (.surrogate i)) := by
  rw [Text.encodable_iff, encodable]
  rcases t.firstSurrogate? with - | i
  · exact .inl ⟨rfl, rfl⟩
  · exact .inr ⟨(nomatch ·), i, rfl⟩

theorem memberText_of_scalarText? {x : Except Fault Text} (h : v.scalarText? s = some x) :
    memberText s v = encodableText x := by
  rw [memberText, h]

theorem memberText_eq_ok_iff :
    memberText s v = .ok t ↔ v.scalarText? s = some (.ok t) ∧ Text.Encodable t := by
  constructor
  · intro h
    exact ⟨memberText_eq_ok h, memberText_sound h⟩
  · rintro ⟨htext, hencodable⟩
    rw [memberText_of_scalarText? htext, encodableText_eq_ok_iff]
    exact ⟨rfl, hencodable⟩

theorem keyText_eq (s : Settings) (k : Value) : keyText s k = encodableText (nameText s k) := by
  rw [keyText, nameText]
  cases k.scalarText? s <;> rfl

/-! ### Items and pairs that are present -/

/-- The items that are there. -/
def present (items : List Value) : List Value := items.filter fun item => !item.isNone

/-- The pairs whose values are there. -/
def presentPairs (pairs : List (Value × Value)) : List (Value × Value) :=
  pairs.filter fun pair => !pair.2.isNone

theorem present_eq_nil_iff {items : List Value} :
    present items = [] ↔ ∀ item ∈ items, item.isNone = true := by
  simp only [present, List.filter_eq_nil_iff, Bool.not_eq_true', Bool.not_eq_false]

theorem presentPairs_eq_nil_iff {pairs : List (Value × Value)} :
    presentPairs pairs = [] ↔ ∀ pair ∈ pairs, pair.2.isNone = true := by
  simp only [presentPairs, List.filter_eq_nil_iff, Bool.not_eq_true', Bool.not_eq_false]

theorem itemTexts_eq_mapM (s : Settings) (items : List Value) :
    itemTexts s items = (present items).mapM (memberText s) := by
  induction items with
  | nil => rfl
  | cons item items ih =>
    rw [itemTexts, present, List.filter_cons, ih]
    cases item.isNone with
    | true => rfl
    | false => exact List.mapM_cons.symm

/-- The texts of a pair. -/
def pairText (s : Settings) (pair : Value × Value) : Except Obstacle (Text × Text) := do
  let key ← keyText s pair.1
  let text ← memberText s pair.2
  return (key, text)

theorem pairTexts_eq_mapM (s : Settings) (pairs : List (Value × Value)) :
    pairTexts s pairs = (presentPairs pairs).mapM (pairText s) := by
  induction pairs with
  | nil => rfl
  | cons pair pairs ih =>
    obtain ⟨k, v⟩ := pair
    rw [pairTexts, presentPairs, List.filter_cons, ih]
    cases v.isNone with
    | true => rfl
    | false =>
      show _ = ((k, v) :: presentPairs pairs).mapM (pairText s)
      rw [List.mapM_cons, pairText, bind_assoc]
      refine bind_congr fun key => ?_
      rw [bind_assoc]
      rfl

theorem pairText_eq_ok_iff {pair : Value × Value} {texts : Text × Text} :
    pairText s pair = .ok texts ↔
      keyText s pair.1 = .ok texts.1 ∧ memberText s pair.2 = .ok texts.2 := by
  rw [pairText]
  constructor
  · intro h
    obtain ⟨key, hkey, h⟩ := bind_eq_ok.mp h
    obtain ⟨text, htext, h⟩ := bind_eq_ok.mp h
    obtain rfl := Except.ok.inj h
    exact ⟨hkey, htext⟩
  · rintro ⟨hkey, htext⟩
    rw [hkey, htext]
    rfl

/-! ### Resolution by the form of a value -/

theorem resolve_of_isScalar (h : v.isScalar = true) :
    v.resolve s = (memberText s v).map .scalar := by
  rw [← isSome_scalarText? s v, Option.isSome_iff_exists] at h
  obtain ⟨x, hx⟩ := h
  rw [resolve, hx, memberText_of_scalarText? hx]

theorem HasItems.resolve {items : List Value} (h : HasItems v items) :
    v.resolve s = ((present items).mapM (memberText s)).map .ofItems := by
  rw [← itemTexts_eq_mapM]
  cases h <;> rfl

theorem HasPairs.resolve {pairs : List (Value × Value)} (h : HasPairs v pairs) :
    v.resolve s = ((presentPairs pairs).mapM (pairText s)).map .ofPairs := by
  rw [← pairTexts_eq_mapM]
  cases h with
  | map _ => rfl
  | store _ => rfl
  | exploded hscalar hexplode =>
    cases v with
    | object o =>
      show ((object o).explode >>= fun pairs => (pairTexts s pairs).map Resolved.ofPairs) = _
      rw [hexplode]
      rfl
    | uuid u => cases hscalar
    | _ => cases hexplode

/-- A value has one of four forms, or it does not resolve. -/
theorem form_cases (s : Settings) (v : Value) : v = none ∨ v.isScalar = true ∨
    (∃ items, HasItems v items) ∨ (∃ pairs, HasPairs v pairs) ∨ ∃ ob, v.resolve s = .error ob := by
  cases v with
  | none => exact .inl rfl
  | list items => exact .inr (.inr (.inl ⟨items, .list items⟩))
  | tuple items => exact .inr (.inr (.inl ⟨items, .tuple items⟩))
  | map entries => exact .inr (.inr (.inr (.inl ⟨entries, .map entries⟩)))
  | store entries => exact .inr (.inr (.inr (.inl ⟨entries, .store entries⟩)))
  | object o =>
    rcases h : (object o).explode with ob | pairs
    · refine .inr (.inr (.inr (.inr ⟨ob, ?_⟩)))
      show ((object o).explode >>= _) = _
      rw [h]
      rfl
    · exact .inr (.inr (.inr (.inl ⟨pairs, .exploded rfl h⟩)))
  | bytes _ => exact .inr (.inr (.inr (.inr ⟨_, rfl⟩)))
  | set _ => exact .inr (.inr (.inr (.inr ⟨_, rfl⟩)))
  | classObject _ _ => exact .inr (.inr (.inr (.inr ⟨_, rfl⟩)))
  | function _ _ => exact .inr (.inr (.inr (.inr ⟨_, rfl⟩)))
  | _ => exact .inr (.inl rfl)

/-! ### What a value means -/

/-- There is nothing in the value. -/
inductive Vacant : Value → Prop
  | none : Vacant none
  | items {v items} : HasItems v items → (∀ item ∈ items, item.isNone = true) → Vacant v
  | pairs {v pairs} : HasPairs v pairs → (∀ pair ∈ pairs, pair.2.isNone = true) → Vacant v

/-- The value is a scalar with this text, which can be encoded. -/
def Reads (s : Settings) (v : Value) (t : Text) : Prop :=
  v.scalarText? s = some (.ok t) ∧ Text.Encodable t

/-- The pair has these texts, which can be encoded. -/
def PairReads (s : Settings) (pair : Value × Value) (texts : Text × Text) : Prop :=
  (nameText s pair.1 = .ok texts.1 ∧ Text.Encodable texts.1) ∧ pair.2.Reads s texts.2

/-- The resolved value that a value stands for. -/
inductive Means (s : Settings) : Value → Resolved → Prop
  | undefined {v : Value} : v.Vacant → Means s v .undefined
  | scalar {v : Value} {t : Text} : v.Reads s t → Means s v (.scalar t)
  | list {v items texts} : HasItems v items → List.Forall₂ (Reads s) (present items) texts →
      texts ≠ [] → Means s v (.list texts)
  | map {v pairs texts} : HasPairs v pairs → List.Forall₂ (PairReads s) (presentPairs pairs) texts →
      texts ≠ [] → Means s v (.map texts)

theorem Vacant.resolve (h : v.Vacant) (s : Settings) : v.resolve s = .ok .undefined := by
  cases h with
  | none => rfl
  | items hitems hnone =>
    rw [hitems.resolve, present_eq_nil_iff.mpr hnone]
    rfl
  | pairs hpairs hnone =>
    rw [hpairs.resolve, presentPairs_eq_nil_iff.mpr hnone]
    rfl

theorem mapM_memberText_eq_ok_iff {items : List Value} {texts : List Text} :
    items.mapM (memberText s) = .ok texts ↔ List.Forall₂ (Reads s) items texts := by
  rw [mapM_eq_ok_iff]
  simp only [memberText_eq_ok_iff]
  exact Iff.rfl

theorem mapM_pairText_eq_ok_iff {pairs : List (Value × Value)} {texts : List (Text × Text)} :
    pairs.mapM (pairText s) = .ok texts ↔ List.Forall₂ (PairReads s) pairs texts := by
  rw [mapM_eq_ok_iff]
  simp only [pairText_eq_ok_iff, keyText_eq, encodableText_eq_ok_iff, memberText_eq_ok_iff]
  exact Iff.rfl

/-- **Resolution computes what a value means.** -/
theorem resolve_eq_ok_iff {r : Resolved} : v.resolve s = .ok r ↔ v.Means s r := by
  constructor
  · intro h
    rcases form_cases s v with rfl | hscalar | ⟨items, hitems⟩ | ⟨pairs, hpairs⟩ | ⟨ob, hob⟩
    · obtain rfl := Except.ok.inj h
      exact .undefined .none
    · rw [resolve_of_isScalar hscalar] at h
      obtain ⟨t, ht, rfl⟩ := map_eq_ok.mp h
      exact .scalar (memberText_eq_ok_iff.mp ht)
    · rw [hitems.resolve] at h
      obtain ⟨texts, htexts, rfl⟩ := map_eq_ok.mp h
      have hread := mapM_memberText_eq_ok_iff.mp htexts
      rcases texts with - | ⟨text, texts⟩
      · have habsent := present_eq_nil_iff.mp (List.forall₂_nil_right_iff.mp hread)
        exact .undefined (.items hitems habsent)
      · exact .list hitems hread (List.cons_ne_nil text texts)
    · rw [hpairs.resolve] at h
      obtain ⟨texts, htexts, rfl⟩ := map_eq_ok.mp h
      have hread := mapM_pairText_eq_ok_iff.mp htexts
      rcases texts with - | ⟨text, texts⟩
      · exact .undefined
          (.pairs hpairs (presentPairs_eq_nil_iff.mp (List.forall₂_nil_right_iff.mp hread)))
      · exact .map hpairs hread (List.cons_ne_nil text texts)
    · rw [hob] at h
      cases h
  · intro h
    cases h with
    | undefined hvacant => exact hvacant.resolve s
    | scalar hread =>
      rw [resolve_of_isScalar (isScalar_of_scalarText? hread.1), memberText_eq_ok_iff.mpr hread]
      rfl
    | list hitems hread hne =>
      rw [hitems.resolve, mapM_memberText_eq_ok_iff.mpr hread]
      obtain ⟨text, rest, rfl⟩ := List.exists_cons_of_ne_nil hne
      rfl
    | map hpairs hread hne =>
      rw [hpairs.resolve, mapM_pairText_eq_ok_iff.mpr hread]
      obtain ⟨text, rest, rfl⟩ := List.exists_cons_of_ne_nil hne
      rfl

/-- **A value is undefined if and only if there is nothing in it.** -/
theorem resolve_eq_undefined_iff : v.resolve s = .ok .undefined ↔ v.Vacant := by
  rw [resolve_eq_ok_iff]
  constructor
  · intro h
    cases h with
    | undefined hvacant => exact hvacant
  · exact .undefined

/-! ### Parts that cannot be read -/

/-- What resolution reads: the key of a pair, or a value that has to be a scalar. -/
inductive Part
  | name (k : Value)
  | member (v : Value)

namespace Part

/-- The text of a part; a member that is no scalar has none. -/
def text? (s : Settings) : Part → Option (Except Fault Text)
  | name k => some (nameText s k)
  | member v => v.scalarText? s

/-- The text of a part, if it can be encoded. -/
def read (s : Settings) : Part → Except Obstacle Text
  | name k => keyText s k
  | member v => memberText s v

/-- The host formats the text of the part. -/
def Formats (s : Settings) (p : Part) : Prop := ∀ f, p.text? s ≠ some (.error f)

/-- The part cannot be read, for a reason with this code. -/
inductive Offends (s : Settings) : Part → Text → Prop
  | nested {p} : p.text? s = .none → Offends s p (lit "E_NESTED_COMPOSITE")
  | surrogate {p t} : p.text? s = some (.ok t) → ¬ Text.Encodable t →
      Offends s p (lit "E_INVALID_UNICODE")

variable {p : Part}

theorem read_of_text? {x : Except Fault Text} (h : p.text? s = some x) :
    p.read s = encodableText x := by
  cases p with
  | name k => rw [read, keyText_eq, Option.some.inj h]
  | member v => exact memberText_of_scalarText? h

theorem read_of_none (h : p.text? s = .none) :
    ∃ typeName, p.read s = .error (.cause (.nestedComposite typeName)) := by
  cases p with
  | name k => cases h
  | member v => exact ⟨v.typeName, by rw [read, memberText, show v.scalarText? s = .none from h]⟩

/-- A part offends if and only if it is refused. -/
theorem offends_iff {code : Text} :
    p.Offends s code ↔ ∃ c, p.read s = .error (.cause c) ∧ c.code = code := by
  constructor
  · intro h
    cases h with
    | nested hnone =>
      obtain ⟨typeName, hread⟩ := read_of_none hnone
      exact ⟨_, hread, rfl⟩
    | surrogate htext hnot =>
      obtain ⟨-, i, hi⟩ := (encodable_cases _).resolve_left fun h => hnot h.1
      exact ⟨_, (read_of_text? htext).trans hi, rfl⟩
  · rintro ⟨c, hread, rfl⟩
    rcases htext : p.text? s with - | (f | t)
    · obtain ⟨typeName, hnested⟩ := read_of_none htext
      rw [hnested] at hread
      obtain rfl := Obstacle.cause.inj (Except.error.inj hread)
      exact .nested htext
    · rw [read_of_text? htext] at hread
      cases Except.error.inj hread
    · rw [read_of_text? htext] at hread
      rcases encodable_cases t with ⟨-, ht⟩ | ⟨hnot, i, ht⟩
      · cases ht.symm.trans hread
      · obtain rfl := Obstacle.cause.inj (Except.error.inj (ht.symm.trans hread))
        exact .surrogate htext hnot

/-- A part that is formatted is read, or it is refused. -/
theorem Formats.read_cases (h : p.Formats s) :
    (∃ t, p.read s = .ok t) ∨ ∃ c, p.read s = .error (.cause c) := by
  rcases htext : p.text? s with - | (f | t)
  · obtain ⟨typeName, hread⟩ := read_of_none htext
    exact .inr ⟨_, hread⟩
  · exact absurd htext (h f)
  · rw [read_of_text? htext]
    rcases encodable_cases t with ⟨-, ht⟩ | ⟨-, i, ht⟩
    · exact .inl ⟨t, ht⟩
    · exact .inr ⟨_, ht⟩

/-- A part that is formatted and does not offend is read. -/
theorem Formats.error?_read_eq_none_iff (h : p.Formats s) :
    error? (p.read s) = Option.none ↔ ∀ code, ¬ p.Offends s code := by
  rw [error?_eq_none]
  constructor
  · rintro ⟨t, ht⟩ code hoffends
    obtain ⟨c, hc, -⟩ := offends_iff.mp hoffends
    cases ht.symm.trans hc
  · intro hnot
    refine h.read_cases.resolve_right ?_
    rintro ⟨c, hc⟩
    exact hnot c.code (offends_iff.mpr ⟨c, hc, rfl⟩)

end Part

/-- The parts of a value, in order. -/
inductive HasParts : Value → List Part → Prop
  | none : HasParts none []
  | scalar {v : Value} : v.isScalar = true → HasParts v [.member v]
  | items {v items} : HasItems v items → HasParts v ((present items).map .member)
  | pairs {v pairs} : HasPairs v pairs →
      HasParts v ((presentPairs pairs).flatMap fun pair => [.name pair.1, .member pair.2])

theorem error?_pairText (s : Settings) (pair : Value × Value) : error? (pairText s pair)
    = (error? (keyText s pair.1)).or (error? (memberText s pair.2)) := by
  rw [pairText]
  rcases keyText s pair.1 with ob | key
  · rfl
  · rcases memberText s pair.2 with ob | text <;> rfl

/-- **Resolution fails as the first part that cannot be read.** -/
theorem HasParts.error?_resolve {parts : List Part} (h : v.HasParts parts) (s : Settings) :
    error? (v.resolve s) = parts.findSome? fun p => error? (p.read s) := by
  cases h with
  | none => rfl
  | scalar hscalar =>
    rw [resolve_of_isScalar hscalar, error?_map, List.findSome?_singleton]
    rfl
  | items hitems =>
    rw [hitems.resolve, error?_map, error?_mapM, List.findSome?_map]
    rfl
  | @pairs _ pairs hpairs =>
    rw [hpairs.resolve, error?_map, error?_mapM]
    have hpair : ∀ pair : Value × Value, error? (pairText s pair)
        = [Part.name pair.1, .member pair.2].findSome? fun p => error? (p.read s) := by
      intro pair
      rw [error?_pairText, List.findSome?_cons, List.findSome?_singleton, Part.read, Part.read]
      cases error? (keyText s pair.1) <;> rfl
    induction presentPairs pairs with
    | nil => rfl
    | cons pair rest ih =>
      rw [List.findSome?_cons, List.flatMap_cons, List.findSome?_append, ← ih, ← hpair]
      cases error? (pairText s pair) <;> rfl

/-! ### The classification -/

/-- **Resolution classifies every value whose scalars are formatted.**  It ends
in what the value means, undefined if and only if there is nothing in the value,
or it refuses the value, with the code of the first part that offends.  A value
has units, under whatever operator, unless it is undefined. -/
theorem resolve_classifies {parts : List Part} (h : v.HasParts parts)
    (hformats : ∀ p ∈ parts, p.Formats s) :
    (∀ r, v.resolve s = .ok r ↔ v.Means s r) ∧
      (v.resolve s = .ok .undefined ↔ v.Vacant) ∧
      ((∃ r, v.resolve s = .ok r) ∨ ∃ c, v.resolve s = .error (.cause c)) ∧
      ((∃ c, v.resolve s = .error (.cause c)) ↔ ∃ p ∈ parts, ∃ code, p.Offends s code) ∧
      (∀ code, (∃ c, v.resolve s = .error (.cause c) ∧ c.code = code) ↔
        ∃ before p after, parts = before ++ p :: after ∧
          (∀ q ∈ before, ∀ code', ¬ q.Offends s code') ∧ p.Offends s code) ∧
      ∀ r, v.resolve s = .ok r → ∀ (op : Operator) (spec : VarSpec),
        ∃ units, spec.units op r = .ok units ∧ (units = [] ↔ v.Vacant) := by
  have herror := h.error?_resolve s
  have hclear : ∀ p ∈ parts, error? (p.read s) = Option.none ↔ ∀ code, ¬ p.Offends s code :=
    fun p hp => (hformats p hp).error?_read_eq_none_iff
  have hsettles : (∃ r, v.resolve s = .ok r) ∨ ∃ c, v.resolve s = .error (.cause c) := by
    rcases hr : v.resolve s with ob | r
    · rw [← error?_eq_some, herror] at hr
      obtain ⟨p, hp, hfails⟩ := List.exists_of_findSome?_eq_some hr
      obtain ⟨c, hc⟩ := (hformats p hp).read_cases.resolve_left fun ⟨t, ht⟩ => by
        rw [ht] at hfails
        cases hfails
      rw [hc] at hfails
      exact .inr ⟨c, congrArg Except.error (Option.some.inj hfails).symm⟩
    · exact .inl ⟨r, rfl⟩
  have hoffence : ∀ code, (∃ c, v.resolve s = .error (.cause c) ∧ c.code = code) ↔
      ∃ before p after, parts = before ++ p :: after ∧
        (∀ q ∈ before, ∀ code', ¬ q.Offends s code') ∧ p.Offends s code := by
    intro code
    constructor
    · rintro ⟨c, hc, hcode⟩
      rw [← error?_eq_some, herror, List.findSome?_eq_some_iff] at hc
      obtain ⟨before, p, after, rfl, hp, hbefore⟩ := hc
      exact ⟨before, p, after, rfl,
        fun q hq => (hclear q (List.mem_append_left _ hq)).mp (hbefore q hq),
        Part.offends_iff.mpr ⟨c, error?_eq_some.mp hp, hcode⟩⟩
    · rintro ⟨before, p, after, rfl, hbefore, hp⟩
      obtain ⟨c, hc, hcode⟩ := Part.offends_iff.mp hp
      refine ⟨c, ?_, hcode⟩
      rw [← error?_eq_some, herror, List.findSome?_eq_some_iff]
      exact ⟨before, p, after, rfl, error?_eq_some.mpr hc,
        fun q hq => (hclear q (List.mem_append_left _ hq)).mpr (hbefore q hq)⟩
  refine ⟨fun r => resolve_eq_ok_iff, resolve_eq_undefined_iff, hsettles, ?_, hoffence, ?_⟩
  · constructor
    · rintro ⟨c, hc⟩
      obtain ⟨before, p, after, rfl, -, hp⟩ := (hoffence c.code).mp ⟨c, hc, rfl⟩
      exact ⟨p, List.mem_append_right _ List.mem_cons_self, c.code, hp⟩
    · rintro ⟨p, hp, code, hoffends⟩
      refine hsettles.resolve_left ?_
      intro hread
      rw [← error?_eq_none, herror, List.findSome?_eq_none_iff] at hread
      exact (hclear p hp).mp (hread p hp) code hoffends
  · intro r hr op spec
    refine ⟨_, spec.units_eq_ok op (resolve_sound hr), ?_⟩
    rw [spec.written_eq_nil_iff op (resolve_sound hr), ← resolve_eq_undefined_iff (s := s), hr,
      Except.ok.injEq]
    cases r <;> simp [Resolved.isDefined]

/-- A mapping with a pair that is left out although its key cannot be encoded,
a pair that can be read, and one neither part of which can: its key decides. -/
theorem resolve_classifies_key :
    let lone : Text := [.surrogate 0]
    let kept : List (Value × Value) :=
      [(.str (lit "a"), .bool true), (.str lone, .list [.str (lit "b")])]
    let v : Value := .map ((.str lone, .none) :: kept)
    let parts : List Part := [.name (.str (lit "a")), .member (.bool true), .name (.str lone),
      .member (.list [.str (lit "b")])]
    v.HasParts parts ∧ (∀ p ∈ parts, p.Formats .standard) ∧
      ∃ c, v.resolve .standard = .error (.cause c) ∧ c.code = lit "E_INVALID_UNICODE" := by
  intro lone kept v parts
  have hparts : v.HasParts parts := .pairs (.map _)
  have hformats : ∀ p ∈ parts, p.Formats .standard := by
    intro p hp f hfault
    simp only [parts, List.mem_cons, List.not_mem_nil, or_false] at hp
    rcases hp with rfl | rfl | rfl | rfl <;> cases hfault
  obtain ⟨-, -, -, -, hoffence, -⟩ := resolve_classifies hparts hformats
  refine ⟨hparts, hformats, (hoffence _).mpr
    ⟨parts.take 2, .name (.str lone), parts.drop 3, rfl, fun q hq => ?_, ?_⟩⟩
  · -- both parts of the first pair that is kept can be read
    rw [← (hformats q (List.mem_of_mem_take hq)).error?_read_eq_none_iff]
    rcases List.mem_cons.mp hq with rfl | hq
    · rfl
    · obtain rfl := List.mem_singleton.mp hq
      rfl
  · exact .surrogate rfl (by decide)

end UriExpansion.Value
