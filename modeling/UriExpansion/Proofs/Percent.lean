/-
UriExpansion/Proofs/Percent.lean

The encoder as a total function, the form of what it writes, and what happens
where two texts meet.

`encode` fails on a surrogate and on nothing else (`encode_eq_error_iff`).
`encoded` is the text that it writes otherwise (`encode_eq_ok`), and everything
below is about `encoded`.

What it writes is `UriText`: unreserved characters, reserved characters and
triplets, one after the other.  The grammar takes a triplet as one piece, the
encoder passes its three characters one by one.  `percent_induction` goes along
any text as the grammar does, a triplet at once; with it `uriText_iff` says that
the two views agree, and from it follow

* `uriText_encoded`: both profiles write `UriText`;
* `encoded_of_uriText`: the reserved profile changes nothing in `UriText`.

Encoding two texts one after the other differs from encoding them as one
exactly if a percent sign of the first finds its digits only with the help of
the second (`SplitsTriplet`), which means that a triplet straddles the junction
(`Text.Straddles`).  The percent sign is then kept instead of being encoded, which
makes the text shorter, so that a difference at one place is never made up for
at another (`encoded_flatten_iff`).
-/
import UriExpansion.Percent

namespace UriExpansion

/-- No code point of the text is a surrogate. -/
def Text.Encodable (t : Text) : Prop := ∀ c ∈ t, c.isSurrogate = false

instance (t : Text) : Decidable (Text.Encodable t) := by
  unfold Text.Encodable; infer_instance

theorem Text.not_encodable_iff {t : Text} :
    ¬ Text.Encodable t ↔ ∃ c ∈ t, c.isSurrogate = true := by
  simp [Text.Encodable]

namespace Percent

/-! ### The encoder as a total function -/

/-- The triplets of a code point; a surrogate leaves no trace. -/
def encodedOne : CodePoint → Text
  | .scalar c => (String.utf8EncodeChar c).flatMap triplet
  | .surrogate _ => []

/-- What stands for a code point that is followed by `rest`. -/
def Profile.place (p : Profile) (c : CodePoint) (rest : Text) : Text :=
  if p.keeps c rest then [c] else encodedOne c

/-- The encoded form of a text. -/
def encoded (p : Profile) : Text → Text
  | [] => []
  | c :: rest => p.place c rest ++ encoded p rest

@[simp] theorem encoded_nil (p : Profile) : encoded p [] = [] := rfl

@[simp] theorem encoded_cons (p : Profile) (c : CodePoint) (rest : Text) :
    encoded p (c :: rest) = p.place c rest ++ encoded p rest := rfl

/-- A text without surrogates is encoded, and `encoded` is the result. -/
theorem encode_eq_ok (p : Profile) {t : Text} (h : Text.Encodable t) :
    encode p t = .ok (encoded p t) := by
  induction t with
  | nil => rfl
  | cons c rest ih =>
    have hrest : Text.Encodable rest := fun d hd => h d (List.mem_cons_of_mem c hd)
    have hc : c.isSurrogate = false := h c List.mem_cons_self
    rw [encode, ih hrest, encoded_cons, Profile.place]
    cases c with
    | surrogate i => cases hc
    | scalar x => split <;> rfl

/-- A text with a surrogate is refused. -/
theorem encode_eq_error (p : Profile) {t : Text} (h : ¬ Text.Encodable t) :
    encode p t = .error .unencodable := by
  induction t with
  | nil => exact absurd (fun _ hc => absurd hc List.not_mem_nil) h
  | cons c rest ih =>
    rw [encode]
    cases c with
    | surrogate i =>
      have hkeeps : p.keeps (.surrogate i) rest = false := by
        cases p <;> simp [Profile.keeps, isUnreserved, isReserved, CodePoint.isAlphanum]
      rw [hkeeps]
      rfl
    | scalar x =>
      have hrest : ¬ Text.Encodable rest :=
        fun hrest => h (List.forall_mem_cons.mpr ⟨rfl, hrest⟩)
      rw [ih hrest]
      split <;> rfl

/-- The encoder fails on a surrogate and on nothing else. -/
theorem encode_eq_error_iff {p : Profile} {t : Text} {f : Fault} :
    encode p t = .error f ↔ f = .unencodable ∧ ∃ c ∈ t, c.isSurrogate = true := by
  rw [← Text.not_encodable_iff]
  by_cases ht : Text.Encodable t
  · simp [encode_eq_ok p ht, ht]
  · simp [encode_eq_error p ht, ht, eq_comm]

theorem encode_eq_ok_iff {p : Profile} {t out : Text} :
    encode p t = .ok out ↔ Text.Encodable t ∧ encoded p t = out := by
  by_cases ht : Text.Encodable t
  · simp [encode_eq_ok p ht, ht]
  · simp [encode_eq_error p ht, ht]

/-! ### Hexadecimal digits and triplets -/

/-- The ASCII letters by their numbers. -/
theorem isAlpha_iff {x : Char} : x.isAlpha = true ↔
    (65 ≤ x.val.toNat ∧ x.val.toNat ≤ 90) ∨ (97 ≤ x.val.toNat ∧ x.val.toNat ≤ 122) := by
  have hupper : x.isUpper = true ↔ 65 ≤ x.val.toNat ∧ x.val.toNat ≤ 90 := by
    show decide (65 ≤ x.val.toNat ∧ x.val.toNat ≤ 90) = true ↔ _
    exact decide_eq_true_iff
  have hlower : x.isLower = true ↔ 97 ≤ x.val.toNat ∧ x.val.toNat ≤ 122 := by
    show (decide (97 ≤ x.val.toNat) && decide (x.val.toNat ≤ 122)) = true ↔ _
    rw [Bool.and_eq_true, decide_eq_true_iff, decide_eq_true_iff]
  show (x.isUpper || x.isLower) = true ↔ _
  rw [Bool.or_eq_true, hupper, hlower]

/-- The decimal digits by their numbers. -/
theorem isDigit_iff {x : Char} : x.isDigit = true ↔ 48 ≤ x.val.toNat ∧ x.val.toNat ≤ 57 := by
  show (decide (48 ≤ x.val.toNat) && decide (x.val.toNat ≤ 57)) = true ↔ _
  rw [Bool.and_eq_true, decide_eq_true_iff, decide_eq_true_iff]

/-- The ASCII letters and digits by their numbers. -/
theorem isAlphanum_iff {x : Char} : x.isAlphanum = true ↔
    ((65 ≤ x.val.toNat ∧ x.val.toNat ≤ 90) ∨ (97 ≤ x.val.toNat ∧ x.val.toNat ≤ 122)) ∨
      (48 ≤ x.val.toNat ∧ x.val.toNat ≤ 57) := by
  show (x.isAlpha || x.isDigit) = true ↔ _
  rw [Bool.or_eq_true, isAlpha_iff, isDigit_iff]

/-- Hexadecimal digits are unreserved. -/
theorem isUnreserved_of_isHexDigit {c : CodePoint} (h : c.isHexDigit = true) :
    isUnreserved c = true := by
  cases c with
  | surrogate i => cases h
  | scalar x =>
    have hx : x.isAlphanum = true := by
      rw [isAlphanum_iff]
      simp only [CodePoint.isHexDigit, CodePoint.hexValue?, Char.le_def,
        UInt32.le_iff_toNat_le] at h
      split at h
      · next h09 =>
        exact .inr h09
      · split at h
        · next haf =>
          have hf : x.val.toNat ≤ 102 := haf.2
          exact .inl (.inr ⟨haf.1, by omega⟩)
        · split at h
          · next hAF =>
            have hF : x.val.toNat ≤ 70 := hAF.2
            exact .inl (.inl ⟨hAF.1, by omega⟩)
          · cases h
    simp [isUnreserved, CodePoint.isAlphanum, hx]

/-- Unreserved characters are ASCII. -/
theorem toNat_lt_of_isUnreserved {c : CodePoint} (h : isUnreserved c = true) : c.toNat < 128 := by
  cases c with
  | surrogate i => cases h
  | scalar x =>
    simp only [isUnreserved, CodePoint.isAlphanum, Bool.or_eq_true, decide_eq_true_eq,
      CodePoint.scalar.injEq] at h
    rcases h with (((h | rfl) | rfl) | rfl) | rfl
    · have halnum := isAlphanum_iff.mp h
      show x.val.toNat < 128
      omega
    all_goals decide

/-- Reserved characters are ASCII. -/
theorem toNat_lt_of_isReserved {c : CodePoint} (h : isReserved c = true) : c.toNat < 128 := by
  obtain ⟨x, hx, rfl⟩ := List.mem_map.mp (of_decide_eq_true h)
  let ascii : Char → Bool := fun x => (CodePoint.scalar x).toNat < 128
  have hx : ascii x = true := by
    refine List.all_eq_true.mp ?_ x hx
    decide
  exact of_decide_eq_true hx

theorem isHexDigit_hexDigit : ∀ n, n < 16 → (CodePoint.scalar (hexDigit n)).isHexDigit = true := by
  decide

/-- The two digits after a percent sign, as they stand in the text. -/
theorem exists_of_startsWithTwoHexDigits {t : Text} (h : startsWithTwoHexDigits t = true) :
    ∃ a b rest, t = a :: b :: rest ∧ a.isHexDigit = true ∧ b.isHexDigit = true := by
  match t, h with
  | a :: b :: rest, h =>
    obtain ⟨ha, hb⟩ := Bool.and_eq_true .. ▸ h
    exact ⟨a, b, rest, rfl, ha, hb⟩

/-- More text at the end does not take digits away. -/
theorem startsWithTwoHexDigits_append {t : Text} (h : startsWithTwoHexDigits t = true) (u : Text) :
    startsWithTwoHexDigits (t ++ u) = true := by
  obtain ⟨a, b, rest, rfl, ha, hb⟩ := exists_of_startsWithTwoHexDigits h
  simp [startsWithTwoHexDigits, ha, hb]

/-- Induction along a text that takes a triplet at once and everything else
one by one. -/
@[elab_as_elim]
theorem percent_induction {motive : Text → Prop} (nil : motive [])
    (plain : ∀ c rest, c ≠ CodePoint.scalar '%' → motive rest → motive (c :: rest))
    (bare : ∀ rest, startsWithTwoHexDigits rest = false → motive rest →
      motive (CodePoint.scalar '%' :: rest))
    (triplet : ∀ a b rest, a.isHexDigit = true → b.isHexDigit = true → motive rest →
      motive (CodePoint.scalar '%' :: a :: b :: rest)) (t : Text) : motive t := by
  induction hn : t.length using Nat.strongRecOn generalizing t with
  | ind n ih =>
    match t with
    | [] => exact nil
    | c :: rest =>
      have hrest : motive rest := ih rest.length (by simp [← hn]) rest rfl
      by_cases hc : c = CodePoint.scalar '%'
      · subst hc
        cases hdigits : startsWithTwoHexDigits rest with
        | false => exact bare rest hdigits hrest
        | true =>
          obtain ⟨a, b, rest', rfl, ha, hb⟩ := exists_of_startsWithTwoHexDigits hdigits
          exact triplet a b rest' ha hb (ih rest'.length (by simp [← hn]; omega) rest' rfl)
      · exact plain c rest hc hrest

/-! ### What the profiles keep -/

theorem keeps_of_isUnreserved (p : Profile) {c : CodePoint} (h : isUnreserved c = true)
    (rest : Text) : p.keeps c rest = true := by
  cases p <;> simp [Profile.keeps, h]

theorem keeps_append {p : Profile} {c : CodePoint} {rest : Text} (h : p.keeps c rest = true)
    (u : Text) : p.keeps c (rest ++ u) = true := by
  cases p with
  | strict => exact h
  | reserved =>
    simp only [Profile.keeps, Bool.or_eq_true, Bool.and_eq_true] at h ⊢
    rcases h with h | ⟨hc, h⟩
    · exact .inl h
    · exact .inr ⟨hc, startsWithTwoHexDigits_append h u⟩

/-- Whether the profile keeps every code point of the text where it stands. -/
def Profile.keepsAll (p : Profile) : Text → Bool
  | [] => true
  | c :: rest => p.keeps c rest && p.keepsAll rest

@[simp] theorem keepsAll_nil (p : Profile) : p.keepsAll [] = true := rfl

@[simp] theorem keepsAll_cons (p : Profile) (c : CodePoint) (rest : Text) :
    p.keepsAll (c :: rest) = (p.keeps c rest && p.keepsAll rest) := rfl

theorem keepsAll_append {p : Profile} {t u : Text} (ht : p.keepsAll t = true)
    (hu : p.keepsAll u = true) : p.keepsAll (t ++ u) = true := by
  induction t with
  | nil => exact hu
  | cons c rest ih =>
    obtain ⟨hc, hrest⟩ := Bool.and_eq_true .. ▸ ht
    rw [List.cons_append, keepsAll_cons, keeps_append hc u, ih hrest, Bool.and_self]

theorem encoded_of_keepsAll {p : Profile} {t : Text} (h : p.keepsAll t = true) :
    encoded p t = t := by
  induction t with
  | nil => rfl
  | cons c rest ih =>
    obtain ⟨hc, hrest⟩ := Bool.and_eq_true .. ▸ h
    rw [encoded_cons, Profile.place, if_pos hc, ih hrest, List.singleton_append]

/-- A triplet passes as a whole. -/
theorem encoded_triplet {a b : CodePoint} (ha : a.isHexDigit = true) (hb : b.isHexDigit = true)
    (rest : Text) : encoded .reserved (CodePoint.scalar '%' :: a :: b :: rest)
      = CodePoint.scalar '%' :: a :: b :: encoded .reserved rest := by
  have hpercent : Profile.reserved.keeps (CodePoint.scalar '%') (a :: b :: rest) = true := by
    simp [Profile.keeps, startsWithTwoHexDigits, ha, hb]
  have hka := keeps_of_isUnreserved .reserved (isUnreserved_of_isHexDigit ha) (b :: rest)
  have hkb := keeps_of_isUnreserved .reserved (isUnreserved_of_isHexDigit hb) rest
  simp only [encoded_cons, Profile.place, hpercent, hka, hkb, if_true, List.singleton_append]

/-- A percent sign that begins no triplet is encoded. -/
theorem encoded_bare {rest : Text} (h : startsWithTwoHexDigits rest = false) :
    encoded .reserved (CodePoint.scalar '%' :: rest) = lit "%25" ++ encoded .reserved rest := by
  have hkeeps : Profile.reserved.keeps (CodePoint.scalar '%') rest = false := by
    rw [Profile.keeps, h]
    rfl
  rw [encoded_cons, Profile.place, hkeeps]
  rfl

end Percent

/-! ### The text of a URI -/

open Percent

/-- Unreserved characters, reserved characters and triplets, one after the
other, and nothing else. -/
inductive UriText : Text → Prop
  | nil : UriText []
  | unreserved {c rest} : isUnreserved c = true → UriText rest → UriText (c :: rest)
  | reserved {c rest} : isReserved c = true → UriText rest → UriText (c :: rest)
  | triplet {a b rest} : a.isHexDigit = true → b.isHexDigit = true → UriText rest →
      UriText (CodePoint.scalar '%' :: a :: b :: rest)

/-- The digits of a triplet are unreserved, so that a triplet may as well be
read character by character. -/
theorem uriText_iff {t : Text} : UriText t ↔ Profile.reserved.keepsAll t = true := by
  constructor
  · intro h
    induction h with
    | nil => rfl
    | unreserved hc _ ih => simp [keeps_of_isUnreserved, hc, ih]
    | reserved hc _ ih => simp [Profile.keeps, hc, ih]
    | triplet ha hb _ ih =>
      simp [Profile.keeps, startsWithTwoHexDigits, ha, hb, isUnreserved_of_isHexDigit, ih]
  · induction t using percent_induction with
    | nil => exact fun _ => .nil
    | plain c rest hc ih =>
      intro h
      obtain ⟨hkeeps, hrest⟩ := Bool.and_eq_true .. ▸ h
      have hkept : isUnreserved c = true ∨ isReserved c = true := by
        simpa [Profile.keeps, hc] using hkeeps
      rcases hkept with hu | hr
      · exact .unreserved hu (ih hrest)
      · exact .reserved hr (ih hrest)
    | bare rest hdigits ih =>
      intro h
      obtain ⟨hkeeps, -⟩ := Bool.and_eq_true .. ▸ h
      rw [Profile.keeps, hdigits] at hkeeps
      cases hkeeps
    | triplet a b rest ha hb ih =>
      intro h
      simp only [keepsAll_cons, Bool.and_eq_true] at h
      exact .triplet ha hb (ih h.2.2.2)

theorem UriText.append {t u : Text} (ht : UriText t) (hu : UriText u) : UriText (t ++ u) :=
  uriText_iff.mpr (keepsAll_append (uriText_iff.mp ht) (uriText_iff.mp hu))

theorem UriText.flatten {ts : List Text} (h : ∀ t ∈ ts, UriText t) : UriText ts.flatten := by
  induction ts with
  | nil => exact .nil
  | cons t ts ih =>
    rw [List.flatten_cons]
    exact (h t List.mem_cons_self).append (ih fun u hu => h u (List.mem_cons_of_mem t hu))

theorem uriText_triplet (b : UInt8) : UriText (triplet b) := by
  have hb : b.toNat < 256 := b.toNat_lt
  exact .triplet (isHexDigit_hexDigit _ (by omega)) (isHexDigit_hexDigit _ (by omega)) .nil

theorem uriText_encodedOne (c : CodePoint) : UriText (encodedOne c) := by
  cases c with
  | surrogate i => exact .nil
  | scalar x =>
    rw [encodedOne, List.flatMap]
    refine UriText.flatten fun t ht => ?_
    obtain ⟨b, -, rfl⟩ := List.mem_map.mp ht
    exact uriText_triplet b

/-- The digits after a percent sign are kept by either profile. -/
theorem startsWithTwoHexDigits_encoded (p : Profile) {t : Text}
    (h : startsWithTwoHexDigits t = true) : startsWithTwoHexDigits (encoded p t) = true := by
  obtain ⟨a, b, rest, rfl, ha, hb⟩ := exists_of_startsWithTwoHexDigits h
  have hka := keeps_of_isUnreserved p (isUnreserved_of_isHexDigit ha) (b :: rest)
  have hkb := keeps_of_isUnreserved p (isUnreserved_of_isHexDigit hb) rest
  simp [Profile.place, hka, hkb, startsWithTwoHexDigits, ha, hb]

/-- **Whatever is encoded is the text of a URI.** -/
theorem uriText_encoded (p : Profile) (t : Text) : UriText (encoded p t) := by
  rw [uriText_iff]
  induction t with
  | nil => rfl
  | cons c rest ih =>
    rw [encoded_cons, Profile.place]
    split
    · next hk =>
      rw [List.singleton_append, keepsAll_cons, ih, Bool.and_true]
      cases p with
      | strict => exact keeps_of_isUnreserved .reserved hk _
      | reserved =>
        simp only [Profile.keeps, Bool.or_eq_true, Bool.and_eq_true] at hk ⊢
        rcases hk with hk | ⟨hc, hk⟩
        · exact .inl hk
        -- a kept percent sign still has its digits behind it, for they are kept too
        · exact .inr ⟨hc, startsWithTwoHexDigits_encoded .reserved hk⟩
    · exact keepsAll_append (uriText_iff.mp (uriText_encodedOne c)) ih

/-- **The text of a URI is encoded already.** -/
theorem encoded_of_uriText {t : Text} (h : UriText t) : encoded .reserved t = t :=
  encoded_of_keepsAll (uriText_iff.mp h)

/-! ### Where two texts meet -/

/-- Every percent sign of the text begins a triplet of the text. -/
def Text.PercentClosed (t : Text) : Prop :=
  ∀ before after, t = before ++ CodePoint.scalar '%' :: after →
    startsWithTwoHexDigits after = true

/-- A percent sign of `t` that begins no triplet of `t` begins one once `u`
follows. -/
def SplitsTriplet (t u : Text) : Prop :=
  ∃ before after, t = before ++ CodePoint.scalar '%' :: after ∧
    startsWithTwoHexDigits after = false ∧ startsWithTwoHexDigits (after ++ u) = true

/-- A triplet begins at the end of the first text and ends at the beginning of
the second. -/
def Text.Straddles (t u : Text) : Prop :=
  (∃ before, t = before ++ [CodePoint.scalar '%']) ∧ startsWithTwoHexDigits u = true ∨
    ∃ before a b rest, t = before ++ [CodePoint.scalar '%', a] ∧ u = b :: rest ∧
      a.isHexDigit = true ∧ b.isHexDigit = true

/-- A triplet is split if it straddles the junction: its percent sign has at
most one digit on its own side. -/
theorem splitsTriplet_iff_straddles {t u : Text} : SplitsTriplet t u ↔ t.Straddles u := by
  constructor
  · rintro ⟨before, after, rfl, hno, hyes⟩
    rcases after with - | ⟨a, - | ⟨b, after⟩⟩
    · exact .inl ⟨⟨before, rfl⟩, hyes⟩
    · rcases u with - | ⟨b, rest⟩
      · cases hyes
      · obtain ⟨ha, hb⟩ := Bool.and_eq_true .. ▸ hyes
        exact .inr ⟨before, a, b, rest, rfl, rfl, ha, hb⟩
    · -- with two characters behind it the percent sign is decided on its own side
      have hsame : startsWithTwoHexDigits (a :: b :: after ++ u)
          = startsWithTwoHexDigits (a :: b :: after) := rfl
      rw [hsame, hno] at hyes
      cases hyes
  · rintro (⟨⟨before, rfl⟩, hyes⟩ | ⟨before, a, b, rest, rfl, rfl, ha, hb⟩)
    · exact ⟨before, [], rfl, rfl, hyes⟩
    · refine ⟨before, [a], rfl, rfl, ?_⟩
      simp [startsWithTwoHexDigits, ha, hb]

namespace Percent

/-- A percent sign is no digit, so that nothing is split before it. -/
theorem not_splitsTriplet_percent (t u : Text) :
    ¬ SplitsTriplet t (CodePoint.scalar '%' :: u) := by
  rw [splitsTriplet_iff_straddles]
  rintro (⟨-, h⟩ | ⟨before, a, b, rest, -, hu, -, hb⟩)
  · rcases u with - | ⟨c, u⟩ <;> cases h
  · obtain ⟨rfl, -⟩ := List.cons.inj hu
    cases hb

theorem not_splitsTriplet_of_percentClosed {t : Text} (h : Text.PercentClosed t) (u : Text) :
    ¬ SplitsTriplet t u := by
  rintro ⟨before, after, ht, hno, -⟩
  rw [h before after ht] at hno
  cases hno

theorem percentClosed_cons {c : CodePoint} {rest : Text} : Text.PercentClosed (c :: rest) ↔
    (c = CodePoint.scalar '%' → startsWithTwoHexDigits rest = true) ∧ Text.PercentClosed rest := by
  constructor
  · intro h
    refine ⟨?_, fun before after hrest => h (c :: before) after (by rw [hrest, List.cons_append])⟩
    rintro rfl
    exact h [] rest rfl
  · rintro ⟨hc, hrest⟩ before after heq
    cases before with
    | nil =>
      obtain ⟨rfl, rfl⟩ := List.cons.inj heq
      exact hc rfl
    | cons d before =>
      obtain ⟨-, hr⟩ := List.cons.inj heq
      exact hrest before after hr

theorem percentClosed_nil : Text.PercentClosed [] := by
  intro before after h
  cases before <;> cases h

theorem percentClosed_append {t u : Text} (ht : Text.PercentClosed t)
    (hu : Text.PercentClosed u) : Text.PercentClosed (t ++ u) := by
  induction t with
  | nil => exact hu
  | cons c rest ih =>
    obtain ⟨hc, hrest⟩ := percentClosed_cons.mp ht
    exact percentClosed_cons.mpr
      ⟨fun h => startsWithTwoHexDigits_append (hc h) u, ih hrest⟩

/-- The percent signs of a URI begin triplets. -/
theorem percentClosed_of_uriText {t : Text} (h : UriText t) : Text.PercentClosed t := by
  induction h with
  | nil => exact percentClosed_nil
  | unreserved hc _ ih =>
    refine percentClosed_cons.mpr ⟨?_, ih⟩
    rintro rfl
    cases hc
  | reserved hc _ ih =>
    refine percentClosed_cons.mpr ⟨?_, ih⟩
    rintro rfl
    cases hc
  | @triplet a b rest ha hb _ ih =>
    have hdigit : ∀ {d : CodePoint}, d.isHexDigit = true → d ≠ CodePoint.scalar '%' := by
      rintro d hd rfl
      cases hd
    refine percentClosed_cons.mpr ⟨fun _ => by simp [startsWithTwoHexDigits, ha, hb], ?_⟩
    refine percentClosed_cons.mpr ⟨fun h => absurd h (hdigit ha), ?_⟩
    exact percentClosed_cons.mpr ⟨fun h => absurd h (hdigit hb), ih⟩

theorem splitsTriplet_cons {c : CodePoint} {rest u : Text} : SplitsTriplet (c :: rest) u ↔
    (c = CodePoint.scalar '%' ∧ startsWithTwoHexDigits rest = false ∧
      startsWithTwoHexDigits (rest ++ u) = true) ∨ SplitsTriplet rest u := by
  constructor
  · rintro ⟨before, after, heq, hno, hyes⟩
    cases before with
    | nil =>
      obtain ⟨rfl, rfl⟩ := List.cons.inj heq
      exact .inl ⟨rfl, hno, hyes⟩
    | cons d before =>
      obtain ⟨-, hr⟩ := List.cons.inj heq
      exact .inr ⟨before, after, hr, hno, hyes⟩
  · rintro (⟨rfl, hno, hyes⟩ | ⟨before, after, rfl, hno, hyes⟩)
    · exact ⟨[], rest, rfl, hno, hyes⟩
    · exact ⟨c :: before, after, rfl, hno, hyes⟩

/-- What stands for a code point changes with the text behind it only if a
percent sign finds its digits there. -/
theorem place_append {c : CodePoint} {rest u : Text}
    (h : ¬ (c = CodePoint.scalar '%' ∧ startsWithTwoHexDigits rest = false ∧
      startsWithTwoHexDigits (rest ++ u) = true)) :
    Profile.reserved.place c (rest ++ u) = Profile.reserved.place c rest := by
  have hkeeps : Profile.reserved.keeps c (rest ++ u) = Profile.reserved.keeps c rest := by
    cases hk : Profile.reserved.keeps c rest with
    | true => exact keeps_append hk u
    | false =>
      simp only [Profile.keeps, Bool.or_eq_false_iff, Bool.and_eq_false_iff] at hk ⊢
      refine ⟨hk.1, ?_⟩
      rcases hk.2 with hc | hno
      · exact .inl hc
      · by_cases hc : c = CodePoint.scalar '%'
        · exact .inr (by simpa [hc, hno] using h)
        · exact .inl (by simpa using hc)
  rw [Profile.place, Profile.place, hkeeps]

/-- A percent sign without digits takes three characters, with digits one. -/
theorem length_place_percent (rest : Text) :
    (Profile.reserved.place (CodePoint.scalar '%') rest).length
      = if startsWithTwoHexDigits rest = true then 1 else 3 := by
  cases h : startsWithTwoHexDigits rest with
  | true =>
    have hk : Profile.reserved.keeps (CodePoint.scalar '%') rest = true := by
      simp [Profile.keeps, h]
    rw [Profile.place, if_pos hk]
    rfl
  | false =>
    have hk : Profile.reserved.keeps (CodePoint.scalar '%') rest = false := by
      simp [Profile.keeps, h]
      exact ⟨rfl, rfl⟩
    rw [Profile.place, hk]
    rfl

/-- Texts that split no triplet are encoded one after the other. -/
theorem encoded_append_of_not_splits {t u : Text} (h : ¬ SplitsTriplet t u) :
    encoded .reserved (t ++ u) = encoded .reserved t ++ encoded .reserved u := by
  induction t with
  | nil => rfl
  | cons c rest ih =>
    obtain ⟨hc, hrest⟩ := not_or.mp (mt splitsTriplet_cons.mpr h)
    rw [List.cons_append, encoded_cons, encoded_cons, place_append hc, ih hrest,
      List.append_assoc]

/-- Encoding as one never makes a text longer than encoding apart, and makes
it shorter if a triplet is split. -/
theorem length_encoded_append_le (t u : Text) :
    (encoded .reserved (t ++ u)).length
      ≤ (encoded .reserved t).length + (encoded .reserved u).length ∧
    (SplitsTriplet t u → (encoded .reserved (t ++ u)).length
      < (encoded .reserved t).length + (encoded .reserved u).length) := by
  induction t with
  | nil =>
    refine ⟨by simp, ?_⟩
    rintro ⟨before, after, heq, -⟩
    cases before <;> cases heq
  | cons c rest ih =>
    obtain ⟨hle, hlt⟩ := ih
    rw [List.cons_append, encoded_cons, encoded_cons, List.length_append, List.length_append,
      splitsTriplet_cons]
    by_cases hc : c = CodePoint.scalar '%' ∧ startsWithTwoHexDigits rest = false ∧
        startsWithTwoHexDigits (rest ++ u) = true
    · obtain ⟨rfl, hno, hyes⟩ := hc
      -- kept in the whole, three characters long in the part
      rw [length_place_percent, length_place_percent, if_pos hyes, hno]
      simp only [Bool.false_eq_true, if_false]
      exact ⟨by omega, fun _ => by omega⟩
    · rw [place_append hc]
      refine ⟨by omega, fun h => ?_⟩
      have := hlt (h.resolve_left hc)
      omega

/-- **Two texts are encoded as one exactly where no triplet is split.** -/
theorem encoded_append_iff {t u : Text} :
    encoded .reserved (t ++ u) = encoded .reserved t ++ encoded .reserved u
      ↔ ¬ SplitsTriplet t u := by
  constructor
  · intro heq hsplit
    have hlt := (length_encoded_append_le t u).2 hsplit
    rw [heq, List.length_append] at hlt
    exact Nat.lt_irrefl _ hlt
  · exact encoded_append_of_not_splits

/-- Some text of the list splits a triplet with what follows it. -/
def SplitsAmong : List Text → Prop
  | [] => False
  | t :: ts => SplitsTriplet t ts.flatten ∨ SplitsAmong ts

theorem length_encoded_flatten_le (ts : List Text) :
    (encoded .reserved ts.flatten).length ≤ (ts.map (encoded .reserved)).flatten.length := by
  induction ts with
  | nil => exact Nat.le_refl 0
  | cons t ts ih =>
    have happend := (length_encoded_append_le t ts.flatten).1
    rw [List.flatten_cons, List.map_cons, List.flatten_cons, List.length_append]
    omega

/-- **Several texts are encoded as one exactly where none of them splits a
triplet.** -/
theorem encoded_flatten_iff {ts : List Text} :
    encoded .reserved ts.flatten = (ts.map (encoded .reserved)).flatten ↔ ¬ SplitsAmong ts := by
  induction ts with
  | nil => exact ⟨fun _ h => h, fun _ => rfl⟩
  | cons t ts ih =>
    rw [List.flatten_cons, List.map_cons, List.flatten_cons, SplitsAmong, not_or, ← ih]
    constructor
    · intro heq
      -- a split at the head costs length, and no later text gives it back
      have hsplit : ¬ SplitsTriplet t ts.flatten := by
        intro hsplit
        have hlt := (length_encoded_append_le t ts.flatten).2 hsplit
        have hle := length_encoded_flatten_le ts
        rw [heq, List.length_append] at hlt
        omega
      rw [encoded_append_of_not_splits hsplit] at heq
      exact ⟨hsplit, List.append_cancel_left heq⟩
    · rintro ⟨hsplit, heq⟩
      rw [encoded_append_of_not_splits hsplit, heq]

end Percent

end UriExpansion
