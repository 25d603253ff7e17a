/-
UriExpansion/Proofs/Grammar.lean

The grammar of expression bodies: what a body that is read consists of, and
that a printed body is read back.

A name is a sequence of letters, digits, underscores and triplets with single
dots between them (`VarSpec.Name`).  A variable is well formed if its name is a
name and its length, if it has one, is a number from 1 to 10000; a variable
list is well formed if its variables are and no name occurs twice.

* `readBody_sound`: what is read is a well-formed list, and not empty.
* `readBody_print`: the operator's symbol and a well-formed list, printed one
  after the other, are read as that operator and that list.

Nothing in a printed variable is a comma, a brace or the symbol of an operator
at its beginning; that is why the list can be cut at its commas and the
operator be told from the list.
-/
import UriExpansion.Proofs.Outcome
import UriExpansion.Proofs.Percent
import UriExpansion.Template.Grammar

namespace UriExpansion

open Percent

/-! ### Cutting at a separator -/

namespace Text

/-- The project's cut is the library's. -/
theorem split_eq_splitOn (sep : CodePoint) (t : Text) : split sep t = t.splitOn sep := by
  induction t with
  | nil => rfl
  | cons c rest ih =>
    rw [split, List.splitOn_cons_eq_if_modifyHead, ih]
    by_cases hc : c = sep
    · simp [hc]
    · have hne := List.splitOn_ne_nil sep rest
      rcases h : rest.splitOn sep with - | ⟨p, ps⟩
      · exact absurd h hne
      · simp [hc]

/-- Joined pieces without the separator are cut apart again. -/
theorem split_intercalate {sep : CodePoint} {pieces : List Text} (hne : pieces ≠ [])
    (h : ∀ p ∈ pieces, sep ∉ p) : split sep (List.intercalate [sep] pieces) = pieces := by
  rw [split_eq_splitOn, List.splitOn_intercalate sep h hne]

/-- What holds of the pieces and of the separator holds of them joined. -/
theorem intercalate_induction {P : Text → Prop} (hnil : P [])
    (happend : ∀ t u, P t → P u → P (t ++ u)) {sep : Text} (hsep : P sep) {pieces : List Text}
    (h : ∀ p ∈ pieces, P p) : P (List.intercalate sep pieces) := by
  induction pieces with
  | nil => exact hnil
  | cons p ps ih =>
    obtain ⟨hp, hps⟩ := List.forall_mem_cons.mp h
    rcases ps with - | ⟨q, qs⟩
    · rwa [List.intercalate_singleton]
    · rw [List.intercalate_cons_cons]
      exact happend _ _ (happend _ _ hp hsep) (ih hps)

/-- The pieces of two texts with a separator between them. -/
theorem split_append_cons (sep : CodePoint) (t u : Text) :
    split sep (t ++ sep :: u) = split sep t ++ split sep u := by
  rw [split_eq_splitOn, split_eq_splitOn, split_eq_splitOn, List.splitOn_append_cons_self]

/-- No piece holds the separator. -/
theorem not_mem_of_mem_split {sep : CodePoint} {t piece : Text} (h : piece ∈ split sep t) :
    sep ∉ piece := by
  induction t generalizing piece with
  | nil =>
    obtain rfl := List.mem_singleton.mp h
    exact List.not_mem_nil
  | cons c rest ih =>
    rw [split] at h
    split at h
    · rcases List.mem_cons.mp h with rfl | h
      · exact List.not_mem_nil
      · exact ih h
    · next hc =>
      have hsep : sep ≠ c := fun heq => hc heq.symm
      split at h
      · obtain rfl := List.mem_singleton.mp h
        exact fun hm => hsep (List.mem_singleton.mp hm)
      · next first pieces hsplit =>
        rcases List.mem_cons.mp h with rfl | h
        · have hfirst : sep ∉ first := ih (hsplit ▸ List.mem_cons_self)
          exact List.not_mem_cons_of_ne_of_not_mem hsep hfirst
        · exact ih (hsplit ▸ List.mem_cons_of_mem first h)

/-- A text is cut at the first separator. -/
theorem cutAt_append {sep : CodePoint} {t : Text} (h : sep ∉ t) (u : Text) :
    cutAt sep (t ++ sep :: u) = (t, some u) := by
  have hall : ∀ c ∈ t, decide (c ≠ sep) = true := by
    intro c hc
    exact decide_eq_true fun heq => h (heq ▸ hc)
  rw [cutAt, List.dropWhile_append_of_pos hall, List.takeWhile_append_of_pos hall]
  simp

/-- A text without the separator is not cut. -/
theorem cutAt_of_not_mem {sep : CodePoint} {t : Text} (h : sep ∉ t) :
    cutAt sep t = (t, none) := by
  have hall : ∀ c ∈ t, decide (c ≠ sep) = true := by
    intro c hc
    exact decide_eq_true fun heq => h (heq ▸ hc)
  have hdrop : (t ++ []).dropWhile (· ≠ sep) = [] := List.dropWhile_append_of_pos hall
  have htake : (t ++ []).takeWhile (· ≠ sep) = t ++ [] := List.takeWhile_append_of_pos hall
  rw [List.append_nil] at hdrop htake
  rw [cutAt, hdrop, htake]

/-- A text that is cut is its two parts with the separator between them. -/
theorem eq_of_cutAt {sep : CodePoint} {t a u : Text} (h : cutAt sep t = (a, some u)) :
    t = a ++ sep :: u := by
  rw [cutAt] at h
  have hwhole := List.takeWhile_append_dropWhile (p := fun c => decide (c ≠ sep)) (l := t)
  split at h
  · cases h
  · next c rest hdrop =>
    obtain ⟨rfl, hu⟩ := Prod.mk.inj h
    obtain rfl := Option.some.inj hu
    have hc : c = sep := by
      have hhead := List.head?_dropWhile_not (fun c => decide (c ≠ sep)) t
      rw [hdrop] at hhead
      simpa using hhead
    rw [hdrop, hc] at hwhole
    exact hwhole.symm

/-- Before the cut there is no separator. -/
theorem not_mem_fst_cutAt (sep : CodePoint) (t : Text) : sep ∉ (cutAt sep t).1 := by
  have hfront : (cutAt sep t).1 = t.takeWhile (· ≠ sep) := by
    rw [cutAt]
    split <;> rfl
  intro hm
  rw [hfront] at hm
  have hsep := List.all_eq_true.mp List.all_takeWhile sep hm
  exact of_decide_eq_true hsep rfl

/-- A text that is not cut stays whole. -/
theorem eq_of_cutAt_none {sep : CodePoint} {t a : Text} (h : cutAt sep t = (a, none)) :
    a = t := by
  rw [cutAt] at h
  split at h
  · next hdrop =>
    obtain ⟨rfl, -⟩ := Prod.mk.inj h
    have hwhole := List.takeWhile_append_dropWhile (p := fun c => decide (c ≠ sep)) (l := t)
    rwa [hdrop, List.append_nil] at hwhole
  · cases h

/-! ### Numbers -/

/-- The value of the digits of a number is the number. -/
theorem decimalValue_ofNat (n : Nat) : decimalValue (ofNat n) = n := by
  have hfold : ∀ (cs : List Char) (init : Nat), (∀ c ∈ cs, c.isDigit = true) →
      (cs.map CodePoint.scalar).foldl (fun n c => n * 10 + c.digitValue) init
        = Nat.ofDigitChars 10 cs init := by
    intro cs
    induction cs with
    | nil => intro init _; simp
    | cons c cs ih =>
      intro init h
      have hc : c.isDigit = true := h c List.mem_cons_self
      rw [List.map_cons, List.foldl_cons, ih _ fun d hd => h d (List.mem_cons_of_mem c hd),
        Nat.ofDigitChars_cons, CodePoint.digitValue, if_pos hc, Nat.mul_comm]
      rfl
  rw [decimalValue, ofNat,
    hfold _ 0 fun c hc => Nat.isDigit_of_mem_toDigits (by decide) (by decide) hc]
  exact Nat.ofDigitChars_ten_toDigits

/-- The digits of a positive number do not begin with a zero. -/
theorem head_toDigits_ne_zero {n : Nat} (h : 0 < n) :
    ∃ c cs, Nat.toDigits 10 n = c :: cs ∧ c ≠ '0' := by
  induction n using Nat.strongRecOn with
  | ind n ih =>
    by_cases hlt : n < 10
    · refine ⟨n.digitChar, [], Nat.toDigits_of_lt_base hlt, ?_⟩
      have hdigit : ∀ m, m < 10 → 0 < m → m.digitChar ≠ '0' := by decide
      exact hdigit n hlt h
    · obtain ⟨c, cs, hcs, hc⟩ := ih (n / 10) (by omega) (by omega)
      refine ⟨c, cs ++ [(n % 10).digitChar], ?_, hc⟩
      rw [Nat.toDigits_of_base_le (by decide) (by omega), hcs, List.cons_append]

/-- A digit is the numeral of its value. -/
theorem ofNat_digitValue {c : CodePoint} (h : c.isDigit = true) :
    c.digitValue < 10 ∧ ofNat c.digitValue = [c] := by
  cases c with
  | surrogate i => cases h
  | scalar x =>
    have hx : x.isDigit = true := h
    have hbounds : 48 ≤ x.toNat ∧ x.toNat ≤ 57 := by
      simp only [Char.isDigit, Bool.and_eq_true, decide_eq_true_eq, ge_iff_le,
        UInt32.le_iff_toNat_le] at hx
      exact hx
    have hlt : x.toNat - 48 < 10 := by omega
    have hchar : (x.toNat - 48).digitChar = x := by
      refine Char.toNat_inj.mp ?_
      rw [Nat.toNat_digitChar_of_lt_ten hlt]
      omega
    rw [CodePoint.digitValue, if_pos hx]
    refine ⟨hlt, ?_⟩
    rw [ofNat, Nat.toDigits_of_lt_base hlt, hchar, List.map_singleton]

/-- Digits written behind a positive number go on with its numeral. -/
theorem ofNat_append {n : Nat} (hn : 0 < n) {digits : Text}
    (h : ∀ c ∈ digits, c.isDigit = true) :
    ofNat n ++ digits = ofNat (digits.foldl (fun n c => n * 10 + c.digitValue) n) := by
  induction digits generalizing n with
  | nil => rw [List.append_nil, List.foldl_nil]
  | cons c rest ih =>
    obtain ⟨hc, hrest⟩ := List.forall_mem_cons.mp h
    obtain ⟨hlt, hdigit⟩ := ofNat_digitValue hc
    have hstep : ofNat n ++ [c] = ofNat (n * 10 + c.digitValue) := by
      rw [← hdigit, ofNat, ofNat, ← List.map_append,
        Nat.toDigits_append_toDigits (by decide) hn hlt, Nat.mul_comm]
      rfl
    rw [List.foldl_cons, ← ih (by omega) hrest, ← hstep, List.append_assoc,
      List.singleton_append]

/-- Digits without a leading zero are the numeral of their value. -/
theorem eq_ofNat_decimalValue {c : CodePoint} {rest : Text}
    (h : ∀ d ∈ c :: rest, d.isDigit = true) (hc : c ≠ CodePoint.scalar '0') :
    c :: rest = ofNat (decimalValue (c :: rest)) := by
  obtain ⟨hdigit, hrest⟩ := List.forall_mem_cons.mp h
  obtain ⟨-, hone⟩ := ofNat_digitValue hdigit
  have hpos : 0 < c.digitValue := by
    refine Nat.pos_of_ne_zero fun hzero => hc ?_
    rw [hzero] at hone
    exact (List.cons.inj hone).1.symm
  have happend := ofNat_append hpos hrest
  rw [hone, List.singleton_append] at happend
  rw [decimalValue, List.foldl_cons, Nat.zero_mul, Nat.zero_add]
  exact happend

end Text

namespace VarSpec

theorem readLength?_ofNat {n : Nat} (h₁ : 1 ≤ n) (h₂ : n ≤ maxLength) :
    readLength? (Text.ofNat n) = some n := by
  obtain ⟨c, cs, hcs, hc⟩ := Text.head_toDigits_ne_zero (n := n) (by omega)
  have hcons : Text.ofNat n = CodePoint.scalar c :: cs.map CodePoint.scalar := by
    rw [Text.ofNat, hcs, List.map_cons]
  have hdigits : (Text.ofNat n).all CodePoint.isDigit = true := by
    rw [Text.ofNat, List.all_map, List.all_eq_true]
    exact fun d hd => Nat.isDigit_of_mem_toDigits (by decide) (by decide) hd
  have hlength : (Text.ofNat n).length ≤ 5 := by
    rw [Text.ofNat, List.length_map, Nat.length_toDigits_le_iff (by decide) (by decide)]
    exact Nat.lt_of_le_of_lt h₂ (by decide)
  have hvalue := Text.decimalValue_ofNat n
  rw [hcons] at hdigits hlength hvalue ⊢
  rw [readLength?, hdigits, hvalue]
  have hzero : CodePoint.scalar c ≠ CodePoint.scalar '0' := fun h => hc (by injection h)
  simpa [hzero, h₂] using hlength

/-- A length that is read is the numeral of the number. -/
theorem eq_ofNat_of_readLength? {t : Text} {n : Nat} (h : readLength? t = some n) :
    t = Text.ofNat n := by
  match t, h with
  | c :: rest, h =>
    rw [readLength?] at h
    split at h
    · next hcond =>
      simp only [Bool.and_eq_true, decide_eq_true_eq, ne_eq] at hcond
      obtain ⟨⟨⟨hdigits, hzero⟩, -⟩, -⟩ := hcond
      obtain rfl := Option.some.inj h
      exact Text.eq_ofNat_decimalValue (List.all_eq_true.mp hdigits) hzero
    · cases h

/-- A length that is read is in range. -/
theorem readLength?_bounds {t : Text} {n : Nat} (h : readLength? t = some n) :
    1 ≤ n ∧ n ≤ maxLength := by
  constructor
  · -- the numeral of zero begins with a zero and is not read
    refine Nat.pos_of_ne_zero ?_
    rintro rfl
    rw [eq_ofNat_of_readLength? h] at h
    cases h
  · match t, h with
    | c :: rest, h =>
      rw [readLength?] at h
      split at h
      · next hcond =>
        obtain rfl := Option.some.inj h
        simp only [Bool.and_eq_true, decide_eq_true_eq] at hcond
        exact hcond.2
      · cases h

/-! ### Names -/

/-- A character of a name: a letter, a digit, an underscore or a triplet. -/
inductive NameUnit : Text → Prop
  | char {c} : isNameChar c = true → NameUnit [c]
  | triplet {a b} : a.isHexDigit = true → b.isHexDigit = true →
      NameUnit [CodePoint.scalar '%', a, b]

/-- Characters of names, one after the other, with single dots between them. -/
inductive Name : Text → Prop
  | one {u} : NameUnit u → Name u
  | cons {u t} : NameUnit u → Name t → Name (u ++ t)
  | dot {u t} : NameUnit u → Name t → Name (u ++ CodePoint.scalar '.' :: t)

/-- What may follow a character of a name. -/
def NameRest (t : Text) : Prop := t = [] ∨ Name t ∨ ∃ u, t = CodePoint.scalar '.' :: u ∧ Name u

theorem NameUnit.append {u t : Text} (hu : NameUnit u) (ht : NameRest t) : Name (u ++ t) := by
  rcases ht with rfl | ht | ⟨v, rfl, hv⟩
  · rw [List.append_nil]
    exact .one hu
  · exact .cons hu ht
  · exact .dot hu hv

mutual

theorem name_of_isName (t : Text) (h : isName t = true) : Name t := by
  match t, h with
  | c :: rest, h =>
    unfold isName at h
    split at h
    · next hc => exact (NameUnit.char hc).append (nameRest_of_isNameRest rest h)
    · split at h
      · next a b rest' =>
        simp only [Bool.and_eq_true, decide_eq_true_eq] at h
        obtain ⟨⟨⟨rfl, ha⟩, hb⟩, hrest⟩ := h
        exact (NameUnit.triplet ha hb).append (nameRest_of_isNameRest rest' hrest)
      · cases h

theorem nameRest_of_isNameRest (t : Text) (h : isNameRest t = true) : NameRest t := by
  match t, h with
  | [], _ => exact .inl rfl
  | c :: rest, h =>
    unfold isNameRest at h
    split at h
    · next hdot => exact .inr (.inr ⟨rest, by rw [hdot], name_of_isName rest h⟩)
    · split at h
      · next hc => exact .inr (.inl ((NameUnit.char hc).append (nameRest_of_isNameRest rest h)))
      · split at h
        · next a b rest' =>
          simp only [Bool.and_eq_true, decide_eq_true_eq] at h
          obtain ⟨⟨⟨rfl, ha⟩, hb⟩, hrest⟩ := h
          exact .inr (.inl ((NameUnit.triplet ha hb).append (nameRest_of_isNameRest rest' hrest)))
        · cases h

end

theorem isUnreserved_of_isNameChar {c : CodePoint} (h : isNameChar c = true) :
    isUnreserved c = true := by
  simp only [isNameChar, Bool.or_eq_true] at h
  rcases h with h | h <;> simp [isUnreserved, h]

theorem NameUnit.uriText {u : Text} (h : NameUnit u) : UriText u := by
  cases h with
  | char hc => exact .unreserved (isUnreserved_of_isNameChar hc) .nil
  | triplet ha hb => exact .triplet ha hb .nil

/-- A name can stand in a URI as it is. -/
theorem Name.uriText {t : Text} (h : Name t) : UriText t := by
  induction h with
  | one hu => exact hu.uriText
  | cons hu _ ih => exact hu.uriText.append ih
  | dot hu _ ih => exact hu.uriText.append (.unreserved rfl ih)

/-- No name is empty, and none begins with the symbol of an operator. -/
theorem Name.head {t : Text} (h : Name t) :
    ∃ c rest, t = c :: rest ∧ (isNameChar c = true ∨ c = CodePoint.scalar '%') := by
  have hunit : ∀ {u}, NameUnit u → ∀ t : Text,
      ∃ c rest, u ++ t = c :: rest ∧ (isNameChar c = true ∨ c = CodePoint.scalar '%') := by
    intro u hu t
    cases hu with
    | char hc => exact ⟨_, t, rfl, .inl hc⟩
    | triplet ha hb => exact ⟨_, _, rfl, .inr rfl⟩
  cases h with
  | one hu => simpa using hunit hu []
  | cons hu _ => exact hunit hu _
  | dot hu _ => exact hunit hu _

/-- Names are made of unreserved characters and percent signs. -/
theorem Name.mem {t : Text} (h : Name t) :
    ∀ c ∈ t, isUnreserved c = true ∨ c = CodePoint.scalar '%' := by
  have hunit : ∀ {u}, NameUnit u → ∀ c ∈ u, isUnreserved c = true ∨ c = CodePoint.scalar '%' := by
    intro u hu c hc
    cases hu with
    | char hd =>
      rw [List.mem_singleton.mp hc]
      exact .inl (isUnreserved_of_isNameChar hd)
    | triplet ha hb =>
      simp only [List.mem_cons, List.not_mem_nil, or_false] at hc
      rcases hc with rfl | rfl | rfl
      · exact .inr rfl
      · exact .inl (isUnreserved_of_isHexDigit ha)
      · exact .inl (isUnreserved_of_isHexDigit hb)
  intro c hc
  induction h with
  | one hu => exact hunit hu c hc
  | cons hu _ ih => exact (List.mem_append.mp hc).elim (hunit hu c) ih
  | dot hu _ ih =>
    rcases List.mem_append.mp hc with hc | hc
    · exact hunit hu c hc
    · rcases List.mem_cons.mp hc with rfl | hc
      · exact .inl rfl
      · exact ih hc

/-- A character that is neither unreserved nor a percent sign is in no name. -/
theorem Name.not_mem {t : Text} (h : Name t) {c : CodePoint} (hc : isUnreserved c = false)
    (hp : c ≠ CodePoint.scalar '%') : c ∉ t := by
  intro hm
  rcases h.mem c hm with hu | hu
  · rw [hc] at hu
    cases hu
  · exact hp hu

/-! ### Variables -/

/-- A variable as it can be read: its name passes the check and its length,
if it has one, is in range. -/
structure WellFormed (spec : VarSpec) : Prop where
  name : checkName spec.name = .ok ()
  length : ∀ n, spec.modifier = .upTo n → 1 ≤ n ∧ n ≤ maxLength

theorem name_of_checkName {t : Text} (h : checkName t = .ok ()) : Name t := by
  rw [checkName] at h
  split at h
  · cases h
  · split at h
    · next hname => exact name_of_isName t hname
    · cases h

theorem WellFormed.isName {spec : VarSpec} (h : spec.WellFormed) : Name spec.name :=
  name_of_checkName h.name

/-- The three ways in which a modifier is read. -/
theorem readModifier_cases {t : Text} {spec : VarSpec} (h : readModifier t = .ok spec) :
    (∃ name, t = name ++ lit "*" ∧ spec = ⟨name, .explode⟩) ∨
      t.getLast? ≠ some (CodePoint.scalar '*') ∧
        (Text.cutAt ':' t = (t, none) ∧ spec = ⟨t, .none⟩ ∨
          ∃ name length n, Text.cutAt ':' t = (name, some length) ∧
            readLength? length = some n ∧ spec = ⟨name, .upTo n⟩) := by
  rw [readModifier] at h
  split at h
  · cases h
  · split at h
    · next hlast =>
      split at h
      · cases h
      · obtain ⟨name, rfl⟩ := List.getLast?_eq_some_iff.mp hlast
        rw [List.dropLast_concat] at h
        exact .inl ⟨name, rfl, (Except.ok.inj h).symm⟩
    · next hlast =>
      refine .inr ⟨hlast, ?_⟩
      split at h
      · next hcut =>
        rw [Text.eq_of_cutAt_none hcut] at hcut
        exact .inl ⟨hcut, (Except.ok.inj h).symm⟩
      · next name length hcut =>
        split at h
        · next n hn => exact .inr ⟨name, length, n, hcut, hn, (Except.ok.inj h).symm⟩
        · cases h

/-- What is read as a modifier is in range. -/
theorem readModifier_length {t : Text} {spec : VarSpec} (h : readModifier t = .ok spec) :
    ∀ n, spec.modifier = .upTo n → 1 ≤ n ∧ n ≤ maxLength := by
  intro n hn
  rcases readModifier_cases h with ⟨_, -, rfl⟩ | ⟨-, ⟨-, rfl⟩ | ⟨_, _, m, -, hm, rfl⟩⟩
  · cases hn
  · cases hn
  · obtain rfl := Modifier.upTo.inj hn
    exact readLength?_bounds hm

/-- A variable that is read has passed every check. -/
theorem checks_of_read {seen : List Text} {t : Text} {spec : VarSpec} (h : read seen t = .ok spec) :
    readModifier t = .ok spec ∧ checkName spec.name = .ok () ∧ spec.name ∉ seen := by
  unfold read at h
  obtain ⟨spec', hm, h⟩ := bind_eq_ok.mp h
  obtain ⟨_, hc, h⟩ := bind_eq_ok.mp h
  by_cases hs : spec'.name ∈ seen
  · rw [if_pos hs] at h
    cases h
  · rw [if_neg hs] at h
    obtain rfl := Except.ok.inj h
    exact ⟨hm, hc, hs⟩

/-- What a variable that is read guarantees. -/
theorem read_sound {seen : List Text} {t : Text} {spec : VarSpec} (h : read seen t = .ok spec) :
    spec.WellFormed ∧ spec.name ∉ seen := by
  obtain ⟨hm, hc, hs⟩ := checks_of_read h
  exact ⟨⟨hc, readModifier_length hm⟩, hs⟩

/-- A variable list as it can be read. -/
structure WellFormedList (specs : List VarSpec) : Prop where
  ne_nil : specs ≠ []
  each : ∀ spec ∈ specs, spec.WellFormed
  nodup : (specs.map VarSpec.name).Nodup

/-- What is left of a list can be read as well. -/
theorem WellFormedList.drop {specs : List VarSpec} (h : WellFormedList specs) {n : Nat}
    (hn : n < specs.length) : WellFormedList (specs.drop n) where
  ne_nil := fun hnil => absurd (List.drop_eq_nil_iff.mp hnil) (Nat.not_le_of_lt hn)
  each := fun spec hspec => h.each spec (List.mem_of_mem_drop hspec)
  nodup := by
    rw [List.map_drop]
    exact h.nodup.sublist (List.drop_sublist n _)

/-- A list is read if its first variable is, and the others with one more name seen. -/
theorem readAll_cons_eq_ok {seen : List Text} {t : Text} {ts : List Text} {specs : List VarSpec} :
    readAll seen (t :: ts) = .ok specs ↔
      ∃ spec rest, specs = spec :: rest ∧ read seen t = .ok spec ∧
        readAll (spec.name :: seen) ts = .ok rest := by
  rw [readAll, bind_eq_ok]
  constructor
  · rintro ⟨spec, hspec, h⟩
    obtain ⟨rest, hrest, h⟩ := bind_eq_ok.mp h
    exact ⟨spec, rest, (Except.ok.inj h).symm, hspec, hrest⟩
  · rintro ⟨spec, rest, rfl, hspec, hrest⟩
    exact ⟨spec, hspec, bind_eq_ok.mpr ⟨rest, hrest, rfl⟩⟩

/-- What a variable list that is read guarantees. -/
theorem readAll_sound {seen : List Text} {ts : List Text} {specs : List VarSpec}
    (h : readAll seen ts = .ok specs) :
    specs.length = ts.length ∧ (∀ spec ∈ specs, spec.WellFormed ∧ spec.name ∉ seen) ∧
      (specs.map VarSpec.name).Nodup := by
  induction ts generalizing seen specs with
  | nil =>
    obtain rfl := Except.ok.inj h
    exact ⟨rfl, fun _ h => absurd h List.not_mem_nil, List.nodup_nil⟩
  | cons t ts ih =>
    obtain ⟨spec, rest, rfl, hr, hs⟩ := readAll_cons_eq_ok.mp h
    obtain ⟨hlen, heach, hnodup⟩ := ih hs
    refine ⟨by rw [List.length_cons, hlen, List.length_cons], ?_, ?_⟩
    · intro spec' hm
      rcases List.mem_cons.mp hm with rfl | hm
      · exact read_sound hr
      · obtain ⟨hwf, hnot⟩ := heach spec' hm
        exact ⟨hwf, fun hin => hnot (List.mem_cons_of_mem _ hin)⟩
    · rw [List.map_cons, List.nodup_cons]
      refine ⟨fun hin => ?_, hnodup⟩
      obtain ⟨spec', hm, heq⟩ := List.mem_map.mp hin
      exact (heach spec' hm).2 (heq ▸ List.mem_cons_self)

/-! ### Printed variables -/

theorem isDigit_of_mem_ofNat {n : Nat} {c : CodePoint} (h : c ∈ Text.ofNat n) :
    c.isDigit = true := by
  obtain ⟨x, hx, rfl⟩ := List.mem_map.mp h
  exact Nat.isDigit_of_mem_toDigits (by decide) (by decide) hx

theorem isUnreserved_of_isDigit {c : CodePoint} (h : c.isDigit = true) :
    isUnreserved c = true := by
  cases c with
  | surrogate i => cases h
  | scalar x =>
    have hx : x.isDigit = true := h
    simp [isUnreserved, CodePoint.isAlphanum, Char.isAlphanum, hx]

/-- Besides the characters of names, only a colon or a star occurs in a
printed variable. -/
theorem not_mem_toText {spec : VarSpec} (h : spec.WellFormed) {c : CodePoint}
    (hc : isUnreserved c = false) (hp : c ≠ CodePoint.scalar '%')
    (hcolon : c ≠ CodePoint.scalar ':') (hstar : c ≠ CodePoint.scalar '*') :
    c ∉ spec.toText := by
  have hname := h.isName.not_mem hc hp
  intro hm
  rw [toText] at hm
  split at hm
  · exact hname hm
  · rcases List.mem_append.mp hm with hm | hm
    · rcases List.mem_append.mp hm with hm | hm
      · exact hname hm
      · exact hcolon (List.mem_singleton.mp hm)
    · rw [isUnreserved_of_isDigit (isDigit_of_mem_ofNat hm)] at hc
      cases hc
  · rcases List.mem_append.mp hm with hm | hm
    · exact hname hm
    · exact hstar (List.mem_singleton.mp hm)

/-- A printed variable begins like its name. -/
theorem toText_head {spec : VarSpec} (h : spec.WellFormed) :
    ∃ c rest, spec.toText = c :: rest ∧ (isNameChar c = true ∨ c = CodePoint.scalar '%') := by
  obtain ⟨c, rest, hname, hc⟩ := h.isName.head
  rw [toText]
  split
  · exact ⟨c, rest, hname, hc⟩
  · next n _ =>
    exact ⟨c, rest ++ lit ":" ++ Text.ofNat n, by rw [hname, List.cons_append, List.cons_append],
      hc⟩
  · exact ⟨c, rest ++ lit "*", by rw [hname, List.cons_append], hc⟩

/-- The modifier of a printed variable is read back. -/
theorem readModifier_toText {spec : VarSpec} (h : spec.WellFormed) :
    readModifier spec.toText = .ok spec := by
  obtain ⟨c, rest, hcons, -⟩ := toText_head h
  have hempty : spec.toText.isEmpty = false := by rw [hcons]; rfl
  have hstar : CodePoint.scalar '*' ∉ spec.name := h.isName.not_mem rfl (by decide)
  have hcolon : CodePoint.scalar ':' ∉ spec.name := h.isName.not_mem rfl (by decide)
  rw [readModifier, hempty]
  obtain ⟨name, modifier⟩ := spec
  cases modifier with
  | none =>
    have hlast : name.getLast? ≠ some (CodePoint.scalar '*') :=
      fun hl => hstar (List.mem_of_getLast? hl)
    rw [show toText ⟨name, .none⟩ = name from rfl, if_neg Bool.false_ne_true, if_neg hlast,
      Text.cutAt_of_not_mem hcolon]
  | upTo n =>
    obtain ⟨h₁, h₂⟩ := h.length n rfl
    have htext : toText ⟨name, .upTo n⟩ = name ++ CodePoint.scalar ':' :: Text.ofNat n := by
      rw [show toText ⟨name, .upTo n⟩ = name ++ lit ":" ++ Text.ofNat n from rfl,
        List.append_assoc]
      rfl
    have hlast : (name ++ CodePoint.scalar ':' :: Text.ofNat n).getLast?
        ≠ some (CodePoint.scalar '*') := by
      intro hl
      rcases List.mem_append.mp (List.mem_of_getLast? hl) with hm | hm
      · exact hstar hm
      · rcases List.mem_cons.mp hm with hm | hm
        · cases hm
        · cases isDigit_of_mem_ofNat hm
    rw [htext, if_neg Bool.false_ne_true, if_neg hlast, Text.cutAt_append hcolon]
    simp only [readLength?_ofNat h₁ h₂]
  | explode =>
    rw [show toText ⟨name, .explode⟩ = name ++ [CodePoint.scalar '*'] from rfl,
      if_neg Bool.false_ne_true, List.getLast?_concat, if_pos rfl, List.dropLast_concat,
      if_neg (by simpa using hcolon)]

theorem read_toText {seen : List Text} {spec : VarSpec} (h : spec.WellFormed)
    (hs : spec.name ∉ seen) : read seen spec.toText = .ok spec := by
  rw [read]
  refine bind_eq_ok.mpr ⟨spec, readModifier_toText h, bind_eq_ok.mpr ⟨(), h.name, ?_⟩⟩
  rw [if_neg hs]
  rfl

/-- Printed variables with different names are read back. -/
theorem readAll_map_toText {seen : List Text} {specs : List VarSpec}
    (heach : ∀ spec ∈ specs, spec.WellFormed) (hseen : ∀ spec ∈ specs, spec.name ∉ seen)
    (hnodup : (specs.map VarSpec.name).Nodup) :
    readAll seen (specs.map toText) = .ok specs := by
  induction specs generalizing seen with
  | nil => rfl
  | cons spec specs ih =>
    obtain ⟨hfresh, hrest⟩ := List.nodup_cons.mp hnodup
    have hread := read_toText (heach spec List.mem_cons_self) (hseen spec List.mem_cons_self)
    -- for the others one more name has been seen, which is not among theirs
    have htail : readAll (spec.name :: seen) (specs.map toText) = .ok specs := by
      refine ih (fun s hs => heach s (List.mem_cons_of_mem _ hs)) (fun s hs hin => ?_) hrest
      rcases List.mem_cons.mp hin with heq | hin
      · exact hfresh (List.mem_map.mpr ⟨s, hs, heq⟩)
      · exact hseen s (List.mem_cons_of_mem _ hs) hin
    exact readAll_cons_eq_ok.mpr ⟨spec, specs, rfl, hread, htail⟩

/-- A printed list is cut at its commas into its printed variables. -/
theorem split_listToText {specs : List VarSpec} (hne : specs ≠ [])
    (heach : ∀ spec ∈ specs, spec.WellFormed) :
    (listToText specs).split (CodePoint.scalar ',') = specs.map toText := by
  refine Text.split_intercalate (by simpa using hne) fun p hp => ?_
  obtain ⟨spec, hm, rfl⟩ := List.mem_map.mp hp
  exact not_mem_toText (heach spec hm) rfl (by decide) (by decide) (by decide)

/-- Besides the characters of names, only a colon, a star or a comma occurs in
a printed list. -/
theorem not_mem_listToText {specs : List VarSpec} (heach : ∀ spec ∈ specs, spec.WellFormed)
    {c : CodePoint} (hc : isUnreserved c = false) (hp : c ≠ CodePoint.scalar '%')
    (hcolon : c ≠ CodePoint.scalar ':') (hstar : c ≠ CodePoint.scalar '*')
    (hcomma : c ≠ CodePoint.scalar ',') : c ∉ listToText specs := by
  have happend : ∀ t u : Text, c ∉ t → c ∉ u → c ∉ t ++ u :=
    fun t u ht hu hm => (List.mem_append.mp hm).elim ht hu
  have hsep : c ∉ lit "," := fun hm => hcomma (List.mem_singleton.mp hm)
  refine Text.intercalate_induction List.not_mem_nil happend hsep fun p hm => ?_
  obtain ⟨spec, hspec, rfl⟩ := List.mem_map.mp hm
  exact not_mem_toText (heach spec hspec) hc hp hcolon hstar

end VarSpec

/-! ### Bodies -/

namespace Expression

open VarSpec

/-- What is neither reserved nor a symbol begins a variable list. -/
theorem readOperator_of_head {c : CodePoint} (hc : isNameChar c = true ∨ c = CodePoint.scalar '%')
    (rest : Text) : readOperator (c :: rest) = .ok (.simple, c :: rest) := by
  have hne : ∀ d : CodePoint, isNameChar d = false → d ≠ CodePoint.scalar '%' → c ≠ d := by
    rintro d hd hp rfl
    rcases hc with hc | hc
    · rw [hd] at hc
      cases hc
    · exact hp hc
  have hreserved : Operator.isReservedSymbol c = false := by
    simp only [Operator.isReservedSymbol, Bool.or_eq_false_iff, decide_eq_false_iff_not]
    exact ⟨⟨⟨⟨hne _ rfl (by decide), hne _ rfl (by decide)⟩, hne _ rfl (by decide)⟩,
      hne _ rfl (by decide)⟩, hne _ rfl (by decide)⟩
  have hsymbol : Operator.ofSymbol? c = none := by
    have hsingle : ∀ d : CodePoint, c ≠ d → ([d] == [c]) = false := by
      intro d hd
      exact beq_eq_false_iff_ne.mpr fun heq => hd (List.cons.inj heq).1.symm
    refine List.find?_eq_none.mpr fun op hop => ?_
    rw [Bool.not_eq_true]
    cases op with
    | simple => rfl
    | reserved => exact hsingle _ (hne _ rfl (by decide))
    | fragment => exact hsingle _ (hne _ rfl (by decide))
    | label => exact hsingle _ (hne _ rfl (by decide))
    | path => exact hsingle _ (hne _ rfl (by decide))
    | parameter => exact hsingle _ (hne _ rfl (by decide))
    | query => exact hsingle _ (hne _ rfl (by decide))
    | continuation => exact hsingle _ (hne _ rfl (by decide))
  rw [readOperator, hreserved, hsymbol]
  rfl

/-- After its symbol an operator is recognised; simple expansion, which has
no symbol, by the beginning of a name. -/
theorem readOperator_symbol (op : Operator) {list : Text} {c : CodePoint} {rest : Text}
    (hlist : list = c :: rest) (hc : isNameChar c = true ∨ c = CodePoint.scalar '%') :
    readOperator (op.symbol ++ list) = .ok (op, list) := by
  subst hlist
  -- a symbol decides by itself; without one the first character must not look like one
  cases op with
  | simple => exact readOperator_of_head hc rest
  | _ => rfl

/-- **A printed body is read back.** -/
theorem readBody_print (op : Operator) {specs : List VarSpec} (h : WellFormedList specs) :
    readBody (op.symbol ++ listToText specs) = .ok (op, specs) := by
  obtain ⟨hne, heach, hnodup⟩ := h
  obtain ⟨c, rest, hlist, hc⟩ : ∃ c rest, listToText specs = c :: rest ∧
      (isNameChar c = true ∨ c = CodePoint.scalar '%') := by
    rcases specs with - | ⟨spec, specs⟩
    · exact absurd rfl hne
    · obtain ⟨c, rest, hspec, hc⟩ := toText_head (heach spec List.mem_cons_self)
      rw [listToText, List.map_cons, hspec, List.intercalate_cons_cons_left]
      exact ⟨c, _, rfl, hc⟩
  have hread : readAll [] (specs.map VarSpec.toText) = .ok specs :=
    readAll_map_toText heach (fun _ _ => List.not_mem_nil) hnodup
  rw [← split_listToText hne heach] at hread
  exact bind_eq_ok.mpr ⟨(op, listToText specs), readOperator_symbol op hlist hc,
    bind_eq_ok.mpr ⟨specs, hread, rfl⟩⟩

/-- **What a body that is read consists of.** -/
theorem readBody_sound {body : Text} {op : Operator} {specs : List VarSpec}
    (h : readBody body = .ok (op, specs)) : WellFormedList specs := by
  unfold readBody at h
  obtain ⟨⟨op', list⟩, -, h⟩ := bind_eq_ok.mp h
  obtain ⟨specs', hr, h⟩ := bind_eq_ok.mp h
  obtain ⟨-, rfl⟩ := Prod.mk.inj (Except.ok.inj h)
  obtain ⟨hlen, heach, hnodup⟩ := readAll_sound hr
  refine ⟨?_, fun spec hm => (heach spec hm).1, hnodup⟩
  rintro rfl
  exact Text.split_ne_nil _ list (List.length_eq_zero_iff.mp hlen.symm)

/-- An expression that is read keeps its body and its place, and the body
determines the rest. -/
theorem read_eq_ok {body : Text} {position : Nat} {e : Expression}
    (h : read body position = .ok e) :
    e.body = body ∧ e.position = position ∧ readBody body = .ok (e.operator, e.varspecs) := by
  unfold read at h
  split at h
  · next op specs hb =>
    obtain rfl := Except.ok.inj h
    exact ⟨rfl, rfl, hb⟩
  · cases h

end Expression

end UriExpansion
