/-
UriExpansion/Proofs/Derivation.lean

The grammar of expression bodies as a relation, and the reader's agreement
with it.

    body    = [operator] list
    list    = varspec *("," varspec)
    varspec = name [":" length / "*"]
    name    = varchar *(["."] varchar)

Names are derived by `VarSpec.Name`; the relations here go on from there, with
one constructor for each alternative of a rule.  No name may occur twice in a
list, which no rule of the grammar can say (`Expression.Derives`).

The reader is a sequence of tests: the first character, the commas, the last
character, the first colon.  `Expression.read_iff_derives` says that together
they accept the bodies that can be derived and nothing else, and that what is
read is the only derivation.  A printed body has a derivation and is read back
(`readBody_print`), so that what remains is the way from the reader to the
print: each part of a body that is read is the print of what was read from it
(`toText_of_read`, `eq_listToText_of_readAll`).  So printing and reading are
inverse to one another (`read_print_inverse`).
-/
import Mathlib.Data.List.Basic
import UriExpansion.Proofs.Grammar

namespace UriExpansion

open Percent

/-! ### Derivations -/

/-- A text from which a variable can be derived. -/
inductive VarSpec.Derives : VarSpec → Text → Prop
  /-- A name without modifier. -/
  | plain {name : Text} : Name name → Derives ⟨name, .none⟩ name
  /-- A name, a colon and the decimal digits of a number in range. -/
  | upTo {name : Text} {n : Nat} : Name name → 1 ≤ n → n ≤ 10000 →
      Derives ⟨name, .upTo n⟩ (name ++ lit ":" ++ Text.ofNat n)
  /-- A name and a star. -/
  | explode {name : Text} : Name name → Derives ⟨name, .explode⟩ (name ++ lit "*")

/-- A text from which a variable list can be derived. -/
inductive VarSpec.ListDerives : List VarSpec → Text → Prop
  | one {spec : VarSpec} {t : Text} : spec.Derives t → ListDerives [spec] t
  | cons {spec : VarSpec} {t : Text} {specs : List VarSpec} {u : Text} : spec.Derives t →
      ListDerives specs u → ListDerives (spec :: specs) (t ++ lit "," ++ u)

/-- A body from which an operator and its variables can be derived: the
operator's symbol, if it has one, and a list in which no name occurs twice. -/
structure Expression.Derives (op : Operator) (specs : List VarSpec) (body : Text) : Prop where
  list : ∃ list, body = op.symbol ++ list ∧ VarSpec.ListDerives specs list
  distinct : (specs.map VarSpec.name).Nodup

/-! ### Names -/

namespace VarSpec

/-- Percent signs that begin triplets are not broken. -/
theorem hasBrokenTriplet_of_percentClosed {t : Text} (h : Text.PercentClosed t) :
    hasBrokenTriplet t = false := by
  induction t with
  | nil => rfl
  | cons c rest ih =>
    obtain ⟨hc, hrest⟩ := percentClosed_cons.mp h
    rw [hasBrokenTriplet, ih hrest, Bool.or_false, Bool.and_eq_false_imp]
    intro hpercent
    rw [hc (of_decide_eq_true hpercent)]
    rfl

/-- A character of a name passes both tests, before whatever may follow it. -/
theorem NameUnit.isName_append {u t : Text} (hu : NameUnit u) (ht : isNameRest t = true) :
    VarSpec.isName (u ++ t) = true ∧ isNameRest (u ++ t) = true := by
  cases hu with
  | @char c hc =>
    have hdot : c ≠ CodePoint.scalar '.' := by
      rintro rfl
      cases hc
    constructor
    · unfold VarSpec.isName
      exact (if_pos hc).trans ht
    · unfold isNameRest
      exact (if_neg hdot).trans ((if_pos hc).trans ht)
  | @triplet a b ha hb =>
    have hchar : ¬ isNameChar (CodePoint.scalar '%') = true := by decide
    have hdigits : (decide (CodePoint.scalar '%' = CodePoint.scalar '%') && a.isHexDigit
        && b.isHexDigit && isNameRest t) = true := by
      rw [ha, hb, ht]
      rfl
    constructor
    · unfold VarSpec.isName
      exact (if_neg hchar).trans hdigits
    · unfold isNameRest
      exact (if_neg (by decide)).trans ((if_neg hchar).trans hdigits)

theorem Name.isName {t : Text} (h : Name t) :
    VarSpec.isName t = true ∧ isNameRest t = true := by
  induction h with
  | @one u hu =>
    have hunit := hu.isName_append (t := []) (by rw [isNameRest])
    rwa [List.append_nil] at hunit
  | cons hu _ ih => exact hu.isName_append ih.2
  | @dot u t hu _ ih =>
    -- behind the dot a whole name is wanted
    have hrest : isNameRest (CodePoint.scalar '.' :: t) = true := by
      unfold isNameRest
      exact (if_pos rfl).trans ih.1
    exact hu.isName_append hrest

/-- **The check of names accepts names and nothing else.** -/
theorem checkName_eq_ok_iff {t : Text} : checkName t = .ok () ↔ Name t := by
  refine ⟨name_of_checkName, fun h => ?_⟩
  have hclosed := hasBrokenTriplet_of_percentClosed (percentClosed_of_uriText h.uriText)
  rw [checkName, hclosed, if_neg Bool.false_ne_true, if_pos h.isName.1]

/-! ### From the reader to the print -/

theorem toText_of_readModifier {t : Text} {spec : VarSpec} (h : readModifier t = .ok spec) :
    spec.toText = t := by
  rcases readModifier_cases h with ⟨_, rfl, rfl⟩ | ⟨-, ⟨-, rfl⟩ | ⟨name, _, n, hcut, hn, rfl⟩⟩
  · rfl
  · rfl
  · show name ++ lit ":" ++ Text.ofNat n = t
    rw [← eq_ofNat_of_readLength? hn, Text.eq_of_cutAt hcut, List.append_assoc]
    rfl

/-- A variable that is read prints as the text it was read from. -/
theorem toText_of_read {seen : List Text} {t : Text} {spec : VarSpec}
    (h : read seen t = .ok spec) : spec.toText = t :=
  toText_of_readModifier (checks_of_read h).1

theorem map_toText_of_readAll {seen ts : List Text} {specs : List VarSpec}
    (h : readAll seen ts = .ok specs) : specs.map toText = ts := by
  induction ts generalizing seen specs with
  | nil =>
    obtain rfl := Except.ok.inj h
    rfl
  | cons t ts ih =>
    obtain ⟨spec, rest, rfl, hspec, hrest⟩ := readAll_cons_eq_ok.mp h
    rw [List.map_cons, toText_of_read hspec, ih hrest]

/-- A list that is read prints as the text it was read from. -/
theorem eq_listToText_of_readAll {list : Text} {specs : List VarSpec}
    (h : readAll [] (list.split ',') = .ok specs) : list = listToText specs := by
  rw [listToText, map_toText_of_readAll h]
  exact (Text.intercalate_split (CodePoint.scalar ',') list).symm

/-! ### Derivations and prints -/

/-- What a variable is derived from is its print. -/
theorem derives_iff {spec : VarSpec} {t : Text} :
    spec.Derives t ↔ spec.WellFormed ∧ t = spec.toText := by
  constructor
  · intro h
    cases h with
    | plain hname =>
      exact ⟨⟨checkName_eq_ok_iff.mpr hname, fun _ h => nomatch h⟩, rfl⟩
    | upTo hname h₁ h₂ =>
      refine ⟨⟨checkName_eq_ok_iff.mpr hname, fun m hm => ?_⟩, rfl⟩
      obtain rfl := Modifier.upTo.inj hm
      exact ⟨h₁, h₂⟩
    | explode hname =>
      exact ⟨⟨checkName_eq_ok_iff.mpr hname, fun _ h => nomatch h⟩, rfl⟩
  · rintro ⟨h, rfl⟩
    have hname : Name spec.name := h.isName
    obtain ⟨name, modifier⟩ := spec
    cases modifier with
    | none => exact .plain hname
    | upTo n =>
      obtain ⟨h₁, h₂⟩ := h.length n rfl
      exact .upTo hname h₁ h₂
    | explode => exact .explode hname

theorem listDerives_iff {specs : List VarSpec} {t : Text} : ListDerives specs t ↔
    specs ≠ [] ∧ (∀ spec ∈ specs, spec.WellFormed) ∧ t = listToText specs := by
  constructor
  · intro h
    induction h with
    | one h =>
      obtain ⟨hspec, rfl⟩ := derives_iff.mp h
      exact ⟨List.cons_ne_nil _ _, List.forall_mem_singleton.mpr hspec,
        (List.intercalate_singleton ..).symm⟩
    | cons h _ ih =>
      obtain ⟨hspec, rfl⟩ := derives_iff.mp h
      obtain ⟨hne, hspecs, rfl⟩ := ih
      refine ⟨List.cons_ne_nil _ _, List.forall_mem_cons.mpr ⟨hspec, hspecs⟩, ?_⟩
      rw [listToText, listToText, List.map_cons,
        List.intercalate_cons_of_ne_nil (by simpa using hne)]
  · rintro ⟨hne, hspecs, rfl⟩
    induction specs with
    | nil => exact absurd rfl hne
    | cons spec specs ih =>
      obtain ⟨hspec, hspecs⟩ := List.forall_mem_cons.mp hspecs
      have hderives := derives_iff.mpr ⟨hspec, rfl⟩
      rcases specs with - | ⟨next, specs⟩
      · rw [listToText, List.map_singleton, List.intercalate_singleton]
        exact .one hderives
      · have htail := ListDerives.cons hderives (ih (List.cons_ne_nil _ _) hspecs)
        rw [listToText, List.map_cons, List.intercalate_cons_of_ne_nil (by simp)]
        exact htail

end VarSpec

namespace Expression

open VarSpec

theorem derives_iff {op : Operator} {specs : List VarSpec} {body : Text} :
    Derives op specs body ↔ WellFormedList specs ∧ body = op.symbol ++ listToText specs := by
  constructor
  · rintro ⟨⟨list, rfl, hlist⟩, hdistinct⟩
    obtain ⟨hne, heach, rfl⟩ := listDerives_iff.mp hlist
    exact ⟨⟨hne, heach, hdistinct⟩, rfl⟩
  · rintro ⟨⟨hne, heach, hdistinct⟩, rfl⟩
    exact ⟨⟨listToText specs, rfl, listDerives_iff.mpr ⟨hne, heach, rfl⟩⟩, hdistinct⟩

/-- The operator's symbol and the list make up the body. -/
theorem eq_append_of_readOperator {body list : Text} {op : Operator}
    (h : readOperator body = .ok (op, list)) : body = op.symbol ++ list := by
  match body, h with
  | c :: rest, h =>
    rw [readOperator] at h
    split at h
    · cases h
    · split at h
      · next op' hop =>
        split at h
        · cases h
        · obtain ⟨rfl, rfl⟩ := Prod.mk.inj (Except.ok.inj h)
          rw [Operator.ofSymbol?] at hop
          have hsymbol := List.find?_some hop
          rw [show op'.symbol = [c] from eq_of_beq hsymbol, List.singleton_append]
      · obtain ⟨rfl, rfl⟩ := Prod.mk.inj (Except.ok.inj h)
        rfl

/-- **The reader accepts what can be derived**, and reads the derivation. -/
theorem readBody_eq_ok_iff {body : Text} {op : Operator} {specs : List VarSpec} :
    readBody body = .ok (op, specs) ↔ Derives op specs body := by
  rw [derives_iff]
  constructor
  · intro h
    refine ⟨readBody_sound h, ?_⟩
    unfold readBody at h
    obtain ⟨⟨op', list⟩, hop, h⟩ := bind_eq_ok.mp h
    obtain ⟨specs', hspecs, h⟩ := bind_eq_ok.mp h
    obtain ⟨rfl, rfl⟩ := Prod.mk.inj (Except.ok.inj h)
    rw [eq_append_of_readOperator hop, eq_listToText_of_readAll hspecs]
  · rintro ⟨hspecs, rfl⟩
    exact readBody_print op hspecs

/-- A body has at most one derivation. -/
theorem Derives.unique {op op' : Operator} {specs specs' : List VarSpec} {body : Text}
    (h : Derives op specs body) (h' : Derives op' specs' body) : op = op' ∧ specs = specs' := by
  have hread := readBody_eq_ok_iff.mpr h
  rw [readBody_eq_ok_iff.mpr h'] at hread
  obtain ⟨rfl, rfl⟩ := Prod.mk.inj (Except.ok.inj hread)
  exact ⟨rfl, rfl⟩

/-- **Reading accepts exactly the grammar and builds the unique derivation.**
A body is read if and only if something can be derived from it, which is then
unique, and the expression that is read consists of the body, its place and
that derivation. -/
theorem read_iff_derives (body : Text) (position : Nat) :
    ((∃ e, read body position = .ok e) ↔
      ∃! d : Operator × List VarSpec, Derives d.1 d.2 body) ∧
    ∀ e, read body position = .ok e ↔
      e.body = body ∧ e.position = position ∧ Derives e.operator e.varspecs body := by
  have hread : ∀ e, read body position = .ok e ↔
      e.body = body ∧ e.position = position ∧ Derives e.operator e.varspecs body := by
    intro e
    constructor
    · intro h
      obtain ⟨hbody, hposition, hderives⟩ := read_eq_ok h
      exact ⟨hbody, hposition, readBody_eq_ok_iff.mp hderives⟩
    · rintro ⟨rfl, rfl, h⟩
      rw [read, readBody_eq_ok_iff.mpr h]
  refine ⟨⟨?_, ?_⟩, hread⟩
  · rintro ⟨e, he⟩
    obtain ⟨-, -, hderives⟩ := (hread e).mp he
    refine ⟨(e.operator, e.varspecs), hderives, ?_⟩
    rintro ⟨op, specs⟩ h
    obtain ⟨rfl, rfl⟩ := hderives.unique h
    rfl
  · rintro ⟨⟨op, specs⟩, h, -⟩
    exact ⟨⟨body, op, specs, position⟩, (hread _).mpr ⟨rfl, rfl, h⟩⟩

/-- A dot may be the operator or stand within a name, but no name begins with one. -/
example : readBody (lit ".a.b*,%41:10000")
      = .ok (.label, [⟨lit "a.b", .explode⟩, ⟨lit "%41", .upTo 10000⟩]) ∧
    readBody (lit "..a") = .error (.badName (lit ".a")) :=
  ⟨eq_ok_of_toOption (by decide +kernel), rfl⟩

/-! ### Printing and reading -/

/-- **Printing and reading are inverse.**  A body that is read is the print of
what was read from it, the operator's symbol and behind it the variables with
commas between them.  And whatever operator stands before a list of variables,
it is read back from the print together with the list, if the variables have
names, no two of them the same, and lengths from 1 to 10000. -/
theorem read_print_inverse :
    (∀ body position e, read body position = .ok e →
      e.operator.symbol ++ listToText e.varspecs = body) ∧
    ∀ (op : Operator) (specs : List VarSpec) (position : Nat), specs ≠ [] →
      (∀ spec ∈ specs, Name spec.name ∧ ∀ n, spec.modifier = .upTo n → 1 ≤ n ∧ n ≤ 10000) →
      (specs.map VarSpec.name).Nodup →
      read (op.symbol ++ listToText specs) position
        = .ok ⟨op.symbol ++ listToText specs, op, specs, position⟩ := by
  constructor
  · intro body position e h
    obtain ⟨-, -, hbody⟩ := read_eq_ok h
    obtain ⟨-, hprint⟩ := derives_iff.mp (readBody_eq_ok_iff.mp hbody)
    exact hprint.symm
  · intro op specs position hne heach hdistinct
    have hlist : WellFormedList specs := by
      refine ⟨hne, fun spec hspec => ?_, hdistinct⟩
      obtain ⟨hname, hlength⟩ := heach spec hspec
      exact ⟨checkName_eq_ok_iff.mpr hname, hlength⟩
    rw [read, readBody_print op hlist]

/-- Dots within a name behind the dot that is the operator, and the largest length. -/
theorem read_print_inverse_label :
    let specs : List VarSpec :=
      [⟨lit "a.b", .explode⟩, ⟨lit "%4a", .upTo 10000⟩, ⟨lit "_", .none⟩]
    specs ≠ [] ∧
    (∀ spec ∈ specs, Name spec.name ∧ ∀ n, spec.modifier = .upTo n → 1 ≤ n ∧ n ≤ 10000) ∧
    (specs.map VarSpec.name).Nodup ∧
    Operator.label.symbol ++ listToText specs = lit ".a.b*,%4a:10000,_" ∧
    read (lit ".a.b*,%4a:10000,_") 7 = .ok ⟨lit ".a.b*,%4a:10000,_", .label, specs, 7⟩ ∧
    ∃ e, read (lit "?b:10,a") 0 = .ok e ∧
      e.operator.symbol ++ listToText e.varspecs = lit "?b:10,a" := by
  intro specs
  have heach : ∀ spec ∈ specs,
      Name spec.name ∧ ∀ n, spec.modifier = .upTo n → 1 ≤ n ∧ n ≤ 10000 := by
    refine List.forall_mem_cons.mpr ⟨⟨name_of_isName _ (by decide +kernel), by simp⟩, ?_⟩
    refine List.forall_mem_cons.mpr ⟨⟨name_of_isName _ (by decide +kernel), by simp⟩, ?_⟩
    exact List.forall_mem_singleton.mpr ⟨name_of_isName _ (by decide +kernel), by simp⟩
  have hprint : Operator.label.symbol ++ listToText specs = lit ".a.b*,%4a:10000,_" := by
    decide +kernel
  have hread : read (lit "?b:10,a") 0
      = .ok ⟨lit "?b:10,a", .query, [⟨lit "b", .upTo 10⟩, ⟨lit "a", .none⟩], 0⟩ :=
    eq_ok_of_toOption (by decide +kernel)
  obtain ⟨hprinted, hback⟩ := read_print_inverse
  have hlabel := hback .label specs 7 (List.cons_ne_nil _ _) heach (by decide +kernel)
  rw [hprint] at hlabel
  exact ⟨List.cons_ne_nil _ _, heach, by decide +kernel, hprint, hlabel, _, hread,
    hprinted _ _ _ hread⟩

end Expression

end UriExpansion
