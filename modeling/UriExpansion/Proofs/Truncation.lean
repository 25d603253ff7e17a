/-
UriExpansion/Proofs/Truncation.lean

What a prefix modifier leaves of an expansion.

A prefix counts code points of the value, and what it leaves of the value is
encoded afterwards.  The strict profile writes code point after code point, so
that less of the value gives less of the expansion.  The reserved profile looks
ahead: it keeps a percent sign with its two digits, and a cut through such a
triplet takes digits away from it, so that the percent sign is encoded instead.

* `encoded_prefix_append_iff`: the encoded form of a text begins with that of
  its first part unless the cut goes through a triplet, or shows nothing because
  the triplet is that of a percent sign (`Text.HidesCut`);
* `Operator.unit_prefix_iff`: name and separators around a value change nothing;
* `Template.expand_truncated`: under the operators that encode strictly a
  shorter prefix gives a shorter beginning of the expansion, always, and under
  the other two exactly where no triplet is cut; characters of several octets
  are kept whole under all of them.
-/
import UriExpansion.Proofs.Classification
import UriExpansion.Proofs.ReservedProfile
import UriExpansion.Proofs.Residue

namespace UriExpansion

open Percent

/-! ### Beginnings of an encoded text -/

/-- The triplet that is cut stands for a percent sign, and what is written in
place of its first part is what stands in the uncut text as well. -/
def Text.HidesCut (t u : Text) : Prop :=
  (∃ before after, t = before ++ lit "%" ∧ u = lit "25" ++ after) ∨
    ∃ before after, t = before ++ lit "%2" ∧ u = lit "52" ++ after

/-- The first `n` code points of the text end outside of its triplets, or the
cut shows nothing. -/
def Text.CutsCleanly (n : Nat) (t : Text) : Prop :=
  Text.Straddles (t.take n) (t.drop n) → Text.HidesCut (t.take n) (t.drop n)

namespace Percent

/-- What stands for a code point is a character that is kept, or begins with a
percent sign. -/
theorem exists_encoded_cons {p : Profile} {c : CodePoint} {rest : Text}
    (h : Text.Encodable (c :: rest)) : ∃ d tail, encoded p (c :: rest) = d :: tail ∧
      (d = c ∨ d = CodePoint.scalar '%' ∧ p.keeps c rest = false) := by
  rw [encoded_cons, Profile.place]
  split
  · exact ⟨c, _, rfl, .inl rfl⟩
  · next hkeeps =>
    obtain ⟨hc, -⟩ := List.forall_mem_cons.mp h
    cases c with
    | surrogate i => cases hc
    | scalar x =>
      obtain ⟨b, bytes, hbytes⟩ :=
        List.exists_cons_of_ne_nil (String.utf8EncodeChar_ne_nil (c := x))
      rw [encodedOne, hbytes]
      exact ⟨_, _, rfl, .inr ⟨rfl, eq_false_of_ne_true hkeeps⟩⟩

/-- Only the empty text is encoded as nothing. -/
theorem encoded_eq_nil_iff {p : Profile} {t : Text} (h : Text.Encodable t) :
    encoded p t = [] ↔ t = [] := by
  cases t with
  | nil => simp
  | cons c rest =>
    obtain ⟨d, tail, hencoded, -⟩ := exists_encoded_cons (p := p) h
    simp [hencoded]

/-- An unreserved character begins an encoded text only if it begins the text. -/
theorem prefix_encoded_iff {p : Profile} {c : CodePoint} (hc : isUnreserved c = true) {t : Text}
    (h : Text.Encodable t) : [c] <+: encoded p t ↔ [c] <+: t := by
  cases t with
  | nil => simp
  | cons d rest =>
    obtain ⟨e, tail, hencoded, he⟩ := exists_encoded_cons (p := p) h
    rw [hencoded, List.cons_prefix_cons, List.cons_prefix_cons]
    simp only [List.nil_prefix, and_true]
    rcases he with rfl | ⟨rfl, hkeeps⟩
    · exact Iff.rfl
    · -- an encoded character begins with a percent sign, and `c` would have been kept
      constructor
      · rintro rfl
        cases hc
      · rintro rfl
        rw [keeps_of_isUnreserved p hc] at hkeeps
        cases hkeeps

/-- A cut behind the percent sign shows nothing if the digits are `25`. -/
theorem hidesCut_percent (before : Text) (a b : CodePoint) (rest : Text) :
    Text.HidesCut (before ++ [CodePoint.scalar '%']) (a :: b :: rest) ↔
      a = CodePoint.scalar '2' ∧ b = CodePoint.scalar '5' := by
  constructor
  · rintro (⟨before', after, -, hu⟩ | ⟨before', after, ht, -⟩)
    · obtain ⟨ha, hrest⟩ := List.cons.inj hu
      exact ⟨ha, (List.cons.inj hrest).1⟩
    · -- the one text ends in a percent sign, the other in a digit
      have hlast := congrArg List.getLast? ht
      simp [lit] at hlast
  · rintro ⟨rfl, rfl⟩
    exact .inl ⟨before, rest, rfl, rfl⟩

/-- A cut between the digits shows nothing if these are `25` and the triplet is
followed by the first of them. -/
theorem hidesCut_digit (before : Text) {a : CodePoint} (ha : a.isHexDigit = true) (b : CodePoint)
    (rest : Text) :
    Text.HidesCut (before ++ [CodePoint.scalar '%', a]) (b :: rest) ↔
      a = CodePoint.scalar '2' ∧ b = CodePoint.scalar '5' ∧ [a] <+: rest := by
  constructor
  · rintro (⟨before', after, ht, hu⟩ | ⟨before', after, ht, hu⟩)
    · -- the one text ends in a digit, the other in a percent sign
      have hlast := congrArg List.getLast? ht
      simp [lit] at hlast
      rw [hlast] at ha
      cases ha
    · obtain ⟨-, hdigit⟩ := List.append_inj' ht rfl
      obtain ⟨hb, hrest⟩ := List.cons.inj hu
      have ha : a = CodePoint.scalar '2' := (List.cons.inj (List.cons.inj hdigit).2).1
      exact ⟨ha, hb, after, by rw [ha, hrest]; rfl⟩
  · rintro ⟨rfl, rfl, after, rfl⟩
    exact .inr ⟨before, after, rfl, rfl⟩

/-- **An encoded text begins with the encoded form of its first part**, unless
the cut goes through a triplet and can be seen. -/
theorem encoded_prefix_append_iff {t u : Text} (hu : Text.Encodable u) :
    encoded .reserved t <+: encoded .reserved (t ++ u) ↔ (t.Straddles u → t.HidesCut u) := by
  by_cases hcut : Text.Straddles t u
  · rw [imp_iff_right hcut]
    rcases hcut with ⟨⟨before, rfl⟩, hdigits⟩ | ⟨before, a, b, rest, rfl, rfl, ha, hb⟩
    · obtain ⟨a, b, rest, rfl, ha, hb⟩ := exists_of_startsWithTwoHexDigits hdigits
      rw [hidesCut_percent, List.append_assoc, List.singleton_append,
        encoded_append_triplet before ha hb, encoded_append_bare before rfl, List.append_assoc,
        List.prefix_append_right_inj]
      show lit "%25" <+: _ ↔ _
      simp [lit, eq_comm]
    · have hrest : Text.Encodable rest := (List.forall_mem_cons.mp hu).2
      have hkept : encoded .reserved [a] = [a] := by
        rw [encoded_cons, Profile.place,
          if_pos (keeps_of_isUnreserved .reserved (isUnreserved_of_isHexDigit ha) [])]
        rfl
      have hnext : [a] <+: encoded .reserved rest ↔ [a] <+: rest :=
        prefix_encoded_iff (isUnreserved_of_isHexDigit ha) hrest
      rw [hidesCut_digit before ha, ← hnext, List.append_assoc]
      show encoded .reserved (before ++ CodePoint.scalar '%' :: [a])
        <+: encoded .reserved (before ++ CodePoint.scalar '%' :: a :: b :: rest) ↔ _
      rw [encoded_append_triplet before ha hb, encoded_append_bare before rfl, hkept,
        List.append_assoc, List.prefix_append_right_inj]
      show lit "%25" ++ [a] <+: _ ↔ _
      simp [lit, eq_comm]
  · rw [encoded_append_of_not_splits (mt splitsTriplet_iff_straddles.mp hcut)]
    exact iff_of_true (List.prefix_append _ _) fun h => absurd h hcut

end Percent

/-! ### Expansions of one scalar -/

namespace Operator

/-- Units with one name begin with one another as their values do. -/
theorem unit_prefix_iff (op : Operator) (name : Text) {a b : Text} (h : a = [] ↔ b = []) :
    op.unit name a <+: op.unit name b ↔ a <+: b := by
  rw [unit, unit]
  split
  · rcases a with - | ⟨c, a⟩
    · -- an empty value is shown in another way, but then both are empty
      obtain rfl := h.mp rfl
      simp
    · obtain ⟨d, b, rfl⟩ := List.exists_cons_of_ne_nil (mt h.mpr (List.cons_ne_nil c a))
      simp only [List.isEmpty_cons, Bool.false_eq_true, if_false, List.prefix_append_right_inj]
  · exact Iff.rfl

/-- The expansion of one variable that is bound to a scalar with this text. -/
def ofScalar (op : Operator) (name t : Text) : Text := op.first ++ op.unit name (op.encoded t)

/-- The text is that of a URI, and what stands for the value in it stands for the
octets of `kept`. -/
structure Shows (op : Operator) (name kept text : Text) : Prop where
  uriText : UriText text
  value : ∃ value, text = op.first ++ op.unit name value ∧ Percent.octets value
    = if op.allowReserved then Percent.octets kept else kept.flatMap CodePoint.utf8

theorem ofScalar_prefix_iff (op : Operator) (name : Text) {t : Text} (h : Text.Encodable t)
    {n : Nat} (hn : 1 ≤ n) : op.ofScalar name (t.take n) <+: op.ofScalar name t ↔
      (op.allowReserved = true → t.CutsCleanly n) := by
  have hempty : op.encoded (t.take n) = [] ↔ op.encoded t = [] := by
    have htake : Text.Encodable (t.take n) := fun c hc => h c (List.mem_of_mem_take hc)
    rw [Operator.encoded, Operator.encoded, encoded_eq_nil_iff htake, encoded_eq_nil_iff h,
      List.take_eq_nil_iff]
    exact or_iff_right (by omega)
  rw [ofScalar, ofScalar, List.prefix_append_right_inj, op.unit_prefix_iff name hempty,
    Operator.encoded, Operator.encoded, profile]
  have hcut : t.take n ++ t.drop n = t := List.take_append_drop n t
  cases op.allowReserved with
  | false =>
    -- one code point after the other
    refine iff_of_true ?_ fun h => nomatch h
    show Percent.encoded .strict (t.take n) <+: Percent.encoded .strict t
    rw [← hcut, encoded_strict_append, hcut]
    exact List.prefix_append _ _
  | true =>
    have hdrop : Text.Encodable (t.drop n) := fun c hc => h c (List.mem_of_mem_drop hc)
    have hiff := encoded_prefix_append_iff (t := t.take n) hdrop
    rw [hcut] at hiff
    exact hiff.trans (imp_iff_right rfl).symm

/-- What is written for a scalar is the text of a URI and stands for the scalar. -/
theorem shows_ofScalar (op : Operator) {name : Text} (hname : VarSpec.Name name) (t : Text) :
    op.Shows name t (op.ofScalar name t) where
  uriText := by
    have hfirst : UriText op.first := uriText_iff.mpr (by cases op <;> rfl)
    exact hfirst.append (op.uriText_unit hname.uriText (op.uriText_encoded t))
  value := by
    refine ⟨op.encoded t, rfl, ?_⟩
    rw [Operator.encoded, profile]
    split
    · exact octets_encoded_reserved t
    · exact octets_encoded t

end Operator

namespace Template

/-- The source of the template that consists of one expression with one variable. -/
def sourceOf (op : Operator) (spec : VarSpec) : Text :=
  Expression.braced (op.symbol ++ spec.toText)

/-- The text is the source of a template, which expands to `out`. -/
def ExpandsTo (source : Text) (store : Store) (s : Settings) (out : Text) : Prop :=
  ∃ t, parse source = .ok t ∧ t.expand store s = .ok out

theorem expandsTo_sourceOf (op : Operator) {spec : VarSpec} (hspec : spec.WellFormed)
    {store : Store} {s : Settings} {v : Value} (hv : store.get? spec.name = some v) {t : Text}
    (ht : v.scalarText? s = some (.ok t)) (henc : Text.Encodable t) :
    ExpandsTo (sourceOf op spec) store s (op.ofScalar spec.name (spec.modifier.keep t)) := by
  have hlist : VarSpec.WellFormedList [spec] :=
    ⟨List.cons_ne_nil spec [], List.forall_mem_singleton.mpr hspec, by simp⟩
  have hbody : VarSpec.listToText [spec] = spec.toText := List.intercalate_singleton
  have hread := Expression.readBody_print op hlist
  have hfree := Expression.braceFree_print op hlist
  rw [hbody] at hread hfree
  have hpieces : ∀ piece ∈ [Piece.body (op.symbol ++ spec.toText)], piece.Sound :=
    List.forall_mem_singleton.mpr ⟨hfree, op, [spec], hread⟩
  have hparse := parse_pieces hpieces
  have htext : Piece.allText [.body (op.symbol ++ spec.toText)] = sourceOf op spec :=
    List.append_nil _
  rw [htext] at hparse
  refine ⟨_, hparse, ((expand_located (parse_sound hparse) store s).ok_iff _).mpr ?_⟩
  -- the one component is the expression, and its one variable has one unit
  have hmeaning : store.meaning s spec.name = .ok (.scalar t) := by
    rw [Store.meaning, hv, Option.getD_some,
      Value.resolve_eq_ok_iff.mpr (.scalar ⟨ht, henc⟩)]
  have hvalues : store.meanings s [spec] = .ok [.scalar t] :=
    mapM_cons_eq_ok.mpr ⟨_, [], rfl, hmeaning, rfl⟩
  have hrendered : op.rendered [spec] [.scalar t]
      = op.ofScalar spec.name (spec.modifier.keep t) :=
    congrArg (op.first ++ ·) List.intercalate_singleton
  show meaningOf store s [.expression (op.symbol ++ spec.toText) 0] = _
  rw [meaningOf_cons_expression, hread]
  show (store.expansion s op [spec] >>= _) = _
  rw [Store.expansion, hvalues, ← hrendered]
  exact congrArg Except.ok (List.append_nil _)

/-- **A shorter prefix of a scalar, and what becomes of its expansion.**  The
expansions stand for the code points that are kept, so that a character is kept
whole or not at all.  Under an operator that encodes strictly each is the
beginning of the next; under the others it is so exactly if the cut goes through
no triplet, or shows nothing. -/
theorem expand_truncated (op : Operator) {name : Text} (hname : VarSpec.Name name) {store : Store}
    {s : Settings} {v : Value} (hv : store.get? name = some v) {t : Text}
    (ht : v.scalarText? s = some (.ok t)) (henc : Text.Encodable t) {m n : Nat} (hm : 1 ≤ m)
    (hmn : m ≤ n) (hn : n ≤ VarSpec.maxLength) :
    ∃ short long whole, ExpandsTo (sourceOf op ⟨name, .upTo m⟩) store s short ∧
      ExpandsTo (sourceOf op ⟨name, .upTo n⟩) store s long ∧
      ExpandsTo (sourceOf op ⟨name, .none⟩) store s whole ∧
      op.Shows name (t.take m) short ∧ op.Shows name (t.take n) long ∧ op.Shows name t whole ∧
      (short <+: long ↔ (op.allowReserved = true → Text.CutsCleanly m (t.take n))) ∧
      (long <+: whole ↔ (op.allowReserved = true → Text.CutsCleanly n t)) := by
  have hcheck : VarSpec.checkName name = .ok () := VarSpec.checkName_eq_ok_iff.mpr hname
  have hexpands : ∀ modifier, (∀ k, modifier = .upTo k → 1 ≤ k ∧ k ≤ VarSpec.maxLength) →
      ExpandsTo (sourceOf op ⟨name, modifier⟩) store s (op.ofScalar name (modifier.keep t)) :=
    fun modifier hlength => expandsTo_sourceOf op ⟨hcheck, hlength⟩ hv ht henc
  have hlong : Text.Encodable (t.take n) := fun c hc => henc c (List.mem_of_mem_take hc)
  have hshort : (t.take n).take m = t.take m := by rw [List.take_take, Nat.min_eq_left hmn]
  refine ⟨_, _, _, hexpands (.upTo m) ?_, hexpands (.upTo n) ?_, hexpands .none nofun,
    op.shows_ofScalar hname _, op.shows_ofScalar hname _,
    op.shows_ofScalar hname _, ?_, ?_⟩
  · rintro k ⟨⟩
    exact ⟨hm, hmn.trans hn⟩
  · rintro k ⟨⟩
    exact ⟨hm.trans hmn, hn⟩
  · show op.ofScalar name (t.take m) <+: op.ofScalar name (t.take n) ↔ _
    rw [← hshort]
    exact op.ofScalar_prefix_iff name hlong hm
  · exact op.ofScalar_prefix_iff name henc (hm.trans hmn)

/-- In a fragment, a cut behind a character of two octets and one through a
triplet. -/
theorem expand_truncated_fragment :
    let store := Store.ofList [(lit "x", .str (lit "é%41"))]
    VarSpec.Name (lit "x") ∧ store.get? (lit "x") = some (.str (lit "é%41")) ∧
      (Value.str (lit "é%41")).scalarText? .standard = some (.ok (lit "é%41")) ∧
      Text.Encodable (lit "é%41") ∧
      ∃ short long whole, ExpandsTo (sourceOf .fragment ⟨lit "x", .upTo 1⟩) store .standard short ∧
        ExpandsTo (sourceOf .fragment ⟨lit "x", .upTo 3⟩) store .standard long ∧
        ExpandsTo (sourceOf .fragment ⟨lit "x", .none⟩) store .standard whole ∧
        short <+: long ∧ ¬ long <+: whole := by
  intro store
  have hname : VarSpec.Name (lit "x") := .one (.char rfl)
  have hbound : store.get? (lit "x") = some (.str (lit "é%41")) := rfl
  have htext : (Value.str (lit "é%41")).scalarText? .standard = some (.ok (lit "é%41")) := rfl
  have henc : Text.Encodable (lit "é%41") := by decide
  obtain ⟨short, long, whole, hshort, hlong, hwhole, -, -, -, hfirst, hsecond⟩ :=
    expand_truncated .fragment hname hbound htext henc (Nat.le_refl 1) (show 1 ≤ 3 by decide)
      (by decide)
  refine ⟨hname, hbound, htext, henc, short, long, whole, hshort, hlong, hwhole,
    hfirst.mpr ?_, ?_⟩
  · -- the percent sign is behind the cut
    rintro - hcut
    exact absurd (splitsTriplet_iff_straddles.mpr hcut) (not_splitsTriplet_percent _ _)
  · intro hprefix
    have hcut := hsecond.mp hprefix rfl (.inr ⟨lit "é", '4', '1', [], rfl, rfl, rfl, rfl⟩)
    exact absurd ((hidesCut_digit (lit "é") rfl '1' []).mp hcut).1 (by decide)

/-- Less of a value is not always less of its expansion: where a triplet is cut,
its percent sign is encoded. -/
theorem expand_cut_triplet :
    let store := Store.ofList [(lit "x", .str (lit "%41"))]
    ExpandsTo (lit "\x7b+x:1\x7d") store .standard (lit "%25") ∧
      ExpandsTo (lit "\x7b+x:3\x7d") store .standard (lit "%41") ∧
      ExpandsTo (lit "\x7b+x\x7d") store .standard (lit "%41") ∧
      ¬ lit "%25" <+: lit "%41" := by
  intro store
  have hshort : ExpandsTo (lit "\x7b+x:1\x7d") store .standard (lit "%25") :=
    ⟨⟨lit "\x7b+x:1\x7d", [.expression ⟨lit "+x:1", .reserved, [⟨lit "x", .upTo 1⟩], 0⟩]⟩,
      eq_ok_of_toOption (by decide +kernel), eq_ok_of_toOption (by decide +kernel)⟩
  have hlong : ExpandsTo (lit "\x7b+x:3\x7d") store .standard (lit "%41") :=
    ⟨⟨lit "\x7b+x:3\x7d", [.expression ⟨lit "+x:3", .reserved, [⟨lit "x", .upTo 3⟩], 0⟩]⟩,
      eq_ok_of_toOption (by decide +kernel), eq_ok_of_toOption (by decide +kernel)⟩
  have hwhole : ExpandsTo (lit "\x7b+x\x7d") store .standard (lit "%41") :=
    ⟨⟨lit "\x7b+x\x7d", [.expression ⟨lit "+x", .reserved, [⟨lit "x", .none⟩], 0⟩]⟩,
      eq_ok_of_toOption (by decide +kernel), eq_ok_of_toOption (by decide +kernel)⟩
  exact ⟨hshort, hlong, hwhole, by decide⟩

end Template

end UriExpansion
