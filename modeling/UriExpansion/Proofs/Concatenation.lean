/-
UriExpansion/Proofs/Concatenation.lean

Two texts read as one.

If the braces of two texts pair up, then so do those of the two texts written
one behind the other, and the tokens of the whole are the tokens of the parts:
those of the second text stand further on by the length of the first
(`Token.shift`), and a literal that ends the first text grows together with one
that begins the second (`Token.join`).  That this is what the scanner finds
needs no look at the scanner: joined tokens are laid in the joined text
(`Token.Laid.join`), and a text is scanned as the tokens that are laid in it.

Expressions do not notice any of this, and of literals only the two that have
grown together do.  They are encoded as one, which differs from encoding them
apart exactly if a triplet begins in the one and ends in the other
(`Token.Straddles`, `append_composes`).
-/
import UriExpansion.Proofs.Diagnosis
import UriExpansion.Proofs.Meaning

namespace UriExpansion

open Percent

/-! ### Joining tokens -/

/-- The error about a text that stands `n` places further on. -/
def ParseError.shift (n : Nat) : ParseError → ParseError
  | malformed fault excerpt p => malformed fault excerpt (p + n)
  | expression fault body p => expression fault body (p + n)

namespace Token

/-- The token, standing `n` places further on. -/
def shift (n : Nat) : Token → Token
  | literal text p => literal text (p + n)
  | expression body p => expression body (p + n)

@[simp] theorem isLiteral_shift (n : Nat) (token : Token) :
    (token.shift n).isLiteral = token.isLiteral := by
  cases token <;> rfl

/-- Two lists of tokens one behind the other.  A literal that ends the first
and a literal that begins the second become one. -/
def join : List Token → List Token → List Token
  | [], us => us
  | [literal t p], literal u _ :: us => literal (t ++ u) p :: us
  | token :: ts, us => token :: join ts us

theorem join_cons_cons (token next : Token) (ts us : List Token) :
    join (token :: next :: ts) us = token :: join (next :: ts) us := by
  cases token <;> rfl

/-- Either two literals meet and become one, or the lists stay as they are. -/
theorem join_cases (ts us : List Token) :
    (∃ front t p u q back, ts = front ++ [literal t p] ∧ us = literal u q :: back ∧
      join ts us = front ++ literal (t ++ u) p :: back) ∨
    (∀ t p u q, ts.getLast? = some (literal t p) → us.head? ≠ some (literal u q)) ∧
      join ts us = ts ++ us := by
  induction ts with
  | nil => exact .inr ⟨(fun _ _ _ _ h => nomatch h), rfl⟩
  | cons token ts ih =>
    rcases ts with - | ⟨next, ts⟩
    · -- the last token of the first list decides, together with the first of the second
      rcases token with ⟨t, p⟩ | ⟨body, p⟩
      · rcases us with - | ⟨⟨u, q⟩ | ⟨body, q⟩, back⟩
        · exact .inr ⟨(fun _ _ _ _ _ h => nomatch h), rfl⟩
        · exact .inl ⟨[], t, p, u, q, back, rfl, rfl, rfl⟩
        · exact .inr ⟨(fun _ _ _ _ _ h => nomatch h), rfl⟩
      · exact .inr ⟨(fun _ _ _ _ h => nomatch h), rfl⟩
    · rw [join_cons_cons]
      rcases ih with ⟨front, t, p, u, q, back, hts, hus, hjoin⟩ | ⟨hmeet, hjoin⟩
      · refine .inl ⟨token :: front, t, p, u, q, back, ?_, hus, ?_⟩
        · rw [hts, List.cons_append]
        · rw [hjoin, List.cons_append]
      · refine .inr ⟨?_, congrArg (token :: ·) hjoin⟩
        rwa [List.getLast?_cons_cons]

/-- A triplet begins in a literal that ends the first tokens and ends in a
literal that begins the second. -/
def Straddles (ts us : List Token) : Prop :=
  ∃ t p u q, ts.getLast? = some (literal t p) ∧ us.head? = some (literal u q) ∧ t.Straddles u

theorem straddle_iff_of_meet (front back : List Token) (t u : Text) (p q : Nat) :
    Straddles (front ++ [literal t p]) (literal u q :: back) ↔ t.Straddles u := by
  constructor
  · rintro ⟨t', p', u', q', hlast, hfirst, h⟩
    rw [List.getLast?_concat] at hlast
    obtain ⟨rfl, -⟩ := literal.inj (Option.some.inj hlast)
    obtain ⟨rfl, -⟩ := literal.inj (Option.some.inj hfirst)
    exact h
  · exact fun h => ⟨t, p, u, q, List.getLast?_concat .., rfl, h⟩

/-- Where the tokens stand is not looked at. -/
theorem straddle_shift (ts us : List Token) (n : Nat) :
    Straddles ts (us.map (shift n)) ↔ Straddles ts us := by
  rcases us with - | ⟨⟨u, q⟩ | ⟨body, q⟩, us⟩
  · exact Iff.rfl
  · simp [Straddles, shift]
  · simp [Straddles, shift]

/-- The same tokens make up the text wherever it begins. -/
theorem Laid.shift {p : Nat} {tokens : List Token} {t : Text} (h : Laid p tokens t) (n : Nat) :
    Laid (p + n) (tokens.map (Token.shift n)) t := by
  induction h with
  | nil => exact .nil
  | @literal p text tokens rest hne htext hnext _ ih =>
    rw [Nat.add_right_comm] at ih
    refine .literal hne htext ?_ ih
    intro next hmem
    rw [List.head?_map] at hmem
    obtain ⟨first, hfirst, rfl⟩ := Option.map_eq_some_iff.mp hmem
    rw [isLiteral_shift, hnext first hfirst]
  | expression hbody _ ih =>
    rw [Nat.add_right_comm] at ih
    exact .expression hbody ih

/-- **Joined tokens make up the joined text.** -/
theorem Laid.join {p : Nat} {ts us : List Token} {a b : Text} (ha : Laid p ts a)
    (hb : Laid (p + a.length) us b) : Laid p (Token.join ts us) (a ++ b) := by
  induction ha with
  | nil => exact hb
  | @literal p text tokens rest hne htext hnext hrest ih =>
    rw [List.length_append, ← Nat.add_assoc] at hb
    rw [List.append_assoc]
    rcases tokens with - | ⟨⟨u, q⟩ | ⟨body, q⟩, tokens⟩
    · -- the literal ends the first text; what begins the second decides
      cases hrest
      cases hb with
      | nil => exact .literal hne htext (fun _ h => nomatch h) .nil
      | @literal _ text' tokens' rest' hne' htext' hnext' hrest' =>
        rw [List.nil_append, ← List.append_assoc]
        refine .literal (List.append_ne_nil_of_left_ne_nil hne _)
          (Text.braceFree_append.mpr ⟨htext, htext'⟩) hnext' ?_
        rwa [List.length_append, ← Nat.add_assoc]
      | expression hbody hrest' =>
        exact .literal hne htext (isLiteral_head_expression _ _ _) (.expression hbody hrest')
    · cases hnext _ rfl
    · -- an expression follows, and goes on doing so
      exact .literal hne htext (isLiteral_head_expression body q _) (ih hb)
  | @expression p body tokens rest hbody _ ih =>
    rw [List.length_append, ← Nat.add_assoc] at hb
    rw [List.append_assoc]
    exact .expression hbody (ih hb)

theorem encodable_shift {n : Nat} {token : Token} :
    (token.shift n).Encodable ↔ token.Encodable := by
  cases token <;> exact Iff.rfl

theorem encodable_join {ts us : List Token} (hts : ∀ token ∈ ts, token.Encodable)
    (hus : ∀ token ∈ us, token.Encodable) : ∀ token ∈ join ts us, token.Encodable := by
  rcases join_cases ts us with ⟨front, t, p, u, q, back, rfl, rfl, hjoin⟩ | ⟨-, hjoin⟩
  · rw [hjoin]
    obtain ⟨hfront, ht⟩ := List.forall_mem_append.mp hts
    obtain ⟨hu, hback⟩ := List.forall_mem_cons.mp hus
    have hlast : (literal t p).Encodable := ht _ List.mem_cons_self
    have hboth : (literal (t ++ u) p).Encodable := Text.encodable_append.mpr ⟨hlast, hu⟩
    exact List.forall_mem_append.mpr ⟨hfront, List.forall_mem_cons.mpr ⟨hboth, hback⟩⟩
  · rw [hjoin]
    exact List.forall_mem_append.mpr ⟨hts, hus⟩

/-- The tokens of two texts, joined, are the tokens of the joined text. -/
theorem scan_append {a b : Text} {ts us : List Token} (ha : scan a = .ok ts)
    (hb : scan b = .ok us) : scan (a ++ b) = .ok (join ts (us.map (shift a.length))) := by
  -- what is laid in the joined text is what the scanner finds there
  obtain ⟨hlaid, hencodable⟩ := scan_eq_ok_iff.mp ha
  obtain ⟨hlaid', hencodable'⟩ := scan_eq_ok_iff.mp hb
  refine scan_eq_ok_iff.mpr ⟨hlaid.join (hlaid'.shift a.length), encodable_join hencodable ?_⟩
  intro token htoken
  obtain ⟨first, hfirst, rfl⟩ := List.mem_map.mp htoken
  exact encodable_shift.mpr (hencodable' first hfirst)

end Token

namespace Template

/-! ### Errors of joined tokens -/

theorem errorsOf_append (ts us : List Token) :
    errorsOf (ts ++ us) = errorsOf ts ++ errorsOf us := List.filterMap_append

theorem errorsOf_cons_literal (text : Text) (p : Nat) (tokens : List Token) :
    errorsOf (.literal text p :: tokens) = errorsOf tokens := rfl

theorem errorsOf_join (ts us : List Token) :
    errorsOf (Token.join ts us) = errorsOf ts ++ errorsOf us := by
  rcases Token.join_cases ts us with ⟨front, t, p, u, q, back, rfl, rfl, hjoin⟩ | ⟨-, hjoin⟩
  · rw [hjoin, errorsOf_append, errorsOf_append, errorsOf_cons_literal, errorsOf_cons_literal,
      errorsOf_cons_literal]
    exact congrArg (· ++ errorsOf back) (List.append_nil _).symm
  · rw [hjoin, errorsOf_append]

theorem errorsOf_shift (tokens : List Token) (n : Nat) :
    errorsOf (tokens.map (Token.shift n)) = (errorsOf tokens).map (ParseError.shift n) := by
  -- whether a body is refused does not depend on its place, and its error only names it
  have hread : ∀ token : Token, error? (Component.ofToken (token.shift n))
      = (error? (Component.ofToken token)).map (ParseError.shift n) := by
    intro token
    cases token with
    | literal text p => rfl
    | expression body p =>
      rw [Token.shift, Component.ofToken, Component.ofToken, error?_map, error?_map,
        Expression.read, Expression.read]
      rcases Expression.readBody body with fault | ⟨op, specs⟩ <;> rfl
  simp only [errorsOf_eq, List.filterMap_map, List.map_filterMap, Function.comp_def, hread]

/-! ### Meanings of joined tokens -/

section
variable (store : Store) (s : Settings)

theorem meaningOf_append (ts us : List Token) :
    meaningOf store s (ts ++ us)
      = (meaningOf store s ts >>= fun t => (meaningOf store s us).map (t ++ ·)) := by
  have hcomponents : componentsOf (ts ++ us) = componentsOf ts ++ componentsOf us :=
    List.filterMap_append
  rw [meaningOf, hcomponents]
  exact joinM_append (Component.meaning store s) (componentsOf ts) (componentsOf us)

/-- A meaning does not depend on where its text stands. -/
theorem meaningOf_shift (tokens : List Token) (n : Nat) :
    meaningOf store s (tokens.map (Token.shift n)) = meaningOf store s tokens := by
  induction tokens with
  | nil => rfl
  | cons token tokens ih =>
    rw [List.map_cons]
    cases token with
    | literal text p => rw [Token.shift, meaningOf_cons_literal, meaningOf_cons_literal, ih]
    | expression body p =>
      rw [Token.shift, meaningOf_cons_expression, meaningOf_cons_expression, ih]

/-- Joined tokens mean what the parts mean, one after the other, unless a
triplet straddles the junction of two literals. -/
theorem meaningOf_join {ts us : List Token} {out out' : Text}
    (hts : meaningOf store s ts = .ok out) (hus : meaningOf store s us = .ok out') :
    ∃ whole, meaningOf store s (Token.join ts us) = .ok whole ∧
      (whole = out ++ out' ↔ ¬ Token.Straddles ts us) := by
  rcases Token.join_cases ts us with ⟨front, t, p, u, q, back, rfl, rfl, hjoin⟩ | ⟨hmeet, hjoin⟩
  · -- the two literals are encoded as one; what stands before and behind them is the same
    have hlast : meaningOf store s [.literal t p] = .ok (encoded .reserved t) := by
      rw [meaningOf_cons_literal]
      exact congrArg Except.ok (List.append_nil _)
    rw [meaningOf_append, hlast] at hts
    rw [meaningOf_cons_literal] at hus
    obtain ⟨before, hfront, hbefore⟩ := bind_eq_ok.mp hts
    obtain ⟨after, hback, rfl⟩ := map_eq_ok.mp hus
    obtain rfl := Except.ok.inj hbefore
    refine ⟨before ++ (encoded .reserved (t ++ u) ++ after), ?_, ?_⟩
    · rw [hjoin, meaningOf_append, meaningOf_cons_literal, hfront, hback]
      rfl
    · rw [Token.straddle_iff_of_meet, ← splitsTriplet_iff_straddles, ← encoded_append_iff,
        List.append_assoc, List.append_right_inj, ← List.append_assoc, List.append_left_inj]
  · refine ⟨out ++ out', ?_, iff_of_true rfl ?_⟩
    · rw [hjoin, meaningOf_append, hts, hus]
      rfl
    · rintro ⟨t, p, u, q, hlast, hfirst, -⟩
      exact hmeet t p u q hlast hfirst

end

/-! ### Joined templates -/

/-- A template expands to what its tokens mean. -/
theorem expand_eq_ok_iff {source : Text} {t : Template} (h : parse source = .ok t) (store : Store)
    (s : Settings) (out : Text) :
    t.expand store s = .ok out ↔ Component.meaningAll store s t.components = .ok out :=
  (expand_located (parse_sound h) store s).ok_iff out

/-- **Templates compose by concatenation.**  The tokens of two texts one behind
the other are those of the texts, joined, and the errors are those of the texts;
tokens and errors of the second text stand further on by the length of the
first.  If both texts are templates, then so is the whole, and it expands to
the two expansions one behind the other unless a triplet straddles the
junction of two literals. -/
theorem append_composes {a b : Text} {ts us : List Token} (ha : Token.scan a = .ok ts)
    (hb : Token.scan b = .ok us) :
    Token.scan (a ++ b) = .ok (Token.join ts (us.map (Token.shift a.length))) ∧
    (tryParse (a ++ b)).2 = (tryParse a).2 ++ (tryParse b).2.map (ParseError.shift a.length) ∧
    ∀ t u, parse a = .ok t → parse b = .ok u → ∀ store s out out',
      t.expand store s = .ok out → u.expand store s = .ok out' →
      ∃ v whole, parse (a ++ b) = .ok v ∧ v.expand store s = .ok whole ∧
        (whole = out ++ out' ↔ ¬ Token.Straddles ts us) := by
  have hscan := Token.scan_append ha hb
  have herrors : errorsOf (Token.join ts (us.map (Token.shift a.length)))
      = errorsOf ts ++ (errorsOf us).map (ParseError.shift a.length) := by
    rw [errorsOf_join, errorsOf_shift]
  refine ⟨hscan, ?_, ?_⟩
  · rw [tryParse_of_scan hscan, tryParse_of_scan ha, tryParse_of_scan hb, herrors]
  · intro t u ht hu store s out out' hout hout'
    -- both texts are templates, so that their tokens are those of the hypotheses
    rw [expand_eq_ok_iff ht] at hout
    rw [expand_eq_ok_iff hu] at hout'
    obtain ⟨ts', hscan', hnone, rfl⟩ := parse_eq_ok_iff.mp ht
    obtain ⟨us', hscan'', hnone', rfl⟩ := parse_eq_ok_iff.mp hu
    obtain rfl := Except.ok.inj (ha.symm.trans hscan')
    obtain rfl := Except.ok.inj (hb.symm.trans hscan'')
    -- where a token stands has no influence on what it means
    obtain ⟨whole, hmeaning, hiff⟩ :=
      meaningOf_join store s hout ((meaningOf_shift store s us a.length).trans hout')
    have hparse : parse (a ++ b) = .ok
        ⟨a ++ b, componentsOf (Token.join ts (us.map (Token.shift a.length)))⟩ := by
      refine parse_eq_ok_iff.mpr ⟨_, hscan, ?_, rfl⟩
      rw [herrors, hnone, hnone']
      rfl
    refine ⟨_, whole, hparse, (expand_eq_ok_iff hparse store s whole).mpr hmeaning, ?_⟩
    rw [hiff, Token.straddle_shift]

/-- A percent sign with one digit before, the other digit behind the junction;
and errors on both sides of a junction. -/
theorem append_composes_straddling :
    let store := Store.empty.set (lit "y") (.str (lit "v"))
    let ts : List Token := [.literal (lit "x") 0, .expression (lit "y") 1, .literal (lit "%4") 4]
    let us : List Token := [.literal (lit "1") 0, .expression (lit "z") 1]
    ∃ t u v whole, Token.scan (lit "x\x7by\x7d%4") = .ok ts ∧
      Token.scan (lit "1\x7bz\x7d") = .ok us ∧
      Token.scan (lit "x\x7by\x7d%41\x7bz\x7d") = .ok [.literal (lit "x") 0,
        .expression (lit "y") 1, .literal (lit "%41") 4, .expression (lit "z") 7] ∧
      parse (lit "x\x7by\x7d%4") = .ok t ∧ t.expand store .standard = .ok (lit "xv%254") ∧
      parse (lit "1\x7bz\x7d") = .ok u ∧ u.expand store .standard = .ok (lit "1") ∧
      parse (lit "x\x7by\x7d%41\x7bz\x7d") = .ok v ∧ v.expand store .standard = .ok whole ∧
      Token.Straddles ts us ∧ whole ≠ lit "xv%254" ++ lit "1" ∧
      (tryParse (lit "a\x7b\x7d" ++ lit "\x7bb:0\x7d")).2.map ParseError.position = [1, 3] := by
  intro store ts us
  have hts : Token.scan (lit "x\x7by\x7d%4") = .ok ts := eq_ok_of_toOption (by decide +kernel)
  have hus : Token.scan (lit "1\x7bz\x7d") = .ok us := eq_ok_of_toOption (by decide +kernel)
  have hstraddle : Token.Straddles ts us :=
    ⟨lit "%4", 4, lit "1", 0, rfl, rfl, .inr ⟨[], '4', '1', [], rfl, rfl, rfl, rfl⟩⟩
  let y : Expression := ⟨lit "y", .simple, [⟨lit "y", .none⟩], 1⟩
  let z : Expression := ⟨lit "z", .simple, [⟨lit "z", .none⟩], 1⟩
  let t : Template := ⟨lit "x\x7by\x7d%4",
    [.literal (lit "x") 0, .expression y, .literal (lit "%4") 4]⟩
  let u : Template := ⟨lit "1\x7bz\x7d", [.literal (lit "1") 0, .expression z]⟩
  have ht : parse (lit "x\x7by\x7d%4") = .ok t := eq_ok_of_toOption (by decide +kernel)
  have hu : parse (lit "1\x7bz\x7d") = .ok u := eq_ok_of_toOption (by decide +kernel)
  have hout : t.expand store .standard = .ok (lit "xv%254") := eq_ok_of_toOption (by decide +kernel)
  have hout' : u.expand store .standard = .ok (lit "1") := eq_ok_of_toOption (by decide +kernel)
  obtain ⟨hscan, -, hcompose⟩ := append_composes hts hus
  obtain ⟨v, whole, hv, hwhole, hiff⟩ := hcompose t u ht hu store .standard _ _ hout hout'
  -- two texts with an error each
  have hempty : Token.scan (lit "a\x7b\x7d") = .ok [.literal (lit "a") 0, .expression [] 1] :=
    eq_ok_of_toOption (by decide +kernel)
  have hlength : Token.scan (lit "\x7bb:0\x7d") = .ok [.expression (lit "b:0") 0] :=
    eq_ok_of_toOption (by decide +kernel)
  obtain ⟨-, herrors, -⟩ := append_composes hempty hlength
  refine ⟨t, u, v, whole, hts, hus, hscan, ht, hout, hu, hout', hv, hwhole, hstraddle, ?_, ?_⟩
  · exact fun heq => hiff.mp heq hstraddle
  · rw [herrors]
    decide +kernel

end Template

end UriExpansion
