/-
UriExpansion/Proofs/Diagnosis.lean

What is reported about a text that is no template.

Braces out of turn end the scan, and their error is all that is reported.
Otherwise the braces of the text pair up, and each pair is looked at on its
own.  A pair is visible in the text itself: a body without braces stands
between an opening and a closing one (`Text.BracePair`), and the scanner makes
an expression of every such body (`Token.Laid.mem_iff_bracePair`).  So the
errors can be read off the text: one for every pair whose body is refused, in
the order of their positions, and none besides (`tryParse_reports`).
-/
import UriExpansion.Proofs.Layout

namespace UriExpansion

/-- A body without braces stands between braces, the opening one at the
offset `p` of the text. -/
def Text.BracePair (source : Text) (p : Nat) (body : Text) : Prop :=
  BraceFree body ∧
    ∃ before after, before.length = p ∧ source = before ++ (Expression.braced body ++ after)

/-- A character that is not in the beginning of a text stands behind it. -/
theorem Text.exists_append_of_not_mem {c : CodePoint} {t u before after : Text} (hc : c ∉ t)
    (h : t ++ u = before ++ c :: after) :
    ∃ middle, before = t ++ middle ∧ u = middle ++ c :: after := by
  rcases List.append_eq_append_iff.mp h with ⟨middle, hbefore, hu⟩ | ⟨inner, ht, hafter⟩
  · exact ⟨middle, hbefore, hu⟩
  · -- the character stands at the cut, or in the text that does not hold it
    rcases inner with - | ⟨d, inner⟩
    · exact ⟨[], by rw [ht, List.append_nil, List.append_nil], hafter.symm⟩
    · obtain ⟨rfl, -⟩ := List.cons.inj hafter
      rw [ht] at hc
      exact absurd (List.mem_append_right before List.mem_cons_self) hc

/-! ### Pairs of braces and tokens -/

namespace Token

namespace Laid

variable {p : Nat} {tokens : List Token} {t : Text}

/-- Between two braces there is always a token. -/
theorem mem_of_braced (h : Laid p tokens t) {before body after : Text}
    (hbody : Text.BraceFree body) (ht : t = before ++ (Expression.braced body ++ after)) :
    .expression body (p + before.length) ∈ tokens := by
  induction h generalizing before with
  | nil => simp [Expression.braced] at ht
  | @literal p text tokens rest _ htext _ _ ih =>
    -- the opening brace is not in the literal, so that it stands behind it
    obtain ⟨middle, rfl, hrest⟩ := Text.exists_append_of_not_mem htext.1 ht
    have hmem := ih hrest
    rw [Nat.add_assoc, ← List.length_append] at hmem
    exact List.mem_cons_of_mem _ hmem
  | @expression p text tokens rest htext _ ih =>
    rcases before with - | ⟨c, before⟩
    · -- it is the opening brace of this body, and the next closing brace ends both
      have hcut : text ++ CodePoint.scalar '}' :: rest = body ++ CodePoint.scalar '}' :: after := by
        simpa [Expression.braced] using ht
      have hsame := Text.cutAt_append htext.2 rest
      rw [hcut, Text.cutAt_append hbody.2] at hsame
      obtain ⟨rfl, -⟩ := Prod.mk.inj hsame
      exact List.mem_cons_self
    · -- it is another one, which stands behind the closing brace of this body
      obtain ⟨hc, hbehind⟩ : CodePoint.scalar '{' = c ∧ (text ++ [CodePoint.scalar '}']) ++ rest
          = before ++ (Expression.braced body ++ after) := by
        simpa [Expression.braced] using ht
      have hopen : CodePoint.scalar '{' ∉ text ++ [CodePoint.scalar '}'] := by
        simpa using htext.1
      obtain ⟨middle, rfl, hrest⟩ := Text.exists_append_of_not_mem hopen hbehind
      have hmem := ih hrest
      have hplace : p + (Expression.braced text).length + middle.length
          = p + (c :: (text ++ [CodePoint.scalar '}'] ++ middle)).length := by
        simp only [Expression.length_braced, List.length_cons, List.length_append, List.length_nil]
        omega
      rw [hplace] at hmem
      exact List.mem_cons_of_mem _ hmem

/-- **The expressions of a text are its pairs of braces.** -/
theorem mem_iff_bracePair (h : Laid 0 tokens t) {body : Text} {q : Nat} :
    .expression body q ∈ tokens ↔ t.BracePair q body := by
  constructor
  · intro hmem
    obtain ⟨before, after, rfl⟩ := List.append_of_mem hmem
    have hposition := h.position_eq
    rw [Nat.zero_add] at hposition
    refine ⟨h.forall_mem _ hmem, allText before, allText after, hposition.symm, ?_⟩
    rw [← h.allText_eq, allText_append, allText_cons]
    rfl
  · rintro ⟨hbody, before, after, rfl, ht⟩
    have hmem := h.mem_of_braced hbody ht
    rwa [Nat.zero_add] at hmem

/-- No token is empty as it stands in the text. -/
theorem length_pos (h : Laid p tokens t) : ∀ token ∈ tokens, 0 < token.toText.length := by
  intro token htoken
  have hall := h.forall_mem token htoken
  cases token with
  | literal text q => exact List.length_pos_iff.mpr hall.1
  | expression body q => exact Nat.succ_pos _

/-- Tokens do not stand before the beginning of their text. -/
theorem le_position (h : Laid p tokens t) : ∀ token ∈ tokens, p ≤ token.position := by
  intro token htoken
  obtain ⟨before, after, rfl⟩ := List.append_of_mem htoken
  rw [h.position_eq]
  exact Nat.le_add_right p _

/-- Tokens stand behind the end of those before them. -/
theorem pairwise_apart (h : Laid p tokens t) :
    tokens.Pairwise fun a b => a.position + a.toText.length ≤ b.position := by
  induction tokens generalizing p t with
  | nil => exact .nil
  | cons token tokens ih =>
    obtain ⟨hposition, rest, -, hrest⟩ := h.uncons
    refine .cons (fun next hnext => ?_) (ih hrest)
    rw [hposition]
    exact hrest.le_position next hnext

/-- Tokens stand in the order of their positions. -/
theorem pairwise_position (h : Laid p tokens t) :
    tokens.Pairwise fun a b => a.position < b.position := by
  refine h.pairwise_apart.imp_of_mem fun {a b} ha _ hapart => ?_
  -- a token is not empty, and the next one stands behind its end
  have hpos := h.length_pos a ha
  omega

end Laid

/-- Whatever ends the scan is a fault of braces or of literal text. -/
theorem exists_malformed_of_scan {source : Text} {e : ParseError} (h : scan source = .error e) :
    ∃ fault excerpt p, e = .malformed fault excerpt p := by
  unfold scan at h
  split at h
  · next stray _ =>
    obtain rfl := Except.error.inj h
    cases stray <;> exact ⟨_, _, _, rfl⟩
  · dsimp only at h
    split at h
    · next error hsome =>
      obtain rfl := Except.error.inj h
      obtain ⟨token, -, herror⟩ := List.exists_of_findSome?_eq_some hsome
      cases token with
      | literal text p =>
        obtain ⟨i, -, rfl⟩ := Option.map_eq_some_iff.mp herror
        exact ⟨_, _, _, rfl⟩
      | expression body p => cases herror
    · cases h

end Token

/-! ### Errors of tokens -/

/-- Only a body can be at fault, and its error names it and its place. -/
theorem Expression.exists_of_read_eq_error {body : Text} {p : Nat} {e : ParseError}
    (h : read body p = .error e) : ∃ fault, e = .expression fault body p := by
  unfold read at h
  split at h
  · cases h
  · next fault _ => exact ⟨fault, (Except.error.inj h).symm⟩

theorem Component.ofToken_eq_error_iff {token : Token} {e : ParseError} :
    ofToken token = .error e ↔
      ∃ body p, token = .expression body p ∧ Expression.read body p = .error e := by
  cases token with
  | literal text p =>
    constructor
    · exact fun h => nomatch h
    · rintro ⟨body, q, h, -⟩
      cases h
  | expression body p =>
    rw [← error?_eq_some, ofToken, error?_map, error?_eq_some]
    constructor
    · exact fun h => ⟨body, p, rfl, h⟩
    · rintro ⟨body', q, heq, h⟩
      obtain ⟨rfl, rfl⟩ := Token.expression.inj heq
      exact h

namespace Template

theorem errorsOf_eq (tokens : List Token) :
    errorsOf tokens = tokens.filterMap fun token => error? (Component.ofToken token) := by
  refine congrArg (List.filterMap · tokens) (funext fun token => ?_)
  rcases Component.ofToken token with e | c <;> rfl

theorem mem_errorsOf {tokens : List Token} {e : ParseError} : e ∈ errorsOf tokens ↔
    ∃ body p, .expression body p ∈ tokens ∧ Expression.read body p = .error e := by
  simp only [errorsOf_eq, List.mem_filterMap, error?_eq_some, Component.ofToken_eq_error_iff]
  constructor
  · rintro ⟨token, htoken, body, p, rfl, hread⟩
    exact ⟨body, p, htoken, hread⟩
  · rintro ⟨body, p, htoken, hread⟩
    exact ⟨_, htoken, body, p, rfl, hread⟩

/-- Errors stand in the order of the tokens they are about. -/
theorem pairwise_errorsOf {tokens : List Token}
    (h : tokens.Pairwise fun a b => a.position < b.position) :
    (errorsOf tokens).Pairwise fun a b => a.position < b.position := by
  -- an error stands where its token stands
  have hposition : ∀ {token : Token} {e : ParseError},
      error? (Component.ofToken token) = some e → e.position = token.position := by
    intro token e he
    obtain ⟨body, p, rfl, hread⟩ := Component.ofToken_eq_error_iff.mp (error?_eq_some.mp he)
    obtain ⟨fault, rfl⟩ := Expression.exists_of_read_eq_error hread
    rfl
  rw [errorsOf_eq]
  refine h.filterMap _ fun token token' hlt e he e' he' => ?_
  rw [hposition he, hposition he']
  exact hlt

/-- There is a template or an error, never both; reading ends in the template
or in the first of the errors. -/
theorem tryParse_cases (source : Text) :
    (∃ t, tryParse source = (some t, []) ∧ parse source = .ok t) ∨
      ∃ e errors, tryParse source = (none, e :: errors) ∧ parse source = .error e := by
  unfold tryParse parse
  rcases Token.scan source with e | tokens
  · exact .inr ⟨e, [], rfl, rfl⟩
  · dsimp only
    rcases errorsOf tokens with - | ⟨e, errors⟩
    · exact .inl ⟨_, rfl, rfl⟩
    · exact .inr ⟨e, errors, rfl, rfl⟩

/-- The errors about a text whose braces pair up are those of its tokens. -/
theorem tryParse_of_scan {source : Text} {tokens : List Token}
    (h : Token.scan source = .ok tokens) : (tryParse source).2 = errorsOf tokens := by
  rw [tryParse, h]
  dsimp only
  rcases errorsOf tokens with - | ⟨e, errors⟩ <;> rfl

/-- **Every malformed expression is reported once, and nothing else.**  There
is a template without errors or an error without a template, and reading ends
in the template or in the first error.  Braces out of turn and literal text at
fault are reported alone.  Otherwise the errors are those of the pairs of
braces whose body is refused, in the order of their positions, each with the
text that stands at its position. -/
theorem tryParse_reports (source : Text) :
    ((∃ t, tryParse source = (some t, []) ∧ parse source = .ok t) ∨
      ∃ e errors, tryParse source = (none, e :: errors) ∧ parse source = .error e) ∧
    (∀ e, Token.scan source = .error e →
      (∃ fault excerpt p, e = .malformed fault excerpt p) ∧ (tryParse source).2 = [e]) ∧
    ∀ tokens, Token.scan source = .ok tokens →
      ((tryParse source).2.Pairwise fun a b => a.position < b.position) ∧
      (∀ e, e ∈ (tryParse source).2 ↔
        ∃ body p, source.BracePair p body ∧ Expression.read body p = .error e) ∧
      ∀ e ∈ (tryParse source).2, (∃ fault body p, e = .expression fault body p) ∧
        (source.drop e.position).take e.excerpt.length = e.excerpt := by
  refine ⟨tryParse_cases source, fun e hscan => ⟨?malformed, ?alone⟩, fun tokens hscan => ?pairs⟩
  case malformed => exact Token.exists_malformed_of_scan hscan
  case alone => rw [tryParse, hscan]
  case pairs =>
    obtain ⟨hlaid, -⟩ := Token.scan_eq_ok_iff.mp hscan
    rw [tryParse_of_scan hscan]
    refine ⟨pairwise_errorsOf hlaid.pairwise_position, fun e => ?_, fun e he => ?_⟩
    · simp only [mem_errorsOf, hlaid.mem_iff_bracePair]
    · obtain ⟨body, p, htoken, hread⟩ := mem_errorsOf.mp he
      obtain ⟨fault, rfl⟩ := Expression.exists_of_read_eq_error hread
      exact ⟨⟨fault, body, p, rfl⟩, hlaid.standsIn _ htoken⟩

/-- Good and bad expressions side by side, and a brace that is never closed. -/
theorem tryParse_reports_mixed :
    let source := lit "\x7ba\x7d\x7b\x7dx\x7bb:0\x7d\x7bc,c\x7d"
    let error : ParseError := .expression (.badLength (lit "b:0")) (lit "b:0") 6
    (tryParse source).2.map ParseError.position = [3, 6, 11] ∧
      source.BracePair 6 (lit "b:0") ∧ Expression.read (lit "b:0") 6 = .error error ∧
      error ∈ (tryParse source).2 ∧
      (source.drop 6).take 5 = lit "\x7bb:0\x7d" ∧
      (∃ e, parse source = .error e ∧ e.position = 3) ∧
      (tryParse (lit "a\x7b\x7d\x7bb")).2 = [.malformed .unclosed (lit "\x7bb") 3] := by
  intro source error
  obtain ⟨tokens, hscan⟩ : ∃ tokens, Token.scan source = .ok tokens :=
    error?_eq_none.mp (by decide +kernel)
  have hpair : source.BracePair 6 (lit "b:0") :=
    ⟨⟨by decide +kernel, by decide +kernel⟩, lit "\x7ba\x7d\x7b\x7dx", lit "\x7bc,c\x7d", rfl,
      by decide +kernel⟩
  have hread : Expression.read (lit "b:0") 6 = .error error := error?_eq_some.mp (by decide +kernel)
  obtain ⟨hcases, -, hpairs⟩ := tryParse_reports source
  obtain ⟨-, hmem, hreads⟩ := hpairs tokens hscan
  have herror : error ∈ (tryParse source).2 := (hmem error).mpr ⟨lit "b:0", 6, hpair, hread⟩
  have hfirst : ∃ e, parse source = .error e ∧ e.position = 3 := by
    rcases hcases with ⟨t, ht, -⟩ | ⟨e, errors, he, hparse⟩
    · rw [ht] at herror
      cases herror
    · have hpositions : (tryParse source).2.map ParseError.position = [3, 6, 11] := by
        decide +kernel
      rw [he] at hpositions
      exact ⟨e, hparse, (List.cons.inj hpositions).1⟩
  have hunclosed : Token.scan (lit "a\x7b\x7d\x7bb")
      = .error (.malformed .unclosed (lit "\x7bb") 3) := error?_eq_some.mp (by decide +kernel)
  obtain ⟨-, halone, -⟩ := tryParse_reports (lit "a\x7b\x7d\x7bb")
  exact ⟨by decide +kernel, hpair, hread, herror, (hreads error herror).2, hfirst,
    (halone _ hunclosed).2⟩

end Template

end UriExpansion
