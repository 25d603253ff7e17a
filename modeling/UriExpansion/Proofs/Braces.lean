/-
UriExpansion/Proofs/Braces.lean

The language of templates as far as braces go, and the blame for a text that
is not in it.

A text is flat if it is made of characters that are no braces and of groups,
which are bodies without braces between two braces (`Text.Flat`).  The scanner
accepts the flat texts in which no surrogate lies outside the groups.  Whom it
blames for any other text can be told without the scanner.  The braces of a text
should take turns, an opening one first (`Text.Alternating`).  The first that is
out of turn is blamed (`Text.FirstBreak`); if there is none, the opening brace
that is still open at the end; and if there is none either, the first surrogate
outside the groups.

* `strays_of_outside`: the brace that ends a scan stands behind a flat text, or
  behind a flat text, an opening brace and a body.
* `alternating_append`: behind an even number of braces that take turns the
  turns begin anew; so what stands before a stray brace has no influence on
  whether it is out of turn.
* `scan_exact`: what is accepted and who is blamed.
-/
import UriExpansion.Proofs.Diagnosis

namespace UriExpansion

namespace Text

/-! ### Flat texts -/

/-- Characters that are no braces and bodies between braces, one after the
other. -/
inductive Flat : Text → Prop
  | nil : Flat []
  | char {c t} : c ≠ CodePoint.scalar '{' → c ≠ CodePoint.scalar '}' → Flat t → Flat (c :: t)
  | group {body t} : BraceFree body → Flat t → Flat (Expression.braced body ++ t)

theorem Flat.append {t u : Text} (ht : Flat t) (hu : Flat u) : Flat (t ++ u) := by
  induction ht with
  | nil => exact hu
  | char ho hc _ ih => exact .char ho hc ih
  | group hbody _ ih =>
    rw [List.append_assoc]
    exact .group hbody ih

theorem BraceFree.flat {t : Text} (h : BraceFree t) : Flat t := by
  induction t with
  | nil => exact .nil
  | cons c t ih =>
    obtain ⟨ho, hc, ht⟩ := braceFree_cons.mp h
    exact .char ho hc (ih ht)

/-! ### Turns -/

/-- A brace of either kind. -/
def isBrace (c : CodePoint) : Bool := c = CodePoint.scalar '{' || c = CodePoint.scalar '}'

/-- The braces of a text, in order. -/
def braces (t : Text) : Text := t.filter isBrace

/-- The brace whose turn it is when there have been `n` braces. -/
def turn (n : Nat) : CodePoint :=
  if n % 2 = 0 then CodePoint.scalar '{' else CodePoint.scalar '}'

/-- The braces of a text take turns, an opening one first. -/
def Alternating (t : Text) : Prop := t.braces = (List.range t.braces.length).map turn

instance (t : Text) : Decidable t.Alternating :=
  inferInstanceAs (Decidable (t.braces = (List.range t.braces.length).map turn))

/-- The character at the offset `p` is the first brace out of turn. -/
structure FirstBreak (t : Text) (p : Nat) : Prop where
  before : Alternating (t.take p)
  breaks : ¬ Alternating (t.take (p + 1))

/-- The brace at `opened` opens an expression, and no other brace stands between it
and the offset `p`. -/
structure Opened (t : Text) (opened p : Nat) : Prop where
  lt : opened < p
  brace : t[opened]? = some (CodePoint.scalar '{')
  body : BraceFree ((t.take p).drop (opened + 1))

/-- A surrogate stands at the offset `p`, and not between the braces of a group. -/
structure LooseSurrogate (t : Text) (p : Nat) : Prop where
  surrogate : ∃ c, t[p]? = some c ∧ c.isSurrogate = true
  outside : ∀ q body, t.BracePair q body → p < q ∨ q + (Expression.braced body).length ≤ p

/-- The error is about the first brace out of turn. -/
inductive BlamesBreak (t : Text) (e : ParseError) : Prop
  /-- An opening brace; the excerpt runs from the brace of the open expression
  through it. -/
  | nested {opened : Nat} : t.FirstBreak e.position →
      t[e.position]? = some (CodePoint.scalar '{') → e.code = lit "E_NESTED_BRACE" →
      t.Opened opened e.position → e.excerpt = (t.take (e.position + 1)).drop opened →
      BlamesBreak t e
  /-- A closing brace. -/
  | unmatchedClose : t.FirstBreak e.position →
      t[e.position]? = some (CodePoint.scalar '}') → e.code = lit "E_UNMATCHED_CLOSE" →
      BlamesBreak t e

/-- The error is about the expression that is open at the end, and its excerpt is
the rest of the text. -/
structure BlamesUnclosed (t : Text) (e : ParseError) : Prop where
  code : e.code = lit "E_UNCLOSED_EXPRESSION"
  opened : t.Opened e.position t.length
  excerpt : e.excerpt = t.drop e.position

/-- The error is about the first surrogate outside the groups. -/
structure BlamesSurrogate (t : Text) (e : ParseError) : Prop where
  code : e.code = lit "E_INVALID_UNICODE"
  loose : t.LooseSurrogate e.position
  first : ∀ p < e.position, ¬ t.LooseSurrogate p

@[simp] theorem braces_append (t u : Text) : braces (t ++ u) = braces t ++ braces u :=
  List.filter_append ..

theorem BraceFree.braces {t : Text} (h : BraceFree t) : braces t = [] := by
  refine List.filter_eq_nil_iff.mpr fun c hc hbrace => ?_
  rcases Bool.or_eq_true _ _ ▸ hbrace with ho | hc'
  · exact h.1 (of_decide_eq_true ho ▸ hc)
  · exact h.2 (of_decide_eq_true hc' ▸ hc)

theorem BraceFree.braces_open {body : Text} (h : BraceFree body) :
    Text.braces (CodePoint.scalar '{' :: body) = [CodePoint.scalar '{'] :=
  congrArg (CodePoint.scalar '{' :: ·) h.braces

theorem BraceFree.braces_braced {body : Text} (h : BraceFree body) :
    Text.braces (Expression.braced body) = [CodePoint.scalar '{', CodePoint.scalar '}'] := by
  have htext : Expression.braced body = (CodePoint.scalar '{' :: body) ++ [CodePoint.scalar '}'] :=
    rfl
  rw [htext, braces_append, h.braces_open]
  rfl

theorem turn_add {m : Nat} (hm : m % 2 = 0) (n : Nat) : turn (m + n) = turn n := by
  rw [turn, turn, show (m + n) % 2 = n % 2 by omega]

/-- **Behind an even number of braces the turns begin anew.** -/
theorem alternating_append {t : Text} (ht : Alternating t) (heven : t.braces.length % 2 = 0)
    (u : Text) : Alternating (t ++ u) ↔ Alternating u := by
  have hturns : (List.range (t.braces ++ u.braces).length).map turn
      = t.braces ++ (List.range u.braces.length).map turn := by
    rw [List.length_append, List.range_add, List.map_append, List.map_map, ← ht]
    exact congrArg (t.braces ++ ·) (List.map_congr_left fun n _ => turn_add heven n)
  rw [Alternating, braces_append, hturns, List.append_cancel_left_eq, Alternating]

/-- What stands at the beginning of braces that take turns takes turns. -/
theorem Alternating.of_append {t u : Text} (h : Alternating (t ++ u)) : Alternating t := by
  rw [Alternating, braces_append, List.length_append, List.range_add, List.map_append] at h
  exact (List.append_inj h (by simp)).1

theorem Alternating.take {t : Text} (h : Alternating t) (n : Nat) : Alternating (t.take n) := by
  rw [← List.take_append_drop n t] at h
  exact h.of_append

/-- **The braces of a flat text take turns**, and each is closed. -/
theorem Flat.alternating {t : Text} (h : Flat t) : Alternating t ∧ t.braces.length % 2 = 0 := by
  induction h with
  | nil => exact ⟨rfl, rfl⟩
  | @char c t ho hc _ ih =>
    -- the character is passed over
    have hbraces : braces (c :: t) = braces t :=
      List.filter_cons_of_neg (by simp [isBrace, ho, hc])
    rwa [Alternating, hbraces]
  | @group body t hbody _ ih =>
    obtain ⟨halternating, heven⟩ := ih
    have hpair := hbody.braces_braced
    have hgroup : Alternating (Expression.braced body) := by
      rw [Alternating, hpair]
      rfl
    constructor
    · exact (alternating_append hgroup (by rw [hpair]; rfl) t).mpr halternating
    · rw [braces_append, hpair, List.length_append, List.length_cons, List.length_singleton]
      omega

/-- What stands behind a flat text takes turns as if it stood alone. -/
theorem Flat.alternating_append {t : Text} (h : Flat t) (u : Text) :
    Alternating (t ++ u) ↔ Alternating u :=
  Text.alternating_append h.alternating.1 h.alternating.2 u

/-- An expression that is still open at the end has the odd brace. -/
theorem Opened.braces_length {t : Text} {opened : Nat} (h : t.Opened opened t.length)
    (halternating : Alternating t) : t.braces.length % 2 = 1 := by
  have hbody := h.body
  rw [List.take_length] at hbody
  obtain ⟨hlt, hbrace⟩ := List.getElem?_eq_some_iff.mp h.brace
  have htext : t = t.take opened ++ CodePoint.scalar '{' :: t.drop (opened + 1) := by
    rw [← hbrace, ← List.drop_eq_getElem_cons hlt, List.take_append_drop]
  have hbraces : t.braces = braces (t.take opened) ++ [CodePoint.scalar '{'] := by
    rw [← hbody.braces_open, ← braces_append, ← htext]
  -- the last brace is an opening one, so that it has an even number
  rw [Alternating, hbraces, List.length_append, List.length_singleton, List.range_succ,
    List.map_append] at halternating
  have hlast := (List.append_inj halternating (by simp)).2
  have hturn : turn (braces (t.take opened)).length = CodePoint.scalar '{' :=
    (List.cons.inj hlast).1.symm
  rw [hbraces, List.length_append, List.length_singleton]
  unfold turn at hturn
  split at hturn
  · omega
  · cases hturn

/-! ### Out of turn -/

theorem firstBreak_append {front after : Text} {c : CodePoint} (hfront : Alternating front)
    (hc : ¬ Alternating (front ++ [c])) : FirstBreak (front ++ c :: after) front.length := by
  have htake : (front ++ c :: after).take (front.length + 1) = front ++ [c] := by
    rw [List.append_cons]
    exact List.take_left' (by simp)
  refine ⟨?_, ?_⟩
  · rwa [List.take_left]
  · rwa [htake]

theorem BlamesBreak.not_alternating {t : Text} {e : ParseError} (h : t.BlamesBreak e) :
    ¬ Alternating t := by
  have hfirst : t.FirstBreak e.position := by
    cases h with
    | nested hfirst => exact hfirst
    | unmatchedClose hfirst => exact hfirst
  exact fun halternating => hfirst.breaks (halternating.take _)

section
variable {before body : Text}

theorem alternating_open (hbefore : Flat before) (hbody : BraceFree body) :
    Alternating (before ++ CodePoint.scalar '{' :: body) := by
  rw [hbefore.alternating_append, Alternating, hbody.braces_open]
  rfl

theorem not_alternating_nested (hbefore : Flat before) (hbody : BraceFree body) :
    ¬ Alternating (before ++ CodePoint.scalar '{' :: body ++ [CodePoint.scalar '{']) := by
  rw [List.append_assoc, hbefore.alternating_append, Alternating, braces_append,
    hbody.braces_open]
  decide

theorem not_alternating_close (hbefore : Flat before) :
    ¬ Alternating (before ++ [CodePoint.scalar '}']) := by
  rw [hbefore.alternating_append]
  decide

theorem opened_append (hbody : BraceFree body) (after : Text) :
    Opened (before ++ CodePoint.scalar '{' :: body ++ after) before.length
      (before ++ CodePoint.scalar '{' :: body).length := by
  refine ⟨by simp, ?_, ?_⟩
  · rw [List.append_assoc, List.getElem?_append_right (Nat.le_refl _), Nat.sub_self]
    rfl
  · rwa [List.take_left, List.append_cons,
      show before.length + 1 = (before ++ [CodePoint.scalar '{']).length by simp, List.drop_left]

end

end Text

/-! ### Stray braces -/

namespace Token

open Text

/-- The brace at which the scanning of a text that begins at `p` ends. -/
inductive Strays (p : Nat) : Text → Stray → Prop
  /-- An opening brace behind a flat text, an opening brace and a body. -/
  | nested {before body after : Text} : Flat before → BraceFree body →
      Strays p (before ++ CodePoint.scalar '{' :: (body ++ CodePoint.scalar '{' :: after))
        (.nested (p + before.length) (p + before.length + 1 + body.length))
  /-- A closing brace behind a flat text. -/
  | unmatchedClose {before after : Text} : Flat before →
      Strays p (before ++ CodePoint.scalar '}' :: after) (.unmatchedClose (p + before.length))
  /-- An opening brace behind a flat text, and only a body behind the brace. -/
  | unclosed {before body : Text} : Flat before → BraceFree body →
      Strays p (before ++ CodePoint.scalar '{' :: body) (.unclosed (p + before.length))

/-- A flat text in front changes the offsets only. -/
theorem Strays.append {p : Nat} {u t : Text} {stray : Stray} (hu : Flat u)
    (h : Strays (p + u.length) t stray) : Strays p (u ++ t) stray := by
  cases h with
  | nested hbefore hbody =>
    rw [← List.append_assoc, Nat.add_assoc p, ← List.length_append]
    exact .nested (hu.append hbefore) hbody
  | unmatchedClose hbefore =>
    rw [← List.append_assoc, Nat.add_assoc p, ← List.length_append]
    exact .unmatchedClose (hu.append hbefore)
  | unclosed hbefore hbody =>
    rw [← List.append_assoc, Nat.add_assoc p, ← List.length_append]
    exact .unclosed (hu.append hbefore) hbody

mutual

/-- **A scan that ends early ends at a stray brace.** -/
theorem strays_of_outside (p : Nat) (t : Text) (stray : Stray) (h : outside p t = .error stray) :
    Strays p t stray := by
  match t with
  | [] => cases h
  | c :: rest =>
    by_cases ho : c = CodePoint.scalar '{'
    · subst ho
      rw [outside_open, map_eq_error] at h
      exact strays_of_inside p [] rest stray braceFree_nil h
    · by_cases hc : c = CodePoint.scalar '}'
      · rw [outside, if_neg ho, if_pos hc] at h
        obtain rfl := Except.error.inj h
        rw [hc]
        exact .unmatchedClose .nil
      · rw [outside_cons ho hc, map_eq_error] at h
        exact .append (.char ho hc .nil) (strays_of_outside (p + 1) rest stray h)

/-- The same within an expression of which the text `u` has been read. -/
theorem strays_of_inside (opened : Nat) (u t : Text) (stray : Stray) (hu : BraceFree u)
    (h : inside opened (opened + 1 + u.length) t = .error stray) :
    Strays opened (CodePoint.scalar '{' :: (u ++ t)) stray := by
  match t with
  | [] =>
    obtain rfl := Except.error.inj h
    rw [List.append_nil]
    exact .unclosed .nil hu
  | c :: rest =>
    by_cases ho : c = CodePoint.scalar '{'
    · rw [inside, if_pos ho] at h
      obtain rfl := Except.error.inj h
      rw [ho]
      exact .nested .nil hu
    · by_cases hc : c = CodePoint.scalar '}'
      · -- the expression is closed, and the text behind it is scanned from outside
        subst hc
        rw [inside_close, map_eq_error] at h
        have hbehind := strays_of_outside (opened + 1 + u.length + 1) rest stray h
        have htext : CodePoint.scalar '{' :: (u ++ CodePoint.scalar '}' :: rest)
            = Expression.braced u ++ rest := by simp [Expression.braced]
        have hgroup : Flat (Expression.braced u) := by
          rw [← List.append_nil (Expression.braced u)]
          exact .group hu .nil
        rw [htext]
        refine .append hgroup ?_
        rwa [Expression.length_braced,
          show opened + (u.length + 2) = opened + 1 + u.length + 1 by omega]
      · -- one more character of the body
        rw [inside_cons ho hc, map_eq_error] at h
        have hbody : BraceFree (u ++ [c]) :=
          braceFree_append.mpr ⟨hu, braceFree_cons.mpr ⟨ho, hc, braceFree_nil⟩⟩
        have hlength : opened + 1 + u.length + 1 = opened + 1 + (u ++ [c]).length := by
          rw [List.length_append, List.length_singleton, Nat.add_assoc _ u.length]
        rw [hlength] at h
        have hrest := strays_of_inside opened (u ++ [c]) rest stray hbody h
        rwa [List.append_assoc, List.singleton_append] at hrest

end

/-- The error about a stray brace is about the first brace out of turn, or none is
and it is about the one that is open at the end. -/
theorem Strays.blamed {source : Text} {stray : Stray} (h : Strays 0 source stray) :
    source.BlamesBreak (stray.error source) ∨
      source.Alternating ∧ source.BlamesUnclosed (stray.error source) := by
  cases h with
  | @nested before body after hbefore hbody =>
    left
    have htext : before ++ CodePoint.scalar '{' :: (body ++ CodePoint.scalar '{' :: after)
        = before ++ CodePoint.scalar '{' :: body ++ CodePoint.scalar '{' :: after := by simp
    have hplace : 0 + before.length + 1 + body.length
        = (before ++ CodePoint.scalar '{' :: body).length := by
      simp only [List.length_append, List.length_cons]
      omega
    rw [htext, hplace, Nat.zero_add]
    exact .nested (firstBreak_append (alternating_open hbefore hbody)
      (not_alternating_nested hbefore hbody)) (by simp [Stray.error, ParseError.position]) rfl
      (opened_append hbody _) rfl
  | @unmatchedClose before after hbefore =>
    left
    rw [Nat.zero_add]
    exact .unmatchedClose (firstBreak_append hbefore.alternating.1 (not_alternating_close hbefore))
      (by simp [Stray.error, ParseError.position]) rfl
  | @unclosed before body hbefore hbody =>
    right
    rw [Nat.zero_add]
    have hopened : Opened (before ++ CodePoint.scalar '{' :: body ++ []) before.length _ :=
      opened_append hbody []
    rw [List.append_nil] at hopened
    exact ⟨alternating_open hbefore hbody, rfl, hopened, rfl⟩

/-- A text with a stray brace is not flat. -/
theorem Strays.not_flat {source : Text} {stray : Stray} (h : Strays 0 source stray) :
    ¬ source.Flat := by
  intro hflat
  obtain ⟨halternating, heven⟩ := hflat.alternating
  rcases h.blamed with hbreak | ⟨-, hunclosed⟩
  · exact hbreak.not_alternating halternating
  · have hodd := hunclosed.opened.braces_length halternating
    omega

/-! ### Loose surrogates -/

namespace Laid

variable {p : Nat} {tokens : List Token} {t : Text}

theorem flat (h : Laid p tokens t) : Flat t := by
  induction h with
  | nil => exact .nil
  | literal _ htext _ _ ih => exact htext.flat.append ih
  | expression hbody _ ih => exact .group hbody ih

/-- Every character of the text stands in one of the tokens. -/
theorem exists_token (h : Laid p tokens t) {i : Nat} {c : CodePoint} (hc : t[i]? = some c) :
    ∃ token ∈ tokens, ∃ j, p + i = token.position + j ∧ token.toText[j]? = some c := by
  induction tokens generalizing p t i with
  | nil =>
    cases h
    cases hc
  | cons token tokens ih =>
    obtain ⟨hposition, rest, rfl, hrest⟩ := h.uncons
    by_cases hi : i < token.toText.length
    · rw [List.getElem?_append_left hi] at hc
      exact ⟨token, List.mem_cons_self, i, by rw [hposition], hc⟩
    · -- it stands behind the first token
      rw [List.getElem?_append_right (Nat.le_of_not_lt hi)] at hc
      obtain ⟨next, hnext, j, hj, hread⟩ := ih hrest hc
      exact ⟨next, List.mem_cons_of_mem _ hnext, j, by omega, hread⟩

/-- A token is read in the text character by character. -/
theorem getElem?_eq (h : Laid 0 tokens t) {token : Token} (htoken : token ∈ tokens) {j : Nat}
    {c : CodePoint} (hc : token.toText[j]? = some c) : t[token.position + j]? = some c := by
  obtain ⟨hj, -⟩ := List.getElem?_eq_some_iff.mp hc
  rw [← h.standsIn token htoken, List.getElem?_take_of_lt hj, List.getElem?_drop] at hc
  exact hc

/-- **The surrogates outside the groups are those of the literals.** -/
theorem looseSurrogate_iff (h : Laid 0 tokens t) {i : Nat} : t.LooseSurrogate i ↔
    ∃ text q j, .literal text q ∈ tokens ∧ i = q + j ∧
      ∃ c, text[j]? = some c ∧ c.isSurrogate = true := by
  constructor
  · rintro ⟨⟨c, hc, hsurrogate⟩, houtside⟩
    obtain ⟨token, htoken, j, hj, hread⟩ := h.exists_token hc
    rw [Nat.zero_add] at hj
    cases token with
    | literal text q => exact ⟨text, q, j, htoken, hj, c, hread, hsurrogate⟩
    | expression body q =>
      -- the token would be a group around it
      obtain ⟨hlt, -⟩ := List.getElem?_eq_some_iff.mp hread
      have hapart := houtside q body (h.mem_iff_bracePair.mp htoken)
      rw [toText] at hlt
      rw [position] at hj
      omega
  · rintro ⟨text, q, j, htoken, rfl, c, hc, hsurrogate⟩
    obtain ⟨hj, -⟩ := List.getElem?_eq_some_iff.mp hc
    refine ⟨⟨c, h.getElem?_eq htoken hc, hsurrogate⟩, fun q' body hpair => ?_⟩
    -- a group is another token, before or behind this one
    obtain ⟨before, after, rfl⟩ := List.append_of_mem htoken
    obtain ⟨-, hafter, hbefore⟩ := List.pairwise_append.mp h.pairwise_apart
    rcases List.mem_append.mp (h.mem_iff_bracePair.mpr hpair) with hgroup | hgroup
    · have hapart := hbefore _ hgroup _ List.mem_cons_self
      rw [position, position, toText] at hapart
      omega
    · rcases List.mem_cons.mp hgroup with heq | hgroup
      · cases heq
      · have hapart := (List.pairwise_cons.mp hafter).1 _ hgroup
        rw [position, position, toText] at hapart
        omega

/-- The error about a literal is about the first loose surrogate. -/
theorem blamesSurrogate (h : Laid 0 tokens t) {e : ParseError}
    (he : tokens.findSome? surrogateError? = some e) : t.BlamesSurrogate e := by
  obtain ⟨before, token, after, rfl, herror, hbefore⟩ := List.findSome?_eq_some_iff.mp he
  cases token with
  | expression body q => cases herror
  | literal text q =>
    obtain ⟨j, hj, rfl⟩ := Option.map_eq_some_iff.mp herror
    obtain ⟨hlt, hsurrogate, hfirst⟩ := List.findIdx?_eq_some_iff_getElem.mp hj
    have htoken : Token.literal text q ∈ before ++ .literal text q :: after :=
      List.mem_append_right before List.mem_cons_self
    refine ⟨rfl, h.looseSurrogate_iff.mpr
      ⟨text, q, j, htoken, rfl, text[j], List.getElem?_eq_getElem hlt, hsurrogate⟩, ?_⟩
    intro i hi hloose
    obtain ⟨text', q', j', htoken', rfl, c, hc, hc'⟩ := h.looseSurrogate_iff.mp hloose
    obtain ⟨hlt', rfl⟩ := List.getElem?_eq_some_iff.mp hc
    -- literals before this one have no surrogates, and those behind it stand too far on
    rcases List.mem_append.mp htoken' with hmem | hmem
    · have hencodable := surrogateError?_eq_none.mp (hbefore _ hmem)
      have hnot := hencodable text'[j'] (List.getElem_mem hlt')
      rw [hc'] at hnot
      cases hnot
    · rw [ParseError.position] at hi
      rcases List.mem_cons.mp hmem with heq | hmem
      · obtain ⟨rfl, rfl⟩ := Token.literal.inj heq
        exact hfirst j' (by omega) hc'
      · obtain ⟨-, hafter, -⟩ := List.pairwise_append.mp h.pairwise_apart
        have hapart := (List.pairwise_cons.mp hafter).1 _ hmem
        rw [position, position, toText] at hapart
        omega

end Laid

/-! ### What is accepted and who is blamed -/

/-- A scan ends at a stray brace, or its tokens lie in the text and one of them has
an error. -/
theorem scan_eq_error {source : Text} {e : ParseError} (h : scan source = .error e) :
    (∃ stray, Strays 0 source stray ∧ e = stray.error source) ∨
      ∃ tokens, Laid 0 tokens source ∧ tokens.findSome? surrogateError? = some e := by
  unfold scan at h
  split at h
  · next stray hout =>
    exact .inl ⟨stray, strays_of_outside 0 source stray hout, (Except.error.inj h).symm⟩
  · next text rest hout =>
    obtain ⟨rest', rfl, hfree, hnext, hlaid⟩ := laid_of_outside 0 source _ hout
    dsimp only at h
    split at h
    · next error hsome =>
      obtain rfl := Except.error.inj h
      exact .inr ⟨_, hlaid.withLiteral hfree hnext, hsome⟩
    · cases h

/-- **The scanner accepts exactly the flat texts and blames the right place.**  A
text is accepted if and only if it is flat and no surrogate lies outside its
groups.  If it is refused, then the first brace that is out of turn is to blame;
if there is none, the brace that is open at the end; and if there is none
either, the first surrogate outside the groups. -/
theorem scan_exact (source : Text) :
    ((∃ tokens, scan source = .ok tokens) ↔
      source.Flat ∧ ∀ p, ¬ source.LooseSurrogate p) ∧
    ∀ e, scan source = .error e →
      (¬ source.Alternating → source.BlamesBreak e) ∧
      (source.Alternating → (∃ opened, source.Opened opened source.length) →
        source.BlamesUnclosed e) ∧
      (source.Alternating → (¬ ∃ opened, source.Opened opened source.length) →
        source.BlamesSurrogate e) := by
  refine ⟨⟨?accepted, ?flat⟩, fun e he => ?refused⟩
  case accepted =>
    rintro ⟨tokens, hscan⟩
    obtain ⟨hlaid, hencodable⟩ := scan_eq_ok_iff.mp hscan
    refine ⟨hlaid.flat, fun p hloose => ?_⟩
    obtain ⟨text, q, j, htoken, -, c, hc, hsurrogate⟩ := hlaid.looseSurrogate_iff.mp hloose
    have hliteral : Text.Encodable text := hencodable _ htoken
    rw [hliteral c (List.mem_of_getElem? hc)] at hsurrogate
    cases hsurrogate
  case flat =>
    rintro ⟨hflat, hnone⟩
    rw [← error?_eq_none, Option.eq_none_iff_forall_ne_some]
    intro e he
    rcases scan_eq_error (error?_eq_some.mp he) with ⟨stray, hstrays, -⟩ | ⟨tokens, hlaid, hsome⟩
    · exact hstrays.not_flat hflat
    · exact hnone _ (hlaid.blamesSurrogate hsome).loose
  case refused =>
    rcases scan_eq_error he with ⟨stray, hstrays, rfl⟩ | ⟨tokens, hlaid, hsome⟩
    · rcases hstrays.blamed with hbreak | ⟨halternating, hunclosed⟩
      · have hnot := hbreak.not_alternating
        exact ⟨fun _ => hbreak, fun h => absurd h hnot, fun h => absurd h hnot⟩
      · exact ⟨fun h => absurd halternating h, fun _ _ => hunclosed,
          fun _ h => absurd ⟨_, hunclosed.opened⟩ h⟩
    · -- the braces pair up, so that only surrogates are left
      obtain ⟨halternating, heven⟩ := hlaid.flat.alternating
      refine ⟨fun h => absurd halternating h, ?_, fun _ _ => hlaid.blamesSurrogate hsome⟩
      rintro - ⟨opened, hopened⟩
      have hodd := hopened.braces_length halternating
      omega

/-- A brace in the second of two expressions, a second expression without end, and
surrogates within a group and behind it. -/
theorem scan_exact_refused :
    let nested := lit "a\x7bb\x7d\x7bc\x7bd\x7d\x7d"
    let unclosed := lit "\x7bx\x7dy\x7bz"
    let group : Text := Expression.braced [.surrogate 0]
    let loose : Text := group ++ [CodePoint.scalar 'a', .surrogate 1]
    (¬ nested.Alternating ∧ ∃ e, scan nested = .error e ∧ nested.BlamesBreak e ∧
      e.position = 6 ∧ e.excerpt = lit "\x7bc\x7b") ∧
    (unclosed.Alternating ∧ (∃ opened, unclosed.Opened opened unclosed.length) ∧
      ∃ e, scan unclosed = .error e ∧ unclosed.BlamesUnclosed e ∧
        e.position = 4 ∧ e.excerpt = lit "\x7bz") ∧
    (loose.Alternating ∧ (¬ ∃ opened, loose.Opened opened loose.length) ∧
      ∃ e, scan loose = .error e ∧ loose.BlamesSurrogate e ∧ e.position = 4) ∧
    group.Flat ∧ ∀ p, ¬ group.LooseSurrogate p := by
  intro nested unclosed group loose
  have hnested : scan nested = .error (.malformed .nested (lit "\x7bc\x7b") 6) :=
    error?_eq_some.mp (by decide +kernel)
  have hunclosed : scan unclosed = .error (.malformed .unclosed (lit "\x7bz") 4) :=
    error?_eq_some.mp (by decide +kernel)
  have hloose : scan loose = .error (.malformed .surrogate (lit "a\\ud801") 4) :=
    error?_eq_some.mp (by decide +kernel)
  have hgroup : scan group = .ok [.expression [.surrogate 0] 0] :=
    eq_ok_of_toOption (by decide +kernel)
  have hbreak : ¬ nested.Alternating := by decide +kernel
  have hturns : unclosed.Alternating := by decide +kernel
  have hturns' : loose.Alternating := by decide +kernel
  have hopened : ∃ opened, unclosed.Opened opened unclosed.length :=
    ⟨4, by decide +kernel, rfl, by decide +kernel, by decide +kernel⟩
  have hclosed : ¬ ∃ opened, loose.Opened opened loose.length := by
    rintro ⟨opened, h⟩
    exact absurd (h.braces_length hturns') (by decide +kernel)
  exact ⟨⟨hbreak, _, hnested, ((scan_exact nested).2 _ hnested).1 hbreak, rfl, rfl⟩,
    ⟨hturns, hopened, _, hunclosed,
      ((scan_exact unclosed).2 _ hunclosed).2.1 hturns hopened, rfl, rfl⟩,
    ⟨hturns', hclosed, _, hloose, ((scan_exact loose).2 _ hloose).2.2 hturns' hclosed, rfl⟩,
    (scan_exact group).1.mp ⟨_, hgroup⟩⟩

end Token

end UriExpansion
