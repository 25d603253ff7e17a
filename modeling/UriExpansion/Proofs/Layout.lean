/-
UriExpansion/Proofs/Layout.lean

Tokens as they lie in the text.

`Token.Laid p tokens text` says that the tokens, written one behind the other,
make up the text, that each of them carries the offset at which it stands
(the text begins at `p`), and that they could not be cut in another way: a
literal is not empty, no literal follows another, and braces stand only around
bodies.  It has one constructor for each kind of token, whereas the scanner
goes through the text character by character.

* `laid_of_outside`, `outside_of_laid`: the scanner finds such tokens and
  finds them whenever there are some.
* `scan_eq_ok_iff`: a text is scanned exactly as the tokens that are laid in it,
  if their literals can be encoded.
* `reading_lossless`: so nothing is lost, neither by scanning nor by reading,
  and every position is a true offset.
-/
import Mathlib.Data.List.Chain
import UriExpansion.Proofs.Grammar
import UriExpansion.Template

namespace UriExpansion

open Percent

/-- No brace occurs in the text. -/
def Text.BraceFree (t : Text) : Prop :=
  CodePoint.scalar '{' ∉ t ∧ CodePoint.scalar '}' ∉ t

namespace Text

theorem braceFree_nil : BraceFree [] := ⟨List.not_mem_nil, List.not_mem_nil⟩

theorem braceFree_cons {c : CodePoint} {t : Text} : BraceFree (c :: t) ↔
    c ≠ CodePoint.scalar '{' ∧ c ≠ CodePoint.scalar '}' ∧ BraceFree t := by
  simp only [BraceFree, List.mem_cons, not_or, ne_eq]
  constructor
  · rintro ⟨⟨ho, hot⟩, hc, hct⟩
    exact ⟨fun h => ho h.symm, fun h => hc h.symm, hot, hct⟩
  · rintro ⟨ho, hc, hot, hct⟩
    exact ⟨⟨fun h => ho h.symm, hot⟩, fun h => hc h.symm, hct⟩

theorem braceFree_append {t u : Text} : BraceFree (t ++ u) ↔ BraceFree t ∧ BraceFree u := by
  simp only [BraceFree, List.mem_append, not_or]
  constructor
  · rintro ⟨⟨a, b⟩, c, d⟩
    exact ⟨⟨a, c⟩, b, d⟩
  · rintro ⟨⟨a, c⟩, b, d⟩
    exact ⟨⟨a, b⟩, c, d⟩

theorem encodable_append {t u : Text} : Encodable (t ++ u) ↔ Encodable t ∧ Encodable u := by
  constructor
  · exact fun h => ⟨fun c hc => h c (List.mem_append_left u hc),
      fun c hc => h c (List.mem_append_right t hc)⟩
  · rintro ⟨ht, hu⟩ c hc
    exact (List.mem_append.mp hc).elim (ht c) (hu c)

/-- A text can be encoded exactly if the search for a surrogate finds none. -/
theorem encodable_iff {t : Text} : Encodable t ↔ t.firstSurrogate? = none := by
  rw [firstSurrogate?, List.findIdx?_eq_none_iff]
  exact Iff.rfl

end Text

@[simp] theorem Expression.length_braced (body : Text) :
    (Expression.braced body).length = body.length + 2 := by
  simp [Expression.braced]

namespace Token

/-! ### The scanner at work -/

theorem outside_cons {c : CodePoint} (ho : c ≠ CodePoint.scalar '{')
    (hc : c ≠ CodePoint.scalar '}') (p : Nat) (rest : Text) :
    outside p (c :: rest) = (outside (p + 1) rest).map fun r => (c :: r.1, r.2) := by
  rw [outside, if_neg ho, if_neg hc]
  rcases outside (p + 1) rest with e | ⟨text, tokens⟩ <;> rfl

theorem inside_cons {c : CodePoint} (ho : c ≠ CodePoint.scalar '{')
    (hc : c ≠ CodePoint.scalar '}') (opened p : Nat) (rest : Text) :
    inside opened p (c :: rest) = (inside opened (p + 1) rest).map fun r => (c :: r.1, r.2) := by
  rw [inside, if_neg ho, if_neg hc]
  rcases inside opened (p + 1) rest with e | ⟨text, tokens⟩ <;> rfl

theorem outside_open (p : Nat) (rest : Text) : outside p (CodePoint.scalar '{' :: rest)
    = (inside p (p + 1) rest).map fun r => ([], expression r.1 p :: r.2) := by
  rw [outside, if_pos rfl]
  rcases inside p (p + 1) rest with e | ⟨body, tokens⟩ <;> rfl

theorem inside_close (opened p : Nat) (rest : Text) :
    inside opened p (CodePoint.scalar '}' :: rest)
      = (outside (p + 1) rest).map fun r => ([], withLiteral (p + 1) r.1 r.2) := by
  rw [inside, if_neg (by decide), if_pos rfl]
  rcases outside (p + 1) rest with e | ⟨text, tokens⟩ <;> rfl

/-- A run of literal text is passed over. -/
theorem outside_append {t : Text} (h : Text.BraceFree t) (p : Nat) (rest : Text) :
    outside p (t ++ rest) = (outside (p + t.length) rest).map fun r => (t ++ r.1, r.2) := by
  induction t generalizing p with
  | nil =>
    rw [List.nil_append, List.length_nil, Nat.add_zero]
    rcases outside p rest with e | r <;> rfl
  | cons c t ih =>
    obtain ⟨ho, hc, ht⟩ := Text.braceFree_cons.mp h
    rw [List.cons_append, outside_cons ho hc, ih ht, List.length_cons,
      show p + 1 + t.length = p + (t.length + 1) by omega]
    rcases outside (p + (t.length + 1)) rest with e | r <;> rfl

/-- A body is read up to its closing brace. -/
theorem inside_append {t : Text} (h : Text.BraceFree t) (opened p : Nat) (rest : Text) :
    inside opened p (t ++ CodePoint.scalar '}' :: rest)
      = (outside (p + t.length + 1) rest).map fun r =>
        (t, withLiteral (p + t.length + 1) r.1 r.2) := by
  induction t generalizing p with
  | nil =>
    rw [List.nil_append, inside, if_neg (by decide), if_pos rfl, List.length_nil, Nat.add_zero]
    rcases outside (p + 1) rest with e | ⟨text, tokens⟩ <;> rfl
  | cons c t ih =>
    obtain ⟨ho, hc, ht⟩ := Text.braceFree_cons.mp h
    rw [List.cons_append, inside_cons ho hc, ih ht, List.length_cons,
      show p + 1 + t.length + 1 = p + (t.length + 1) + 1 by omega]
    rcases outside (p + (t.length + 1) + 1) rest with e | r <;> rfl

/-- A body between braces is passed over and becomes a token. -/
theorem outside_braced {body : Text} (h : Text.BraceFree body) (p : Nat) (rest : Text) :
    outside p (Expression.braced body ++ rest)
      = (outside (p + (Expression.braced body).length) rest).map fun r =>
        ([], expression body p :: withLiteral (p + (Expression.braced body).length) r.1 r.2) := by
  have htext : Expression.braced body ++ rest
      = CodePoint.scalar '{' :: (body ++ CodePoint.scalar '}' :: rest) := by
    simp [Expression.braced]
  rw [htext, outside, if_pos rfl, inside_append h, Expression.length_braced,
    show p + 1 + body.length + 1 = p + (body.length + 2) by omega]
  rcases outside (p + (body.length + 2)) rest with e | r <;> rfl

/-! ### Tokens that make up a text -/

/-- Whether a token is literal text. -/
def isLiteral : Token → Bool
  | literal .. => true
  | expression .. => false

theorem isLiteral_head_expression (body : Text) (p : Nat) (tokens : List Token) :
    ∀ next ∈ (expression body p :: tokens).head?, isLiteral next = false := by
  intro next hmem
  obtain rfl := Option.mem_some_iff.mp hmem
  rfl

/-- Tokens written one behind the other. -/
def allText (tokens : List Token) : Text := tokens.flatMap toText

@[simp] theorem allText_nil : allText [] = [] := rfl

@[simp] theorem allText_cons (token : Token) (tokens : List Token) :
    allText (token :: tokens) = token.toText ++ allText tokens := rfl

@[simp] theorem allText_append (tokens more : List Token) :
    allText (tokens ++ more) = allText tokens ++ allText more := List.flatMap_append

/-- The tokens make up the text, which begins at the offset `p`, and carry
their offsets. -/
inductive Laid : Nat → List Token → Text → Prop
  | nil {p} : Laid p [] []
  /-- Literal text that no other literal text follows. -/
  | literal {p text tokens rest} : text ≠ [] → Text.BraceFree text →
      (∀ next ∈ tokens.head?, isLiteral next = false) → Laid (p + text.length) tokens rest →
      Laid p (.literal text p :: tokens) (text ++ rest)
  | expression {p body tokens rest} : Text.BraceFree body →
      Laid (p + (Expression.braced body).length) tokens rest →
      Laid p (.expression body p :: tokens) (Expression.braced body ++ rest)

/-- Literal text in front of other tokens, be it empty or not. -/
theorem Laid.withLiteral {p : Nat} {text rest : Text} {tokens : List Token}
    (htext : Text.BraceFree text) (hnext : ∀ next ∈ tokens.head?, isLiteral next = false)
    (h : Laid (p + text.length) tokens rest) :
    Laid p (withLiteral p text tokens) (text ++ rest) := by
  rcases text with - | ⟨c, t⟩
  · exact h
  · exact .literal (List.cons_ne_nil c t) htext hnext h

mutual

/-- What is scanned outside expressions: literal text up to the first brace,
and tokens that make up the text from there on. -/
theorem laid_of_outside (p : Nat) (t : Text) (r : Text × List Token) (h : outside p t = .ok r) :
    ∃ rest, t = r.1 ++ rest ∧ Text.BraceFree r.1 ∧
      (∀ next ∈ r.2.head?, isLiteral next = false) ∧ Laid (p + r.1.length) r.2 rest := by
  match t with
  | [] =>
    obtain rfl := Except.ok.inj h
    exact ⟨[], rfl, Text.braceFree_nil, (fun _ h => nomatch h), .nil⟩
  | c :: rest =>
    by_cases ho : c = CodePoint.scalar '{'
    · -- the literal text ends here, and the token of the body comes next
      rw [outside, if_pos ho] at h
      obtain ⟨⟨body, tokens⟩, hi, h⟩ := bind_eq_ok.mp h
      obtain rfl := Except.ok.inj h
      obtain ⟨rest', rfl, hbody, hlaid⟩ := laid_of_inside p (p + 1) rest _ hi
      refine ⟨c :: (body ++ CodePoint.scalar '}' :: rest'), rfl, Text.braceFree_nil,
        isLiteral_head_expression body p tokens, ?_⟩
      have htext : c :: (body ++ CodePoint.scalar '}' :: rest')
          = Expression.braced body ++ rest' := by simp [Expression.braced, ho]
      rw [htext]
      refine .expression hbody ?_
      rwa [Expression.length_braced, List.length_nil,
        show p + 0 + (body.length + 2) = p + 1 + body.length + 1 by omega]
    · by_cases hc : c = CodePoint.scalar '}'
      · rw [outside, if_neg ho, if_pos hc] at h
        cases h
      · -- one more character of the literal text
        rw [outside_cons ho hc] at h
        obtain ⟨r', hr, rfl⟩ := map_eq_ok.mp h
        obtain ⟨rest', rfl, hfree, hnext, hlaid⟩ := laid_of_outside (p + 1) rest _ hr
        refine ⟨rest', rfl, Text.braceFree_cons.mpr ⟨ho, hc, hfree⟩, hnext, ?_⟩
        rwa [List.length_cons, show p + (r'.1.length + 1) = p + 1 + r'.1.length by omega]

/-- What is scanned inside an expression: the rest of its body, and tokens
that make up the text behind its closing brace. -/
theorem laid_of_inside (opened p : Nat) (t : Text) (r : Text × List Token)
    (h : inside opened p t = .ok r) :
    ∃ rest, t = r.1 ++ CodePoint.scalar '}' :: rest ∧ Text.BraceFree r.1 ∧
      Laid (p + r.1.length + 1) r.2 rest := by
  match t with
  | [] => cases h
  | c :: rest =>
    by_cases ho : c = CodePoint.scalar '{'
    · rw [inside, if_pos ho] at h
      cases h
    · by_cases hc : c = CodePoint.scalar '}'
      · -- the body ends here; the text behind it is scanned from outside
        rw [inside, if_neg ho, if_pos hc] at h
        obtain ⟨⟨text, tokens⟩, hr, h⟩ := bind_eq_ok.mp h
        obtain rfl := Except.ok.inj h
        obtain ⟨rest', rfl, hfree, hnext, hlaid⟩ := laid_of_outside (p + 1) rest _ hr
        exact ⟨text ++ rest', by rw [hc]; rfl, Text.braceFree_nil, hlaid.withLiteral hfree hnext⟩
      · rw [inside_cons ho hc] at h
        obtain ⟨r', hr, rfl⟩ := map_eq_ok.mp h
        obtain ⟨rest', rfl, hfree, hlaid⟩ := laid_of_inside opened (p + 1) rest _ hr
        refine ⟨rest', rfl, Text.braceFree_cons.mpr ⟨ho, hc, hfree⟩, ?_⟩
        rwa [List.length_cons, show p + (r'.1.length + 1) + 1 = p + 1 + r'.1.length + 1 by omega]

end

/-- Tokens that are not literal at their beginning stand as they are behind
literal text. -/
theorem eq_of_withLiteral {p : Nat} {text : Text} {rest tokens : List Token}
    (h : withLiteral p text rest = tokens)
    (hnext : ∀ next ∈ tokens.head?, isLiteral next = false) : text = [] ∧ rest = tokens := by
  rcases text with - | ⟨c, t⟩
  · exact ⟨rfl, h⟩
  · -- otherwise the text would be a literal at the beginning
    subst h
    cases hnext (literal (c :: t) p) rfl

/-- **Tokens that make up a text are found in it.** -/
theorem outside_of_laid {p : Nat} {tokens : List Token} {t : Text} (h : Laid p tokens t) :
    ∃ r, outside p t = .ok r ∧ withLiteral p r.1 r.2 = tokens := by
  induction h with
  | nil => exact ⟨([], []), rfl, rfl⟩
  | @literal p text tokens rest hne htext hnext _ ih =>
    obtain ⟨r, hr, hrest⟩ := ih
    -- no literal follows, so that the scanner has found a brace behind the text
    obtain ⟨hnil, htokens⟩ := eq_of_withLiteral hrest hnext
    refine ⟨(text ++ r.1, r.2), by rw [outside_append htext, hr]; rfl, ?_⟩
    rw [hnil, htokens, List.append_nil, withLiteral, if_neg (by simpa using hne)]
  | @expression p body tokens rest hbody _ ih =>
    obtain ⟨r, hr, hrest⟩ := ih
    refine ⟨([], .expression body p :: tokens), ?_, rfl⟩
    rw [outside_braced hbody, hr, ← hrest]
    rfl

/-! ### What is scanned -/

/-- What holds of the text of a literal, and of a body. -/
def All (literal body : Text → Prop) : Token → Prop
  | .literal text _ => literal text
  | .expression text _ => body text

/-- If the token is a literal, its text can be encoded. -/
def Encodable : Token → Prop := All Text.Encodable fun _ => True

theorem surrogateError?_eq_none {token : Token} :
    surrogateError? token = none ↔ token.Encodable := by
  cases token with
  | literal text p =>
    rw [surrogateError?, Option.map_eq_none_iff, ← Text.encodable_iff]
    exact Iff.rfl
  | expression body p => exact ⟨fun _ => trivial, fun _ => rfl⟩

/-- **A text is scanned exactly as the tokens that make it up**, if their
literals can be encoded. -/
theorem scan_eq_ok_iff {source : Text} {tokens : List Token} :
    scan source = .ok tokens ↔ Laid 0 tokens source ∧ ∀ token ∈ tokens, token.Encodable := by
  have hnone : tokens.findSome? surrogateError? = none ↔ ∀ token ∈ tokens, token.Encodable := by
    simp only [List.findSome?_eq_none_iff, surrogateError?_eq_none]
  rw [← hnone]
  constructor
  · intro h
    unfold scan at h
    split at h
    · cases h
    · next text rest hout =>
      obtain ⟨rest', rfl, hfree, hnext, hlaid⟩ := laid_of_outside 0 source _ hout
      dsimp only at h
      split at h
      · cases h
      · next hsurrogate =>
        obtain rfl := Except.ok.inj h
        exact ⟨hlaid.withLiteral hfree hnext, hsurrogate⟩
  · rintro ⟨hlaid, hsurrogate⟩
    obtain ⟨r, hr, rfl⟩ := outside_of_laid hlaid
    unfold scan
    rw [hr]
    dsimp only
    rw [hsurrogate]

namespace Laid

variable {p : Nat} {tokens : List Token} {token : Token} {t : Text}

/-- The first of the tokens stands at the beginning, the others behind it. -/
theorem uncons (h : Laid p (token :: tokens) t) : token.position = p ∧
    ∃ rest, t = token.toText ++ rest ∧ Laid (p + token.toText.length) tokens rest := by
  cases h with
  | literal _ _ _ h => exact ⟨rfl, _, rfl, h⟩
  | expression _ h => exact ⟨rfl, _, rfl, h⟩

/-- The text is the tokens, one behind the other. -/
theorem allText_eq (h : Laid p tokens t) : allText tokens = t := by
  induction h with
  | nil => rfl
  | literal _ _ _ _ ih => rw [allText_cons, ih]; rfl
  | expression _ _ ih => rw [allText_cons, ih]; rfl

/-- A token carries the length of what stands before it. -/
theorem position_eq {before after : List Token} (h : Laid p (before ++ token :: after) t) :
    token.position = p + (allText before).length := by
  induction before generalizing p t with
  | nil => exact h.uncons.1
  | cons first before ih =>
    obtain ⟨-, rest, -, hrest⟩ := h.uncons
    rw [ih hrest, allText_cons, List.length_append, Nat.add_assoc]

/-- A token is read in the text at its position. -/
theorem standsIn (h : Laid 0 tokens t) :
    ∀ token ∈ tokens, (t.drop token.position).take token.toText.length = token.toText := by
  intro token htoken
  obtain ⟨before, after, rfl⟩ := List.append_of_mem htoken
  have htext : allText before ++ (token.toText ++ allText after) = t := by
    rw [← h.allText_eq, allText_append, allText_cons]
  -- dropping what stands before the token leaves the token in front
  rw [h.position_eq, Nat.zero_add, ← htext, List.drop_left, List.take_left]

/-- Literals are not empty, and braces stand only around bodies. -/
theorem forall_mem (h : Laid p tokens t) : ∀ token ∈ tokens,
    token.All (fun text => text ≠ [] ∧ Text.BraceFree text) Text.BraceFree := by
  induction h with
  | nil => exact fun _ h => absurd h List.not_mem_nil
  | literal hne htext _ _ ih => exact List.forall_mem_cons.mpr ⟨⟨hne, htext⟩, ih⟩
  | expression hbody _ ih => exact List.forall_mem_cons.mpr ⟨hbody, ih⟩

/-- No literal follows another. -/
theorem isChain (h : Laid p tokens t) :
    tokens.IsChain fun a b => ¬ (a.isLiteral = true ∧ b.isLiteral = true) := by
  induction h with
  | nil => exact .nil
  | literal _ _ hnext _ ih =>
    refine ih.cons fun next hmem hboth => ?_
    rw [hnext next hmem] at hboth
    exact absurd hboth.2 Bool.false_ne_true
  | expression _ _ ih => exact ih.cons fun next _ hboth => absurd hboth.1 Bool.false_ne_true

end Laid

/-- What a token that is scanned guarantees. -/
def Sound : Token → Prop :=
  All (fun text => Text.BraceFree text ∧ Text.Encodable text) Text.BraceFree

theorem scan_sound {source : Text} {tokens : List Token} (h : scan source = .ok tokens) :
    ∀ token ∈ tokens, token.Sound := by
  obtain ⟨hlaid, hencodable⟩ := scan_eq_ok_iff.mp h
  intro token htoken
  have hfree := hlaid.forall_mem token htoken
  cases token with
  | literal text p => exact ⟨hfree.2, hencodable _ htoken⟩
  | expression body p => exact hfree

end Token

/-! ### Components -/

namespace Component

/-- What a component of a template that is read guarantees. -/
def Sound : Component → Prop
  | literal text _ => Text.BraceFree text ∧ Text.Encodable text
  | expression e => Text.BraceFree e.body ∧
      Expression.readBody e.body = .ok (e.operator, e.varspecs)

/-- A body's token is the expression that is read from it. -/
theorem ofToken_body {text : Text} {op : Operator} {specs : List VarSpec}
    (h : Expression.readBody text = .ok (op, specs)) (p : Nat) :
    ofToken (.expression text p) = .ok (.expression ⟨text, op, specs, p⟩) := by
  rw [ofToken, Expression.read, h]
  rfl

/-- A component of a token is sound. -/
theorem sound_of_ofToken {token : Token} {c : Component} (ht : token.Sound)
    (h : ofToken token = .ok c) : c.Sound := by
  cases token with
  | literal text p =>
    obtain rfl := Except.ok.inj h
    exact ht
  | expression body p =>
    obtain ⟨e, hr, rfl⟩ := map_eq_ok.mp h
    obtain ⟨rfl, -, hbody⟩ := Expression.read_eq_ok hr
    exact ⟨ht, hbody⟩

/-- The token that a component was. -/
def token : Component → Token
  | literal text position => .literal text position
  | expression e => .expression e.body e.position

@[simp] theorem toText_token (c : Component) : c.token.toText = c.toText := by
  cases c <;> rfl

@[simp] theorem position_token (c : Component) : c.token.position = c.position := by
  cases c <;> rfl

theorem token_of_ofToken {token : Token} {c : Component} (h : ofToken token = .ok c) :
    c.token = token := by
  cases token with
  | literal text p =>
    obtain rfl := Except.ok.inj h
    rfl
  | expression body p =>
    obtain ⟨e, hr, rfl⟩ := map_eq_ok.mp h
    obtain ⟨rfl, rfl, -⟩ := Expression.read_eq_ok hr
    rfl

theorem allText_map_token (cs : List Component) :
    Token.allText (cs.map token) = cs.flatMap toText := by
  induction cs with
  | nil => rfl
  | cons c cs ih => rw [List.map_cons, Token.allText_cons, ih, toText_token, List.flatMap_cons]

end Component

namespace Template

/-- A text is a template if it is scanned and none of its tokens is at fault. -/
theorem parse_eq_ok_iff {source : Text} {t : Template} : parse source = .ok t ↔
    ∃ tokens, Token.scan source = .ok tokens ∧ errorsOf tokens = [] ∧
      t = ⟨source, componentsOf tokens⟩ := by
  unfold parse
  constructor
  · intro h
    split at h
    · cases h
    · next tokens hscan =>
      split at h
      · next hnone => exact ⟨tokens, hscan, hnone, (Except.ok.inj h).symm⟩
      · cases h
  · rintro ⟨tokens, hscan, hnone, rfl⟩
    rw [hscan]
    dsimp only
    rw [hnone]

/-- If none of the tokens is at fault, the components are all of them. -/
theorem map_token_componentsOf {tokens : List Token} (h : errorsOf tokens = []) :
    (componentsOf tokens).map Component.token = tokens := by
  induction tokens with
  | nil => rfl
  | cons token tokens ih =>
    rw [errorsOf, List.filterMap_cons] at h
    rcases hof : Component.ofToken token with e | c
    · -- an error of the token would be one of the list
      rw [hof] at h
      cases h
    · rw [hof] at h
      have hcomponents : componentsOf (token :: tokens) = c :: componentsOf tokens := by
        rw [componentsOf, List.filterMap_cons, hof]
        rfl
      rw [hcomponents, List.map_cons, Component.token_of_ofToken hof, ih h]

/-- The components of a template lie in its source like tokens. -/
theorem parse_laid {source : Text} {t : Template} (h : parse source = .ok t) :
    t.source = source ∧ Token.Laid 0 (t.components.map Component.token) source := by
  obtain ⟨tokens, hscan, hnone, rfl⟩ := parse_eq_ok_iff.mp h
  refine ⟨rfl, ?_⟩
  rw [map_token_componentsOf hnone]
  exact (Token.scan_eq_ok_iff.mp hscan).1

/-- **The components of a template that is read are sound.** -/
theorem parse_sound {source : Text} {t : Template} (h : parse source = .ok t) :
    ∀ c ∈ t.components, c.Sound := by
  obtain ⟨tokens, hscan, -, rfl⟩ := parse_eq_ok_iff.mp h
  intro c hc
  obtain ⟨token, htoken, hof⟩ := List.mem_filterMap.mp hc
  exact Component.sound_of_ofToken (Token.scan_sound hscan token htoken) (eq_ok_of_toOption hof)

/-- A component is read in the source at its position. -/
theorem parse_standsIn {source : Text} {t : Template} (h : parse source = .ok t) :
    ∀ c ∈ t.components, (t.source.drop c.position).take c.toText.length = c.toText := by
  obtain ⟨hsource, hlaid⟩ := parse_laid h
  intro c hc
  rw [hsource, ← Component.toText_token, ← Component.position_token]
  exact hlaid.standsIn c.token (List.mem_map_of_mem hc)

/-- **Reading loses nothing.**  The tokens of a text, written one behind the
other, are the text, each at its offset; literals are not empty, do not meet
and hold no brace, and neither do bodies.  So the components of a template,
written one behind the other, are its source, each at its offset. -/
theorem reading_lossless (source : Text) :
    (∀ tokens, Token.scan source = .ok tokens →
      Token.allText tokens = source ∧
      (∀ before token after, tokens = before ++ token :: after →
        token.position = (Token.allText before).length ∧
        (source.drop token.position).take token.toText.length = token.toText) ∧
      (∀ text p, .literal text p ∈ tokens → text ≠ [] ∧ Text.BraceFree text) ∧
      (tokens.IsChain fun a b => ¬ (a.isLiteral = true ∧ b.isLiteral = true)) ∧
      (∀ body p, .expression body p ∈ tokens → Text.BraceFree body)) ∧
    ∀ t, parse source = .ok t →
      t.source = source ∧ t.components.flatMap Component.toText = t.source ∧
      ∀ before c after, t.components = before ++ c :: after →
        c.position = (before.flatMap Component.toText).length ∧
        (t.source.drop c.position).take c.toText.length = c.toText := by
  constructor
  · intro tokens hscan
    obtain ⟨hlaid, -⟩ := Token.scan_eq_ok_iff.mp hscan
    refine ⟨hlaid.allText_eq, ?_, ?_, hlaid.isChain, ?_⟩
    · rintro before token after rfl
      have hposition := hlaid.position_eq
      rw [Nat.zero_add] at hposition
      exact ⟨hposition, hlaid.standsIn token (List.mem_append_right before List.mem_cons_self)⟩
    · exact fun text p htoken => hlaid.forall_mem _ htoken
    · exact fun body p htoken => hlaid.forall_mem _ htoken
  · intro t ht
    obtain ⟨hsource, hlaid⟩ := parse_laid ht
    refine ⟨hsource, ?_, ?_⟩
    · rw [← Component.allText_map_token, hlaid.allText_eq, hsource]
    · intro before c after hcomponents
      refine ⟨?_, parse_standsIn ht c ?_⟩
      · rw [hcomponents, List.map_append, List.map_cons] at hlaid
        have hposition := hlaid.position_eq
        rwa [Nat.zero_add, Component.position_token, Component.allText_map_token] at hposition
      · rw [hcomponents]
        exact List.mem_append_right before List.mem_cons_self

/-- Two expressions side by side between literals. -/
theorem reading_lossless_mixed :
    let source := lit "a%\x7b+x\x7d\x7by:3,z*\x7db"
    let front : List Token := [.literal (lit "a%") 0, .expression (lit "+x") 2]
    let back : List Token := [.literal (lit "b") 14]
    ∃ t, Token.scan source = .ok (front ++ .expression (lit "y:3,z*") 6 :: back) ∧
      parse source = .ok t ∧
      Token.allText (front ++ .expression (lit "y:3,z*") 6 :: back) = source ∧
      6 = (Token.allText front).length ∧ (source.drop 6).take 8 = lit "\x7by:3,z*\x7d" ∧
      Text.BraceFree (lit "a%") ∧ Text.BraceFree (lit "y:3,z*") ∧
      t.components.flatMap Component.toText = t.source := by
  intro source front back
  let e : Expression := ⟨lit "+x", .reserved, [⟨lit "x", .none⟩], 2⟩
  let e' : Expression :=
    ⟨lit "y:3,z*", .simple, [⟨lit "y", .upTo 3⟩, ⟨lit "z", .explode⟩], 6⟩
  let t : Template := ⟨source,
    [.literal (lit "a%") 0, .expression e, .expression e', .literal (lit "b") 14]⟩
  have hscan : Token.scan source = .ok (front ++ .expression (lit "y:3,z*") 6 :: back) :=
    eq_ok_of_toOption (by decide +kernel)
  have hparse : parse source = .ok t := eq_ok_of_toOption (by decide +kernel)
  obtain ⟨htokens, hcomponents⟩ := reading_lossless source
  obtain ⟨hwhole, hplace, hliterals, -, hbodies⟩ := htokens _ hscan
  obtain ⟨hposition, hreads⟩ := hplace front _ back rfl
  obtain ⟨-, hfree⟩ := hliterals (lit "a%") 0 List.mem_cons_self
  have hbody := hbodies (lit "y:3,z*") 6 (by decide +kernel)
  obtain ⟨-, hsource, -⟩ := hcomponents t hparse
  exact ⟨t, hscan, hparse, hwhole, hposition, hreads, hfree, hbody, hsource⟩

end Template

end UriExpansion
