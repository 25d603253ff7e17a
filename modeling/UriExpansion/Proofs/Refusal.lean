/-
UriExpansion/Proofs/Refusal.lean

Which variable the body of an expression is refused for.

Variables are read from left to right, and the first that cannot be read
decides.  `VarSpec.readAll_append` says what that means for a list: its
beginning is read, and then the rest of it by somebody who has seen the names of
the beginning.  So a list that is refused has a beginning that is read and
behind it a variable that is not (`VarSpec.exists_of_readAll_eq_error`), and
nothing that follows has any influence.

A body is an operator and a list (`Expression.Opens`).  An operator with nothing
behind it has a fault of its own, but not a code of its own: going by codes, a
body is refused as its list is (`Expression.Opens.map_code`).  What a code says
is true of the variable that is refused with it (`VarSpec.guilty_of_read`), and
together these give `Expression.refused_at_leftmost`.
-/
import UriExpansion.Proofs.Derivation

namespace UriExpansion

open Percent

namespace VarSpec

/-! ### One variable -/

/-- The name in the text of a variable: what stands before the star at the end
or, without one, before the first colon. -/
def nameOf (t : Text) : Text :=
  if t.getLast? = some (CodePoint.scalar '*') then t.dropLast
  else (Text.cutAt (CodePoint.scalar ':') t).1

/-- What a code says of the variable that is refused with it, the variables
`earlier` standing before it in the list. -/
inductive Guilty (earlier : List Text) : Text → Text → Prop
  /-- There is no text. -/
  | empty : Guilty earlier [] (lit "E_EMPTY_VARSPEC")
  /-- A star stands at the end and a colon before it. -/
  | bothModifiers {front} : CodePoint.scalar ':' ∈ front →
      Guilty earlier (front ++ lit "*") (lit "E_PREFIX_AND_EXPLODE")
  /-- Behind the first colon stand the decimal digits of no number in range. -/
  | badLength {front length} : CodePoint.scalar ':' ∉ front →
      (∀ n, 1 ≤ n → n ≤ 10000 → length ≠ Text.ofNat n) →
      Guilty earlier (front ++ lit ":" ++ length) (lit "E_INVALID_PREFIX")
  /-- A percent sign of the name lacks its two hexadecimal digits. -/
  | brokenTriplet {t} : ¬ Text.PercentClosed (nameOf t) →
      Guilty earlier t (lit "E_INVALID_PCT_ENCODING")
  /-- The name is not in the grammar. -/
  | badName {t} : ¬ Name (nameOf t) → Guilty earlier t (lit "E_INVALID_VARNAME")
  /-- One of the variables before has the same name. -/
  | duplicate {t} : nameOf t ∈ earlier.map nameOf →
      Guilty earlier t (lit "E_DUPLICATE_VARNAME")

variable {earlier seen : List Text} {t : Text} {spec : VarSpec} {fault : ExpressionFault}

theorem name_of_readModifier (h : readModifier t = .ok spec) : spec.name = nameOf t := by
  rcases readModifier_cases h with
    ⟨name, rfl, rfl⟩ | ⟨hlast, ⟨hcut, rfl⟩ | ⟨_, _, _, hcut, -, rfl⟩⟩
  · show name = nameOf (name ++ [CodePoint.scalar '*'])
    rw [nameOf, List.getLast?_concat, if_pos rfl, List.dropLast_concat]
  · rw [nameOf, if_neg hlast, hcut]
  · rw [nameOf, if_neg hlast, hcut]

theorem guilty_of_readModifier (h : readModifier t = .error fault) :
    Guilty earlier t fault.code := by
  rw [readModifier] at h
  split at h
  · next hempty =>
    obtain rfl := List.isEmpty_iff.mp hempty
    obtain rfl := Except.error.inj h
    exact .empty
  · split at h
    · next hlast =>
      split at h
      · next hcolon =>
        obtain rfl := Except.error.inj h
        obtain ⟨front, rfl⟩ := List.getLast?_eq_some_iff.mp hlast
        rw [List.dropLast_concat] at hcolon
        exact .bothModifiers (List.contains_iff_mem.mp hcolon)
      · cases h
    · split at h
      · cases h
      · next front length hcut =>
        split at h
        · cases h
        · next hlength =>
          obtain rfl := Except.error.inj h
          have hfront := Text.not_mem_fst_cutAt (CodePoint.scalar ':') t
          rw [hcut] at hfront
          -- in range, the digits of a number are read
          have hdigits : ∀ n, 1 ≤ n → n ≤ 10000 → length ≠ Text.ofNat n := by
            rintro n h₁ h₂ rfl
            rw [readLength?_ofNat h₁ h₂] at hlength
            cases hlength
          have hguilty : Guilty earlier (front ++ lit ":" ++ length) (lit "E_INVALID_PREFIX") :=
            .badLength hfront hdigits
          rw [List.append_assoc] at hguilty
          rw [Text.eq_of_cutAt hcut]
          exact hguilty

theorem guilty_of_checkName (h : checkName (nameOf t) = .error fault) :
    Guilty earlier t fault.code := by
  rw [checkName] at h
  split at h
  · next hbroken =>
    obtain rfl := Except.error.inj h
    refine .brokenTriplet fun hclosed => ?_
    rw [hasBrokenTriplet_of_percentClosed hclosed] at hbroken
    cases hbroken
  · split at h
    · cases h
    · next hname =>
      obtain rfl := Except.error.inj h
      exact .badName fun h => hname h.isName.1

theorem name_of_read (h : read seen t = .ok spec) : spec.name = nameOf t :=
  name_of_readModifier (checks_of_read h).1

/-- **A variable is guilty of what it is refused for**, if the names that have
been seen are those of the variables before it. -/
theorem guilty_of_read (hseen : ∀ name ∈ seen, name ∈ earlier.map nameOf)
    (h : read seen t = .error fault) : Guilty earlier t fault.code := by
  unfold read at h
  rcases bind_eq_error.mp h with h | ⟨spec, hmodifier, h⟩
  · exact guilty_of_readModifier h
  · have hname := name_of_readModifier hmodifier
    rw [hname] at h
    rcases bind_eq_error.mp h with h | ⟨_, -, h⟩
    · exact guilty_of_checkName h
    · split at h
      · next hmem =>
        obtain rfl := Except.error.inj h
        exact .duplicate (hseen _ hmem)
      · cases h

/-! ### Lists of variables -/

/-- **A list is read from left to right**: its beginning, and then the rest with
the names of the beginning seen. -/
theorem readAll_append (seen ts us : List Text) : readAll seen (ts ++ us) = do
    let specs ← readAll seen ts
    let rest ← readAll ((ts.map nameOf).reverse ++ seen) us
    return specs ++ rest := by
  induction ts generalizing seen with
  | nil =>
    show readAll seen us = readAll seen us >>= fun rest => pure rest
    exact (bind_pure _).symm
  | cons t ts ih =>
    have hnames : ((t :: ts).map nameOf).reverse ++ seen
        = (ts.map nameOf).reverse ++ nameOf t :: seen := by simp
    rw [List.cons_append, readAll, readAll, hnames]
    rcases hread : read seen t with fault | spec
    · rfl
    · show (readAll (spec.name :: seen) (ts ++ us) >>= fun specs => pure (spec :: specs))
        = (readAll (spec.name :: seen) ts >>= fun specs => pure (spec :: specs)) >>= _
      rw [name_of_read hread, ih]
      rcases readAll (nameOf t :: seen) ts with fault | specs
      · rfl
      · rcases readAll ((ts.map nameOf).reverse ++ nameOf t :: seen) us with fault | rest <;> rfl

/-- A list that is refused has a beginning that is read, and a variable behind
it that is not. -/
theorem exists_of_readAll_eq_error {ts : List Text} (h : readAll seen ts = .error fault) :
    ∃ front t back, ts = front ++ t :: back ∧ (∃ specs, readAll seen front = .ok specs) ∧
      read ((front.map nameOf).reverse ++ seen) t = .error fault := by
  induction ts generalizing seen with
  | nil => cases h
  | cons t ts ih =>
    unfold readAll at h
    rcases bind_eq_error.mp h with h | ⟨spec, hread, h⟩
    · exact ⟨[], t, ts, rfl, ⟨[], rfl⟩, h⟩
    · rcases bind_eq_error.mp h with h | ⟨_, -, h⟩
      · rw [name_of_read hread] at h
        obtain ⟨front, u, back, rfl, ⟨specs, hspecs⟩, hu⟩ := ih h
        refine ⟨t :: front, u, back, rfl, ⟨spec :: specs, ?_⟩, ?_⟩
        · rw [← name_of_read hread] at hspecs
          exact readAll_cons_eq_ok.mpr ⟨spec, specs, rfl, hread, hspecs⟩
        · rwa [List.map_cons, List.reverse_cons, List.append_assoc]
      · cases h

/-- Whatever follows the variable, the list is refused for it. -/
theorem readAll_of_read_eq_error {front : List Text} {specs : List VarSpec}
    (hfront : readAll seen front = .ok specs)
    (h : read ((front.map nameOf).reverse ++ seen) t = .error fault) (back : List Text) :
    readAll seen (front ++ t :: back) = .error fault := by
  rw [readAll_append, hfront, readAll, h]
  rfl

/-- The beginning of a list that is read is read. -/
theorem exists_readAll_take {ts : List Text} {specs : List VarSpec}
    (h : readAll seen ts = .ok specs) (j : Nat) :
    ∃ specs', readAll seen (ts.take j) = .ok specs' := by
  rw [← List.take_append_drop j ts, readAll_append] at h
  obtain ⟨specs', htake, -⟩ := bind_eq_ok.mp h
  exact ⟨specs', htake⟩

end VarSpec

/-! ### Bodies -/

namespace Expression

open VarSpec

/-- The operator of a body and the list of variables behind it.  An operator
that has a symbol is recognised by it.  The operator without symbol stands before
a list that begins with neither a symbol nor a character reserved for
extensions. -/
inductive Opens : Operator → Text → Text → Prop
  | symbol {op c} {list : Text} : op.symbol = [c] → Opens op list (c :: list)
  | simple {c} {rest : Text} : Operator.isReservedSymbol c = false →
      (∀ op : Operator, op.symbol ≠ [c]) → Opens .simple (c :: rest) (c :: rest)

variable {op : Operator} {list raw code : Text} {p : Nat}

/-- Every body begins with an operator, unless it begins with a character
reserved for extensions. -/
theorem exists_opens {c : CodePoint} (hc : Operator.isReservedSymbol c = false) (rest : Text) :
    ∃ op list, Opens op list (c :: rest) := by
  by_cases h : ∃ op : Operator, op.symbol = [c]
  · obtain ⟨op, hop⟩ := h
    exact ⟨op, rest, .symbol hop⟩
  · exact ⟨.simple, c :: rest, .simple hc fun op hop => h ⟨op, hop⟩⟩

theorem Opens.eq_append (h : Opens op list raw) : raw = op.symbol ++ list := by
  cases h with
  | symbol hop => rw [hop, List.singleton_append]
  | simple => rfl

/-- A body opens with one operator only. -/
theorem Opens.unique {op' : Operator} {list' : Text} (h : Opens op list raw)
    (h' : Opens op' list' raw) : op = op' ∧ list = list' := by
  have hop : op = op' := by
    cases h with
    | symbol hop =>
      cases h' with
      | symbol hop' => cases op <;> cases hop <;> cases op' <;> first | rfl | cases hop'
      | simple _ hsymbol => exact absurd hop (hsymbol op)
    | simple _ hsymbol =>
      cases h' with
      | symbol hop' => exact absurd hop' (hsymbol _)
      | simple => rfl
  subst hop
  exact ⟨rfl, List.append_cancel_left (h.eq_append.symm.trans h'.eq_append)⟩

/-- Of the list only the first character matters, and it only if it is not
reserved for extensions. -/
theorem Opens.of_head (h : Opens op list raw) {list' : Text}
    (hhead : ∀ c ∈ list.head?, Operator.isReservedSymbol c = false → c ∈ list'.head?) :
    Opens op list' (op.symbol ++ list') := by
  cases h with
  | symbol hop =>
    rw [hop]
    exact .symbol hop
  | simple hc hsymbol =>
    obtain ⟨rest', rfl⟩ := List.head?_eq_some_iff.mp (hhead _ rfl hc)
    exact .simple hc hsymbol

/-- What comes behind the list does not change the operator. -/
theorem Opens.append (h : Opens op list raw) (more : Text) :
    Opens op (list ++ more) (raw ++ more) := by
  have hopens : Opens op (list ++ more) (op.symbol ++ (list ++ more)) := by
    refine h.of_head fun c hc _ => ?_
    obtain ⟨rest, rfl⟩ := List.head?_eq_some_iff.mp hc
    rfl
  rwa [h.eq_append, List.append_assoc]

/-- A symbol that stands for an operator is recognised, and with the list behind
it the operator has something to expand. -/
theorem Opens.readOperator_eq (h : Opens op list raw) :
    readOperator raw = if list.isEmpty then .error .noVariables else .ok (op, list) := by
  cases h with
  | @symbol _ c _ hop =>
    have hfind : Operator.isReservedSymbol c = false ∧ Operator.ofSymbol? c = some op := by
      cases op <;> cases hop <;> exact ⟨rfl, rfl⟩
    rw [readOperator, hfind.1, hfind.2, if_neg Bool.false_ne_true]
  | @simple c rest hc hsymbol =>
    have hnone : Operator.ofSymbol? c = none :=
      List.find?_eq_none.mpr fun op _ hop => hsymbol op (eq_of_beq hop)
    rw [readOperator, hc, hnone]
    rfl

/-- **The code of a body is the code of its list.** -/
theorem Opens.map_code (h : Opens op list raw) :
    (error? (readBody raw)).map ExpressionFault.code
      = (error? (readAll [] (list.split ','))).map ExpressionFault.code := by
  rw [readBody, h.readOperator_eq]
  rcases list with - | ⟨c, rest⟩
  · -- an operator alone has a list with one variable, which is empty
    rfl
  · rw [if_neg (by simp)]
    show (error? (readAll [] (Text.split ',' (c :: rest)) >>= _)).map _ = _
    rcases readAll [] (Text.split ',' (c :: rest)) with fault | specs <;> rfl

/-- The body is refused, the error having the code. -/
def RefusedWith (code raw : Text) (p : Nat) : Prop :=
  ∃ e, read raw p = .error e ∧ e.code = code

theorem Opens.refusedWith_iff (h : Opens op list raw) : RefusedWith code raw p ↔
    ∃ fault, readAll [] (list.split ',') = .error fault ∧ fault.code = code := by
  have hbody : RefusedWith code raw p ↔
      (error? (readBody raw)).map ExpressionFault.code = some code := by
    rw [RefusedWith, read]
    rcases readBody raw with fault | ⟨op, specs⟩
    · simp [error?, ParseError.code]
    · simp [error?]
  rw [hbody, h.map_code, Option.map_eq_some_iff]
  simp only [error?_eq_some]

theorem Opens.exists_read_iff (h : Opens op list raw) : (∃ e, read raw p = .ok e) ↔
    ∃ specs, readAll [] (list.split ',') = .ok specs := by
  have hbody : (∃ e, read raw p = .ok e) ↔
      (error? (readBody raw)).map ExpressionFault.code = none := by
    rw [read]
    rcases readBody raw with fault | ⟨op, specs⟩ <;> simp [error?]
  rw [hbody, h.map_code, Option.map_eq_none_iff, error?_eq_none]

/-! ### Beginnings -/

/-- The operator with the first `j` variables of the list alone. -/
def beginning (op : Operator) (list : Text) (j : Nat) : Text :=
  op.symbol ++ List.intercalate (lit ",") ((list.split ',').take j)

/-- The first of the pieces, joined, are cut apart again. -/
theorem split_intercalate_take (list : Text) {j : Nat} (hj : j ≠ 0) :
    Text.split ',' (List.intercalate (lit ",") ((list.split ',').take j))
      = (list.split ',').take j := by
  have hne : (list.split ',').take j ≠ [] := by
    rw [ne_eq, List.take_eq_nil_iff]
    rintro (h | h)
    · exact hj h
    · exact Text.split_ne_nil _ _ h
  exact Text.split_intercalate hne fun piece hpiece =>
    Text.not_mem_of_mem_split (List.mem_of_mem_take hpiece)

/-- A beginning of the list begins as the list does, unless with a comma. -/
theorem head?_intercalate_take {c : CodePoint} (hc : c ≠ CodePoint.scalar ',') (rest : Text)
    {j : Nat} (hj : j ≠ 0) :
    c ∈ (List.intercalate (lit ",") ((Text.split ',' (c :: rest)).take j)).head? := by
  obtain ⟨j, rfl⟩ := Nat.exists_eq_succ_of_ne_zero hj
  rw [Text.split, if_neg hc]
  rcases hsplit : Text.split ',' rest with - | ⟨piece, pieces⟩
  · exact absurd hsplit (Text.split_ne_nil _ rest)
  · show c ∈ (List.intercalate _ (((c :: piece) :: pieces).take (j + 1))).head?
    rw [List.take_succ_cons, List.intercalate_cons_cons_left]
    rfl

theorem Opens.beginning (h : Opens op list raw) {j : Nat} (hj : j ≠ 0) :
    Opens op (List.intercalate (lit ",") ((list.split ',').take j)) (beginning op list j) := by
  refine h.of_head fun c hc hreserved => ?_
  obtain ⟨rest, rfl⟩ := List.head?_eq_some_iff.mp hc
  refine head?_intercalate_take ?_ rest hj
  rintro rfl
  cases hreserved

/-- A body is refused for variable `t` at the place `k` of its list. -/
structure RefusedAt (raw : Text) (p : Nat) (code : Text) (op : Operator) (list : Text) (k : Nat)
    (t : Text) : Prop where
  opens : Opens op list raw
  varspec : (list.split ',')[k]? = some t
  /-- The variables before it alone are read. -/
  accepted : ∀ j, 1 ≤ j → j ≤ k → ∃ e, read (beginning op list j) p = .ok e
  /-- With it they are refused, and with any that follow. -/
  refused : ∀ j, k < j → RefusedWith code (beginning op list j) p
  /-- Nor is the body saved by what is put behind it. -/
  extended : ∀ more, RefusedWith code (raw ++ lit "," ++ more) p
  guilty : VarSpec.Guilty ((list.split ',').take k) t code

/-- There is one such place. -/
theorem RefusedAt.unique {code' list' t' : Text} {op' : Operator} {k k' : Nat} {t : Text}
    (h : RefusedAt raw p code op list k t) (h' : RefusedAt raw p code' op' list' k' t') :
    code = code' ∧ op = op' ∧ list = list' ∧ k = k' ∧ t = t' := by
  obtain ⟨rfl, rfl⟩ := h.opens.unique h'.opens
  -- the variables up to the earlier of two places would be read and refused
  have hle : ∀ {code code' k k' t t'}, RefusedAt raw p code op list k t →
      RefusedAt raw p code' op list k' t' → k' ≤ k := by
    intro code code' k k' t t' h h'
    refine Nat.le_of_not_lt fun hlt => ?_
    obtain ⟨e, he⟩ := h'.accepted (k + 1) (Nat.le_add_left 1 k) hlt
    obtain ⟨e', he', -⟩ := h.refused (k + 1) (Nat.lt_succ_self k)
    rw [he] at he'
    cases he'
  obtain rfl := Nat.le_antisymm (hle h' h) (hle h h')
  obtain ⟨e, he, rfl⟩ := h.extended []
  obtain ⟨e', he', rfl⟩ := h'.extended []
  rw [he] at he'
  have ht := h.varspec
  rw [h'.varspec] at ht
  exact ⟨congrArg _ (Except.error.inj he'), rfl, rfl, rfl, (Option.some.inj ht).symm⟩

/-- **A body is refused for the leftmost variable at fault.**  It begins with an
operator, and behind that in its list stands a variable for which it is refused: the
variables before it are read, and with it they are refused, whatever follows.  The
error is about that variable. -/
theorem refused_at_leftmost {c : CodePoint} {rest : Text} {p : Nat} {e : ParseError}
    (hc : Operator.isReservedSymbol c = false) (h : read (c :: rest) p = .error e) :
    ∃ op list k t, RefusedAt (c :: rest) p e.code op list k t := by
  obtain ⟨op, list, hopens⟩ := exists_opens hc rest
  obtain ⟨fault, hlist, hcode⟩ := hopens.refusedWith_iff.mp ⟨e, h, rfl⟩
  obtain ⟨front, t, back, hsplit, ⟨specs, hfront⟩, ht⟩ := exists_of_readAll_eq_error hlist
  have htake : (list.split ',').take front.length = front := by rw [hsplit, List.take_left]
  refine ⟨op, list, front.length, t, hopens, ?_, ?_, ?_, ?_, ?_⟩
  · rw [hsplit, List.getElem?_append_right (Nat.le_refl _), Nat.sub_self, List.getElem?_cons_zero]
  · intro j hj hle
    have hj : j ≠ 0 := Nat.one_le_iff_ne_zero.mp hj
    obtain ⟨specs', hspecs'⟩ := exists_readAll_take hfront j
    refine (hopens.beginning hj).exists_read_iff.mpr ⟨specs', ?_⟩
    rwa [split_intercalate_take list hj, hsplit, List.take_append_of_le_length hle]
  · intro j hj
    have hj0 : j ≠ 0 := Nat.ne_zero_of_lt hj
    obtain ⟨i, rfl⟩ := Nat.exists_eq_add_of_lt hj
    refine (hopens.beginning hj0).refusedWith_iff.mpr ⟨fault, ?_, hcode⟩
    rw [split_intercalate_take list hj0, hsplit, Nat.add_assoc, List.take_length_add_append,
      List.take_succ_cons]
    exact readAll_of_read_eq_error hfront ht _
  · intro more
    rw [List.append_assoc]
    refine (hopens.append (lit "," ++ more)).refusedWith_iff.mpr ⟨fault, ?_, hcode⟩
    have hpieces : Text.split ',' (list ++ (lit "," ++ more))
        = front ++ t :: (back ++ Text.split ',' more) := by
      rw [show lit "," ++ more = CodePoint.scalar ',' :: more from rfl, Text.split_append_cons,
        hsplit, List.append_assoc, List.cons_append]
    rw [hpieces]
    exact readAll_of_read_eq_error hfront ht _
  · rw [htake, ← hcode]
    refine guilty_of_read (fun name hname => ?_) ht
    simpa using hname

/-- A name that occurs again is found before the number out of range behind it. -/
theorem refused_at_leftmost_duplicate :
    let raw := lit "?a.b,%41*,x:10,a.b:3,c:0,"
    Operator.isReservedSymbol (CodePoint.scalar '?') = false ∧
    read raw 5 = .error (.expression (.duplicateName (lit "a.b")) raw 5) ∧
    ∃ op list k t, RefusedAt raw 5 (lit "E_DUPLICATE_VARNAME") op list k t := by
  intro raw
  have hread : read raw 5 = .error (.expression (.duplicateName (lit "a.b")) raw 5) :=
    error?_eq_some.mp (by decide +kernel)
  exact ⟨rfl, hread, refused_at_leftmost rfl hread⟩

end Expression

end UriExpansion
