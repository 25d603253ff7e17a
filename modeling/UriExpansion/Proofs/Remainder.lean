/-
UriExpansion/Proofs/Remainder.lean

The expressions that partial expansion leaves.

Partial expansion writes a text and reads it again, so that what it leaves is
what the reader finds.  The reader finds the bodies that have been written and
no others: renderings hold no brace, whatever their values hold.  A body that
was kept is read as it was read before, and a body that was printed is read as
the variables it was printed from.  An expression that has values for all its
variables leaves no body, any other leaves one (`Expression.Residue.leaves`).
So the expressions that are left are those of the template with a variable
that has no value, one by one and in order (`expandPartial_leaves`).
-/
import UriExpansion.Proofs.Residue

namespace UriExpansion

/-! ### What is left of an expression -/

namespace Expression

section
variable (store : Store) (s : Settings)

/-- The second expression is what partial expansion leaves of the first. -/
inductive Leaves (e : Expression) : Expression → Prop
  /-- The expression stays as it was written. -/
  | kept {p : Nat} : (∀ op n, ¬ e.ResumesAt store s op n) → Leaves e { e with position := p }
  /-- The variables behind the first `n` go on under `op`. -/
  | resumed {op : Operator} {n p : Nat} : e.ResumesAt store s op n →
      Leaves e ⟨op.symbol ++ VarSpec.listToText (e.varspecs.drop n), op, e.varspecs.drop n, p⟩

/-- What is read from the body is what is left of the expression. -/
def LeavesBody (e : Expression) (body : Text) : Prop :=
  ∀ op specs p, readBody body = .ok (op, specs) → e.Leaves store s ⟨body, op, specs, p⟩

end

variable {store : Store} {s : Settings} {e f : Expression}

/-- No variable is added. -/
theorem Leaves.names_subset (h : e.Leaves store s f) : f.names ⊆ e.names := by
  cases h with
  | kept _ => exact fun _ hname => hname
  | @resumed op n p _ => exact List.map_subset _ (List.drop_subset n e.varspecs)

/-- No variable without a value is lost. -/
theorem Leaves.mem_names (h : e.Leaves store s f) {name : Text} (hname : name ∈ e.names)
    (hnot : ¬ store.Defines s name) : name ∈ f.names := by
  cases h with
  | kept _ => exact hname
  | @resumed op n p hresumes =>
    obtain ⟨spec, hspec, rfl⟩ := List.mem_map.mp hname
    rw [← List.take_append_drop n e.varspecs, List.mem_append] at hspec
    rcases hspec with hspec | hspec
    · exact absurd (hresumes.defined spec hspec) hnot
    · exact List.mem_map_of_mem hspec

end Expression

/-! ### Bodies -/

/-- The body that a piece is. -/
def Piece.body? : Piece → Option Text
  | run _ => none
  | body text => some text

/-- The body that a token is. -/
def Token.body? : Token → Option Text
  | literal .. => none
  | expression body _ => some body

/-- An expression that has a variable without value leaves one body, any other
leaves none. -/
theorem Expression.Residue.leaves {store : Store} {s : Settings} {e : Expression}
    {values : List Resolved} {pieces : List Piece} (h : e.Residue store s values pieces)
    (he : (Component.expression e).Sound) :
    List.Forall₂ (LeavesBody store s) ([e].filter fun e => e.Open store s)
      (pieces.filterMap Piece.body?) := by
  obtain ⟨-, hread⟩ := he
  have hlist := readBody_sound hread
  cases h with
  | expanded hdefined =>
    have hclosed : ¬ e.Open store s := fun ⟨spec, hspec, hnot⟩ => hnot (hdefined spec hspec)
    rw [List.filter_singleton, decide_eq_false hclosed]
    exact .nil
  | kept hopen hnot =>
    rw [List.filter_singleton, decide_eq_true hopen]
    refine .cons (fun op specs p hagain => ?_) .nil
    -- the body is read as it was read before
    obtain ⟨rfl, rfl⟩ := Prod.mk.inj (Except.ok.inj (hread.symm.trans hagain))
    exact .kept hnot
  | @resumed op n hresumes =>
    have hrest : VarSpec.WellFormedList (e.varspecs.drop n) := hlist.drop hresumes.lt
    obtain ⟨spec, hspec⟩ := List.exists_mem_of_ne_nil _ hrest.ne_nil
    have hopen : e.Open store s :=
      ⟨spec, List.mem_of_mem_drop hspec, hresumes.undefined spec hspec⟩
    rw [List.filter_singleton, decide_eq_true hopen]
    refine .cons (fun op' specs p hagain => ?_) .nil
    -- the body is read as the variables it was printed from
    obtain ⟨rfl, rfl⟩ := Prod.mk.inj (Except.ok.inj ((readBody_print op hrest).symm.trans hagain))
    exact .resumed hresumes

theorem Component.leaves_residues {store : Store} {s : Settings} {cs : List Component}
    {residues : List (List Piece)} (h : List.Forall₂ (Component.Residue store s) cs residues)
    (hcs : ∀ c ∈ cs, c.Sound) :
    List.Forall₂ (Expression.LeavesBody store s)
      ((cs.filterMap expression?).filter fun e => e.Open store s)
      (residues.flatten.filterMap Piece.body?) := by
  induction h with
  | nil => exact .nil
  | @cons c pieces cs residues hresidue _ ih =>
    obtain ⟨hc, hrest⟩ := List.forall_mem_cons.mp hcs
    rw [List.flatten_cons, List.filterMap_append]
    cases hresidue with
    | literal => exact ih hrest
    | @expression e values pieces _ hresidue =>
      have hfront : ((Component.expression e :: cs).filterMap expression?)
          = [e] ++ cs.filterMap expression? := rfl
      rw [hfront, List.filter_append]
      exact List.rel_append (hresidue.leaves hc) (ih hrest)

namespace Token

theorem filterMap_body?_withLiteral (p : Nat) (text : Text) (tokens : List Token) :
    (withLiteral p text tokens).filterMap body? = tokens.filterMap body? := by
  rw [withLiteral]
  split <;> rfl

/-- The scanner finds the bodies that were written. -/
theorem filterMap_body?_assemble (pieces : List Piece) (p : Nat) :
    (assemble p pieces).2.filterMap body? = pieces.filterMap Piece.body? := by
  induction pieces generalizing p with
  | nil => rfl
  | cons piece pieces ih =>
    cases piece with
    | run text => exact ih (p + text.length)
    | body text =>
      rw [assemble_body, List.filterMap_cons, filterMap_body?_withLiteral, ih]
      rfl

end Token

namespace Template

/-- The expressions that are read from pieces are their bodies. -/
theorem map_body_expressions {pieces : List Piece} (hsound : ∀ piece ∈ pieces, piece.Sound)
    {p : Template} (hp : parse (Piece.allText pieces) = .ok p) :
    p.expressions.map Expression.body = pieces.filterMap Piece.body? := by
  obtain ⟨tokens, hscan, hnone, rfl⟩ := parse_eq_ok_iff.mp hp
  obtain rfl := Except.ok.inj ((Token.scan_pieces hsound).symm.trans hscan)
  have hbody : ∀ c : Component, (c.expression?).map Expression.body = c.token.body? := by
    intro c
    cases c <;> rfl
  -- the text between braces is not looked at on its way from piece to token to expression
  calc ((componentsOf (Token.ofPieces pieces)).filterMap Component.expression?).map Expression.body
      = ((componentsOf (Token.ofPieces pieces)).map Component.token).filterMap Token.body? := by
        simp only [List.map_filterMap, List.filterMap_map, Function.comp_def, hbody]
    _ = (Token.ofPieces pieces).filterMap Token.body? := by rw [map_token_componentsOf hnone]
    _ = (Token.assemble 0 pieces).2.filterMap Token.body? :=
        Token.filterMap_body?_withLiteral 0 _ _
    _ = pieces.filterMap Piece.body? := Token.filterMap_body?_assemble pieces 0

/-- The expressions of which something is left. -/
def openExpressions (store : Store) (s : Settings) (t : Template) : List Expression :=
  t.expressions.filter fun e => e.Open store s

theorem openExpressions_eq_nil_iff {store : Store} {s : Settings} {t : Template} :
    t.openExpressions store s = [] ↔ ∀ name ∈ t.variableNames, store.Defines s name := by
  rw [openExpressions, List.filter_eq_nil_iff]
  constructor
  · intro h name hname
    obtain ⟨e, he, hname⟩ := mem_variableNames.mp hname
    obtain ⟨spec, hspec, rfl⟩ := List.mem_map.mp hname
    by_contra hnot
    exact h e he (decide_eq_true ⟨spec, hspec, hnot⟩)
  · intro h e he hopen
    obtain ⟨spec, hspec, hnot⟩ := of_decide_eq_true hopen
    exact hnot (h spec.name (mem_variableNames.mpr ⟨e, he, List.mem_map_of_mem hspec⟩))

/-- What is left is found when it is read. -/
theorem exists_expandPartial {source : Text} {t : Template} (ht : parse source = .ok t)
    {store : Store} {s : Settings} (hresolve : ∀ e ∈ t.expressions, ∀ spec ∈ e.varspecs,
      ∃ value, (e.resolve store s spec).outcome = .ok value) :
    ∃ p, t.expandPartial store s = .ok p ∧
      List.Forall₂ (Expression.Leaves store s) (t.openExpressions store s) p.expressions := by
  have hsound := parse_sound ht
  -- nothing stands in the way of the components, so that a residue is written
  have houtcome : ∀ c ∈ t.components, ∃ text, (c.expandPartially store s).outcome = .ok text := by
    intro c hc
    refine Component.exists_outcome ?_
    rintro e rfl
    refine exists_mapM_eq_ok_iff.mpr fun spec hspec => ?_
    obtain ⟨value, hvalue⟩ := hresolve e (mem_expressions.mpr hc) spec hspec
    rw [Expression.outcome_resolve, mapError_eq_ok] at hvalue
    exact ⟨value, hvalue⟩
  obtain ⟨texts, htexts⟩ := exists_mapM_eq_ok_iff.mpr houtcome
  obtain ⟨residues, hresidues, htext⟩ := Component.exists_residues htexts
  have hpieces := Component.sound_residues hresidues hsound
  -- the residue is a template, and its expressions are read from the bodies
  have hparse := parse_pieces hpieces
  refine ⟨_, expandPartial_eq_ok.mpr ⟨texts, htexts, htext ▸ hparse⟩, ?_⟩
  have hbodies := Component.leaves_residues hresidues hsound
  rw [← map_body_expressions hpieces hparse, List.forall₂_map_right_iff] at hbodies
  refine List.forall₂_iff_zip.mpr ⟨hbodies.length_eq, fun {e f} hmem => ?_⟩
  obtain ⟨-, hf⟩ := List.of_mem_zip hmem
  obtain ⟨-, hread⟩ := parse_sound hparse _ (mem_expressions.mp hf)
  exact List.forall₂_zip hbodies hmem f.operator f.varspecs f.position hread

/-- **Partial expansion keeps exactly what has no value.**  If the variables of
a template are resolved, then what partial expansion writes is a template
again.  Its expressions are, one by one and in order, what is left of the
expressions with a variable that has no value.  So no such variable is lost,
none is added, and no expression remains if and only if all variables have
values. -/
theorem expandPartial_leaves {source : Text} {t : Template} (ht : parse source = .ok t)
    {store : Store} {s : Settings} (hresolve : ∀ e ∈ t.expressions, ∀ spec ∈ e.varspecs,
      ∃ value, (e.resolve store s spec).outcome = .ok value) :
    ∃ p, t.expandPartial store s = .ok p ∧
      List.Forall₂ (Expression.Leaves store s) (t.openExpressions store s) p.expressions ∧
      (∀ name ∈ t.variableNames, ¬ store.Defines s name → name ∈ p.variableNames) ∧
      (∀ name ∈ p.variableNames, name ∈ t.variableNames) ∧
      (p.expressions = [] ↔ ∀ name ∈ t.variableNames, store.Defines s name) := by
  obtain ⟨p, hp, hleaves⟩ := exists_expandPartial ht hresolve
  refine ⟨p, hp, hleaves, ?_, ?_, ?_⟩
  · intro name hname hnot
    -- its expression is open, and what is left of that has it still
    obtain ⟨e, he, hname⟩ := mem_variableNames.mp hname
    obtain ⟨spec, hspec, rfl⟩ := List.mem_map.mp hname
    have hopen : e ∈ t.openExpressions store s :=
      List.mem_filter.mpr ⟨he, decide_eq_true ⟨spec, hspec, hnot⟩⟩
    obtain ⟨f, hf, hleft⟩ := exists_of_mem_left hleaves e hopen
    exact mem_variableNames.mpr ⟨f, hf, hleft.mem_names hname hnot⟩
  · intro name hname
    obtain ⟨f, hf, hname⟩ := mem_variableNames.mp hname
    obtain ⟨e, he, hleft⟩ := exists_of_mem_right hleaves f hf
    exact mem_variableNames.mpr ⟨e, List.mem_of_mem_filter he, hleft.names_subset hname⟩
  · rw [← openExpressions_eq_nil_iff]
    constructor
    · intro hnil
      rw [hnil, List.forall₂_nil_right_iff] at hleaves
      exact hleaves
    · intro hnil
      rw [hnil, List.forall₂_nil_left_iff] at hleaves
      exact hleaves

/-- A query goes on, two expressions stay, and values hold braces. -/
theorem expandPartial_leaves_braces :
    let braces : Value := .str (lit "\x7bz\x7d")
    let store := (Store.empty.set (lit "a") braces).set (lit "y") braces
    ∃ t p, parse (lit "\x7b?a,b:3,c*\x7d\x7bx\x7d\x7b+y,x\x7d\x7by\x7d") = .ok t ∧
      (∀ e ∈ t.expressions, ∀ spec ∈ e.varspecs,
        ∃ value, (e.resolve store .standard spec).outcome = .ok value) ∧
      t.expandPartial store .standard = .ok p ∧
      p.source = lit "?a=%7Bz%7D\x7b&b:3,c*\x7d\x7bx\x7d\x7b+y,x\x7d%7Bz%7D" ∧
      (t.openExpressions store .standard).length = 3 ∧
      List.Forall₂ (Expression.Leaves store .standard) (t.openExpressions store .standard)
        p.expressions ∧
      lit "c" ∈ p.variableNames ∧ lit "z" ∉ p.variableNames ∧ p.expressions ≠ [] := by
  intro braces store
  let query : Expression := ⟨lit "?a,b:3,c*", .query,
    [⟨lit "a", .none⟩, ⟨lit "b", .upTo 3⟩, ⟨lit "c", .explode⟩], 0⟩
  let t : Template := ⟨lit "\x7b?a,b:3,c*\x7d\x7bx\x7d\x7b+y,x\x7d\x7by\x7d",
    [.expression query, .expression ⟨lit "x", .simple, [⟨lit "x", .none⟩], 11⟩,
      .expression ⟨lit "+y,x", .reserved, [⟨lit "y", .none⟩, ⟨lit "x", .none⟩], 14⟩,
      .expression ⟨lit "y", .simple, [⟨lit "y", .none⟩], 20⟩]⟩
  have hparse : parse (lit "\x7b?a,b:3,c*\x7d\x7bx\x7d\x7b+y,x\x7d\x7by\x7d") = .ok t :=
    eq_ok_of_toOption (by decide +kernel)
  have hresolve : ∀ e ∈ t.expressions, ∀ spec ∈ e.varspecs,
      ∃ value, (e.resolve store .standard spec).outcome = .ok value := by
    simp only [← error?_eq_none]
    decide +kernel
  obtain ⟨p, hp, hleaves, hkept, hadded, hnone⟩ := expandPartial_leaves hparse hresolve
  have hsource : (t.expandPartial store .standard).map Template.source
      = .ok (lit "?a=%7Bz%7D\x7b&b:3,c*\x7d\x7bx\x7d\x7b+y,x\x7d%7Bz%7D") :=
    eq_ok_of_toOption (by decide +kernel)
  rw [hp] at hsource
  have hvariable : lit "c" ∈ t.variableNames ∧ lit "z" ∉ t.variableNames := by decide +kernel
  have hundefined : ¬ store.Defines .standard (lit "c") := by decide +kernel
  refine ⟨t, p, hparse, hresolve, hp, Except.ok.inj hsource, by decide +kernel, hleaves, ?_, ?_, ?_⟩
  · exact hkept _ hvariable.1 hundefined
  · exact fun hmem => hvariable.2 (hadded _ hmem)
  · exact fun hnil => hundefined (hnone.mp hnil _ hvariable.1)

end Template

end UriExpansion
