/-
UriExpansion/Proofs/Residue.lean

What partial expansion leaves of an expression.

Partial expansion writes a text and reads it as a template again.  The text
consists of pieces: a run of literal text for what has been expanded, a body
for what is still to come (`Expression.Residue`).  Which of them are left
depends on nothing but which variables have values; the place at which an
expression goes on is the end of the leading values and no other
(`ResumesAt.length_takeWhile`).

A run is literal text from now on and is encoded a second time when the
template is expanded.  That does no harm, since a rendering is the text of a
URI.  A body is read a second time: one that is kept gives the expression that
it gave before, and one that goes on under a resuming operator was printed from
variables and gives these back.  So the pieces mean together what the
expression means (`Residue.meaning`), under every store that keeps the values
used so far.
-/
import UriExpansion.Expansion.Partial
import UriExpansion.Proofs.Meaning

namespace UriExpansion

open Percent

/-! ### What pieces mean -/

/-- What a piece means once it is read; a body that cannot be read has no
meaning of its own. -/
def Piece.meaning (store : Store) (s : Settings) : Piece → Except Refusal Text
  | run text => .ok (encoded .reserved text)
  | body text =>
    match Expression.readBody text with
    | .ok (op, specs) => store.expansion s op specs
    | .error _ => .ok []

theorem Piece.meaning_body {text : Text} {op : Operator} {specs : List VarSpec}
    (h : Expression.readBody text = .ok (op, specs)) (store : Store) (s : Settings) :
    (Piece.body text).meaning store s = store.expansion s op specs := by
  rw [meaning, h]

/-- The percent signs of a run begin triplets. -/
def Piece.PercentClosed : Piece → Prop := Piece.All Text.PercentClosed fun _ => True

namespace Template

/-- Literal text in front is encoded in front, be it empty or not. -/
theorem meaningOf_withLiteral (store : Store) (s : Settings) (p : Nat) (text : Text)
    (tokens : List Token) : meaningOf store s (Token.withLiteral p text tokens)
      = (meaningOf store s tokens).map (encoded .reserved text ++ ·) := by
  rw [Token.withLiteral]
  rcases text with - | ⟨c, rest⟩
  · rw [if_pos List.isEmpty_nil]
    rcases meaningOf store s tokens with r | t <;> rfl
  · exact meaningOf_cons_literal store s (c :: rest) p tokens

/-- **Reading the text of pieces keeps their meaning**, if merging runs
completes no triplet. -/
theorem meaningOf_assemble {pieces : List Piece} (hsound : ∀ piece ∈ pieces, piece.Sound)
    (hclosed : ∀ piece ∈ pieces, piece.PercentClosed) (store : Store) (s : Settings) (p : Nat) :
    meaningOf store s
        (Token.withLiteral p (Token.assemble p pieces).1 (Token.assemble p pieces).2)
      = joinM (Piece.meaning store s) pieces := by
  induction pieces generalizing p with
  | nil => rfl
  | cons piece pieces ih =>
    obtain ⟨hpiece, hpieces⟩ := List.forall_mem_cons.mp hsound
    obtain ⟨hclosed, hcloseds⟩ := List.forall_mem_cons.mp hclosed
    rw [joinM_cons]
    cases piece with
    | run text =>
      -- the run is merged with the literal text behind it, but encoded as if it were not
      have hrest := ih hpieces hcloseds (p + text.length)
      rw [meaningOf_withLiteral] at hrest
      rw [Token.assemble_run, meaningOf_withLiteral, ← hrest,
        encoded_append_of_not_splits (not_splitsTriplet_of_percentClosed hclosed _)]
      rcases meaningOf store s (Token.assemble (p + text.length) pieces).2 with r | t
      · rfl
      · exact congrArg Except.ok (List.append_assoc _ _ t)
    | body text =>
      obtain ⟨-, op, specs, hread⟩ := hpiece
      rw [Token.assemble_body, Token.withLiteral, if_pos List.isEmpty_nil,
        meaningOf_cons_expression, hread, Piece.meaning_body hread, ← ih hpieces hcloseds]

end Template

/-- What is expanded now and what goes on under the resuming operator make up
the expansion under a later store. -/
theorem Store.Keeps.expansion_split {store later : Store} {s : Settings}
    (hkeeps : Store.Keeps s store later) {specs : List VarSpec} {values : List Resolved}
    (hvalues : store.meanings s specs = .ok values) {op rest : Operator}
    (hop : op.resumed? = some rest) {n : Nat} (hpos : 0 < n) (hn : n < values.length)
    (hd : ∀ value ∈ values.take n, value.isDefined = true) :
    later.expansion s op specs = (later.expansion s rest (specs.drop n)).map
      (op.rendered (specs.take n) (values.take n) ++ ·) := by
  -- the variables in front keep their values, the others may find theirs
  have hfront : later.meanings s (specs.take n) = .ok (values.take n) :=
    hkeeps.meanings (take_of_mapM hvalues n) hd
  have hmeanings : later.meanings s specs
      = (later.meanings s (specs.drop n)).map (values.take n ++ ·) := by
    have happend := mapM_append_of_eq_ok hfront (specs.drop n)
    rwa [List.take_append_drop] at happend
  have hunits : op.written (specs.take n) (values.take n) ≠ [] := by
    have hlen : 0 < (values.take n).length := by
      rw [List.length_take_of_le (Nat.le_of_lt hn)]
      exact hpos
    have hlens : 0 < (specs.take n).length := by
      rwa [← length_of_mapM hfront]
    exact op.written_ne_nil (List.ne_nil_of_length_pos hlens) (List.ne_nil_of_length_pos hlen)
      (fun value hvalue => Store.meanings_sound hvalues value (List.mem_of_mem_take hvalue)) hd
  rw [Store.expansion, Store.expansion, hmeanings]
  rcases later.meanings s (specs.drop n) with r | back
  · rfl
  · have hsplit := @Operator.rendered_split _ _ hop specs (values.take n)
    rw [List.length_take_of_le (Nat.le_of_lt hn)] at hsplit
    exact congrArg Except.ok (hsplit hunits back)

/-! ### The residue of an expression -/

namespace Expression

section
variable (store : Store) (s : Settings)

/-- Some variable of the expression has no value. -/
def Open (e : Expression) : Prop := ∃ spec ∈ e.varspecs, ¬ store.Defines s spec.name

instance (e : Expression) : Decidable (e.Open store s) :=
  inferInstanceAs (Decidable (∃ spec ∈ e.varspecs, ¬ store.Defines s spec.name))

/-- The expression goes on under `op` behind its first `n` variables: these
have values, the others have none. -/
structure ResumesAt (e : Expression) (op : Operator) (n : Nat) : Prop where
  resumed : e.operator.resumed? = some op
  pos : 0 < n
  lt : n < e.varspecs.length
  defined : ∀ spec ∈ e.varspecs.take n, store.Defines s spec.name
  undefined : ∀ spec ∈ e.varspecs.drop n, ¬ store.Defines s spec.name

/-- The pieces that partial expansion leaves of an expression with the given
values. -/
inductive Residue (e : Expression) (values : List Resolved) : List Piece → Prop
  /-- All variables have values. -/
  | expanded : (∀ spec ∈ e.varspecs, store.Defines s spec.name) →
      Residue e values [.run (e.operator.rendered e.varspecs values)]
  /-- The expression stays as it was written. -/
  | kept : e.Open store s → (∀ op n, ¬ e.ResumesAt store s op n) →
      Residue e values [.body e.body]
  /-- The first `n` variables have values, the others go on under `op`. -/
  | resumed {op : Operator} {n : Nat} : e.ResumesAt store s op n →
      Residue e values [.run (e.operator.rendered (e.varspecs.take n) (values.take n)),
        .body (op.symbol ++ VarSpec.listToText (e.varspecs.drop n))]

end

variable {store : Store} {s : Settings} {e : Expression} {values : List Resolved}
  {pieces : List Piece} {op : Operator} {n : Nat}

/-- There is only one place at which an expression can go on, the end of the
leading values. -/
theorem ResumesAt.length_takeWhile (h : e.ResumesAt store s op n)
    (hvalues : store.meanings s e.varspecs = .ok values) :
    (values.takeWhile Resolved.isDefined).length = n := by
  have hdefined := (Store.forall_defines_iff (take_of_mapM hvalues n)).mp h.defined
  have hundefined := (Store.forall_not_defines_iff (drop_of_mapM hvalues n)).mp h.undefined
  -- all values in front are taken, and none behind them
  have hnone : (values.drop n).takeWhile Resolved.isDefined = [] := by
    rcases hback : values.drop n with - | ⟨value, rest⟩
    · rfl
    · have hd : value.isDefined = false := hundefined value (hback ▸ List.mem_cons_self)
      exact List.takeWhile_cons_of_neg (by rw [hd]; exact Bool.false_ne_true)
  have hlead : values.takeWhile Resolved.isDefined = values.take n := by
    have happend : (values.take n ++ values.drop n).takeWhile Resolved.isDefined
        = values.take n ++ (values.drop n).takeWhile Resolved.isDefined :=
      List.takeWhile_append_of_pos hdefined
    rwa [List.take_append_drop, hnone, List.append_nil] at happend
  rw [hlead, List.length_take_of_le]
  rw [length_of_mapM hvalues]
  exact Nat.le_of_lt h.lt

/-- Behind the leading values the expression goes on unless there are none or
another value follows. -/
theorem resumesAt_lead_iff (hvalues : store.meanings s e.varspecs = .ok values)
    (hop : e.operator.resumed? = some op) (hall : ¬ values.all Resolved.isDefined = true)
    (hn : (values.takeWhile Resolved.isDefined).length = n) :
    e.ResumesAt store s op n ↔ ¬ (n = 0 ∨ (values.drop n).any Resolved.isDefined = true) := by
  have htake : values.take n = values.takeWhile Resolved.isDefined := by
    rw [← hn]
    exact (List.prefix_iff_eq_take.mp (List.takeWhile_prefix _)).symm
  have hdefined : ∀ value ∈ values.take n, value.isDefined = true := by
    rw [htake]
    exact List.all_eq_true.mp List.all_takeWhile
  -- if the leading values were all, the expression would have been expanded
  have hlt : n < values.length := by
    refine Nat.lt_of_not_le fun hle => ?_
    rw [List.take_of_length_le hle] at hdefined
    exact hall (List.all_eq_true.mpr hdefined)
  rw [length_of_mapM hvalues] at hlt
  rw [not_or, List.any_eq_true]
  constructor
  · intro h
    refine ⟨Nat.ne_of_gt h.pos, ?_⟩
    rintro ⟨value, hvalue, hd⟩
    have hnone := (Store.forall_not_defines_iff (drop_of_mapM hvalues n)).mp h.undefined
    rw [hnone value hvalue] at hd
    cases hd
  · rintro ⟨hpos, hany⟩
    refine ⟨hop, Nat.pos_of_ne_zero hpos, hlt, ?_, ?_⟩
    · exact (Store.forall_defines_iff (take_of_mapM hvalues n)).mpr hdefined
    · refine (Store.forall_not_defines_iff (drop_of_mapM hvalues n)).mpr fun value hvalue => ?_
      exact Bool.eq_false_iff.mpr fun hd => hany ⟨value, hvalue, hd⟩

/-- Not all variables have values. -/
theorem open_of_not_all (hvalues : store.meanings s e.varspecs = .ok values)
    (hall : ¬ values.all Resolved.isDefined = true) : e.Open store s := by
  by_contra hnone
  rw [Open] at hnone
  push Not at hnone
  exact hall (List.all_eq_true.mpr ((Store.forall_defines_iff hvalues).mp hnone))

theorem not_resumesAt_of_none (hop : e.operator.resumed? = none) (op : Operator) (n : Nat) :
    ¬ e.ResumesAt store s op n := by
  intro h
  rw [h.resumed] at hop
  cases hop

/-- An expression that does not go on behind its leading values goes on nowhere. -/
theorem not_resumesAt_of_lead (hvalues : store.meanings s e.varspecs = .ok values)
    (hop : e.operator.resumed? = some op) (hall : ¬ values.all Resolved.isDefined = true)
    (hn : (values.takeWhile Resolved.isDefined).length = n)
    (hlead : n = 0 ∨ (values.drop n).any Resolved.isDefined = true) (op' : Operator) (n' : Nat) :
    ¬ e.ResumesAt store s op' n' := by
  intro h
  obtain rfl := (h.length_takeWhile hvalues).symm.trans hn
  obtain rfl := Option.some.inj (h.resumed.symm.trans hop)
  exact (resumesAt_lead_iff hvalues hop hall hn).mp h hlead

/-- Partial expansion writes a residue. -/
theorem exists_residue (hvalues : store.meanings s e.varspecs = .ok values) :
    ∃ pieces, e.Residue store s values pieces ∧
      (e.renderPartially values).outcome = .ok (Piece.allText pieces) := by
  have hsound := Store.meanings_sound hvalues
  have htext : ∀ text : Text, text = Piece.allText [.run text] :=
    fun text => (List.append_nil text).symm
  have hkept : Except.ok (ε := Failure) e.toText = .ok (Piece.allText [.body e.body]) :=
    congrArg Except.ok (List.append_nil e.toText).symm
  rw [renderPartially]
  split
  · next hall =>
    have hdefined := (Store.forall_defines_iff hvalues).mpr (List.all_eq_true.mp hall)
    refine ⟨_, .expanded hdefined, ?_⟩
    rw [e.outcome_render hsound, ← htext]
  · next hall =>
    have hsome := open_of_not_all hvalues hall
    dsimp only
    split
    · next hop => exact ⟨_, .kept hsome (not_resumesAt_of_none hop), hkept⟩
    · next op hop =>
      generalize hn : (values.takeWhile Resolved.isDefined).length = n
      split
      · next hlead =>
        exact ⟨_, .kept hsome (not_resumesAt_of_lead hvalues hop hall hn hlead), hkept⟩
      · next hlead =>
        refine ⟨_, .resumed ((resumesAt_lead_iff hvalues hop hall hn).mpr hlead), ?_⟩
        have htaken : ∀ value ∈ values.take n, value.Sound :=
          fun value hvalue => hsound value (List.mem_of_mem_take hvalue)
        rw [Traced.outcome_bind, outcome_render { e with varspecs := e.varspecs.take n } htaken]
        exact congrArg Except.ok (congrArg _ (List.append_nil _).symm)

/-- A printed body stands between braces. -/
theorem braceFree_print (op : Operator) {specs : List VarSpec} (h : VarSpec.WellFormedList specs) :
    Text.BraceFree (op.symbol ++ VarSpec.listToText specs) := by
  have hsymbol : Text.BraceFree op.symbol := by
    constructor <;> cases op <;> decide
  have hlist : Text.BraceFree (VarSpec.listToText specs) :=
    ⟨VarSpec.not_mem_listToText h.each rfl (by decide) (by decide) (by decide) (by decide),
      VarSpec.not_mem_listToText h.each rfl (by decide) (by decide) (by decide) (by decide)⟩
  exact Text.braceFree_append.mpr ⟨hsymbol, hlist⟩

/-- A residue can stand in a template, and its runs keep their form when they
are encoded. -/
theorem Residue.sound (h : e.Residue store s values pieces)
    (he : (Component.expression e).Sound) :
    ∀ piece ∈ pieces, piece.Sound ∧ piece.PercentClosed := by
  obtain ⟨hfree, hread⟩ := he
  have hlist := readBody_sound hread
  have hrun : ∀ {specs : List VarSpec}, (∀ spec ∈ specs, spec.WellFormed) → ∀ values,
      (Piece.run (e.operator.rendered specs values)).Sound ∧
        (Piece.run (e.operator.rendered specs values)).PercentClosed := by
    intro specs hspecs values
    have huri := e.operator.uriText_rendered hspecs values
    exact ⟨⟨huri.braceFree, huri.encodable⟩, percentClosed_of_uriText huri⟩
  cases h with
  | expanded _ => exact List.forall_mem_singleton.mpr (hrun hlist.each values)
  | kept _ _ => exact List.forall_mem_singleton.mpr ⟨⟨hfree, _, _, hread⟩, trivial⟩
  | @resumed op n h =>
    have hrest : VarSpec.WellFormedList (e.varspecs.drop n) := hlist.drop h.lt
    have hfront : ∀ spec ∈ e.varspecs.take n, spec.WellFormed :=
      fun spec hspec => hlist.each spec (List.mem_of_mem_take hspec)
    refine List.forall_mem_cons.mpr ⟨hrun hfront _, ?_⟩
    exact List.forall_mem_singleton.mpr
      ⟨⟨braceFree_print op hrest, op, _, readBody_print op hrest⟩, trivial⟩

/-- **A residue means what the expression means**, under every store that
keeps the values used so far. -/
theorem Residue.meaning (h : e.Residue store s values pieces)
    (he : (Component.expression e).Sound) {later : Store} (hkeeps : Store.Keeps s store later)
    (hvalues : store.meanings s e.varspecs = .ok values) :
    joinM (Piece.meaning later s) pieces = later.expansion s e.operator e.varspecs := by
  obtain ⟨-, hread⟩ := he
  have hlist := readBody_sound hread
  -- a run is encoded again when the template is expanded, which leaves it as it is
  have hagain : ∀ {specs : List VarSpec}, (∀ spec ∈ specs, spec.WellFormed) → ∀ values,
      encoded .reserved (e.operator.rendered specs values) = e.operator.rendered specs values :=
    fun hspecs values => encoded_of_uriText (e.operator.uriText_rendered hspecs values)
  cases h with
  | expanded hdefined =>
    have hd := (Store.forall_defines_iff hvalues).mp hdefined
    rw [Store.expansion, hkeeps.meanings hvalues hd, joinM_singleton, Piece.meaning,
      hagain hlist.each values]
    rfl
  | kept _ _ => rw [joinM_singleton, Piece.meaning_body hread]
  | @resumed op n h =>
    have hd := (Store.forall_defines_iff (take_of_mapM hvalues n)).mp h.defined
    have hn : n < values.length := by
      rw [length_of_mapM hvalues]
      exact h.lt
    have hrest : VarSpec.WellFormedList (e.varspecs.drop n) := hlist.drop h.lt
    have hfront : ∀ spec ∈ e.varspecs.take n, spec.WellFormed :=
      fun spec hspec => hlist.each spec (List.mem_of_mem_take hspec)
    rw [joinM_cons, joinM_singleton, Piece.meaning_body (readBody_print op hrest), Piece.meaning,
      hagain hfront, hkeeps.expansion_split hvalues h.resumed h.pos hn hd]
    rfl

end Expression

/-! ### The residue of components -/

namespace Component

variable {store : Store} {s : Settings} {c : Component} {cs : List Component}

/-- The pieces that partial expansion leaves of a component. -/
inductive Residue (store : Store) (s : Settings) : Component → List Piece → Prop
  | literal {text p} : Residue store s (.literal text p) [.run text]
  | expression {e values pieces} : store.meanings s e.varspecs = .ok values →
      e.Residue store s values pieces → Residue store s (.expression e) pieces

theorem outcome_expandPartially (store : Store) (s : Settings) (e : Expression) :
    ((Component.expression e).expandPartially store s).outcome
      = (store.meanings s e.varspecs).mapError (Refusal.failure e) >>= fun values =>
        (e.renderPartially values).outcome := by
  rw [expandPartially, Traced.outcome_bind, Expression.outcome_forEach_resolve]

/-- Only variables stand in the way of partial expansion. -/
theorem exists_outcome
    (h : ∀ e, c = .expression e → ∃ values, store.meanings s e.varspecs = .ok values) :
    ∃ text, (c.expandPartially store s).outcome = .ok text := by
  cases c with
  | literal text p => exact ⟨text, rfl⟩
  | expression e =>
    obtain ⟨values, hvalues⟩ := h e rfl
    obtain ⟨pieces, -, htext⟩ := Expression.exists_residue hvalues
    refine ⟨Piece.allText pieces, ?_⟩
    rw [outcome_expandPartially, hvalues]
    exact htext

/-- What partial expansion writes is the text of a residue. -/
theorem exists_residue {text : Text} (h : (c.expandPartially store s).outcome = .ok text) :
    ∃ pieces, c.Residue store s pieces ∧ Piece.allText pieces = text := by
  cases c with
  | literal t p =>
    obtain rfl := Except.ok.inj h
    exact ⟨_, .literal, List.append_nil t⟩
  | expression e =>
    rw [outcome_expandPartially] at h
    obtain ⟨values, hvalues, h⟩ := bind_eq_ok.mp h
    rw [mapError_eq_ok] at hvalues
    obtain ⟨pieces, hresidue, htext⟩ := Expression.exists_residue hvalues
    exact ⟨pieces, .expression hvalues hresidue, Except.ok.inj (htext.symm.trans h)⟩

theorem exists_residues {texts : List Text}
    (h : (cs.mapM fun c => (c.expandPartially store s).outcome) = .ok texts) :
    ∃ residues, List.Forall₂ (Component.Residue store s) cs residues ∧
      Piece.allText residues.flatten = texts.flatten := by
  induction cs generalizing texts with
  | nil =>
    obtain rfl := Except.ok.inj h
    exact ⟨[], .nil, rfl⟩
  | cons c cs ih =>
    obtain ⟨text, rest, rfl, htext, hrest⟩ := mapM_cons_eq_ok.mp h
    obtain ⟨pieces, hpieces, rfl⟩ := exists_residue htext
    obtain ⟨residues, hresidues, hflatten⟩ := ih hrest
    refine ⟨pieces :: residues, .cons hpieces hresidues, ?_⟩
    rw [List.flatten_cons, List.flatten_cons, Piece.allText_append, hflatten]

/-- The residue of a component can stand in a template. -/
theorem Residue.sound {pieces : List Piece} (h : c.Residue store s pieces) (hc : c.Sound) :
    ∀ piece ∈ pieces, piece.Sound := by
  cases h with
  | literal => exact List.forall_mem_singleton.mpr hc
  | expression _ hresidue => exact fun piece hpiece => (hresidue.sound hc piece hpiece).1

/-- The residue of a component means what the component means. -/
theorem Residue.meaning {pieces : List Piece} (h : c.Residue store s pieces) (hc : c.Sound)
    {later : Store} (hkeeps : Store.Keeps s store later) :
    joinM (Piece.meaning later s) pieces = c.meaning later s := by
  cases h with
  | literal => exact joinM_singleton _ _
  | expression hvalues hresidue => exact hresidue.meaning hc hkeeps hvalues

variable {residues : List (List Piece)}

theorem sound_residues (h : List.Forall₂ (Component.Residue store s) cs residues)
    (hcs : ∀ c ∈ cs, c.Sound) : ∀ piece ∈ residues.flatten, piece.Sound := by
  induction h with
  | nil => exact fun _ h => absurd h List.not_mem_nil
  | cons hresidue _ ih =>
    obtain ⟨hc, hcs⟩ := List.forall_mem_cons.mp hcs
    exact List.forall_mem_append.mpr ⟨hresidue.sound hc, ih hcs⟩

theorem meaning_residues (h : List.Forall₂ (Component.Residue store s) cs residues)
    (hcs : ∀ c ∈ cs, c.Sound) {later : Store} (hkeeps : Store.Keeps s store later) :
    joinM (Piece.meaning later s) residues.flatten = meaningAll later s cs := by
  induction h with
  | nil => rfl
  | cons hresidue _ ih =>
    obtain ⟨hc, hcs⟩ := List.forall_mem_cons.mp hcs
    rw [List.flatten_cons, joinM_append, meaningAll_cons, hresidue.meaning hc hkeeps, ih hcs]

end Component

/-! ### Templates -/

namespace Template

/-- Reading ends as it does without its reports. -/
theorem outcome_parseTraced (source : Text) :
    ((parseTraced source).mapError Failure.parse).outcome
      = (parse source).mapError Failure.parse := by
  rw [parseTraced]
  rcases parse source with e | t <;> rfl

/-- Partial expansion reads what it has written for the components. -/
theorem expandPartial_eq_ok {t p : Template} {store : Store} {s : Settings} :
    t.expandPartial store s = .ok p ↔ ∃ texts,
      (t.components.mapM fun c => (c.expandPartially store s).outcome) = .ok texts ∧
        parse texts.flatten = .ok p := by
  rw [expandPartial, expandPartialTraced, Traced.outcome_bind, Traced.outcome_forEach, bind_eq_ok]
  refine exists_congr fun texts => and_congr_right fun _ => ?_
  rw [outcome_parseTraced]
  rcases parse texts.flatten with e | p'
  · constructor <;> exact fun h => nomatch h
  · exact ⟨fun h => congrArg _ (Except.ok.inj h), fun h => congrArg _ (Except.ok.inj h)⟩

end Template

end UriExpansion
