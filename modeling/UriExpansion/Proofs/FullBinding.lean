/-
UriExpansion/Proofs/FullBinding.lean

Partial expansion when every variable has a value.

Nothing is left to expand then, and the result is a template without
expressions.  Its text holds the literals as they were written, between values
that are encoded, and it is encoded as a whole when it is expanded, whereas
`Template.expand` encodes each literal on its own.  The two agree unless a
percent sign of a literal finds its digits behind the literal
(`Component.CompletesTriplet`): then it is taken for the beginning of a triplet
and kept (`expand_expandPartial_iff`).
-/
import UriExpansion.Proofs.Residue

namespace UriExpansion

open Percent

/-! ### Triplets that partial expansion completes -/

/-- A percent sign that begins no triplet of its literal begins one in the text
that partial expansion writes. -/
def Component.CompletesTriplet (store : Store) (s : Settings) (cs : List Component) : Prop :=
  ∃ before text position after parts, cs = before ++ .literal text position :: after ∧
    (Traced.forEach (Component.expandPartially store s) after).outcome = .ok parts ∧
    SplitsTriplet text parts.flatten

/-! ### Components whose variables have values -/

/-- The variables of the component have values. -/
def Component.Bound (store : Store) (s : Settings) (c : Component) : Prop :=
  ∀ e, c = .expression e → ∀ spec ∈ e.varspecs, store.Defines s spec.name

theorem Store.exists_meanings {store : Store} {s : Settings} {specs : List VarSpec}
    (h : ∀ spec ∈ specs, store.Defines s spec.name) :
    ∃ values, store.meanings s specs = .ok values ∧ ∀ value ∈ values, value.isDefined = true := by
  have hmeaning : ∀ spec ∈ specs, ∃ value, store.meaning s spec.name = .ok value := by
    intro spec hspec
    obtain ⟨value, hvalue, -⟩ := (h spec hspec).meaning
    exact ⟨value, hvalue⟩
  obtain ⟨values, hvalues⟩ := exists_mapM_eq_ok_iff.mpr hmeaning
  exact ⟨values, hvalues, (forall_defines_iff hvalues).mp h⟩

/-- What partial expansion writes for a component is what expansion encodes. -/
theorem Component.exists_part {store : Store} {s : Settings} {c : Component} (hc : c.Sound)
    (hbound : c.Bound store s) : ∃ part, (c.expandPartially store s).outcome = .ok part ∧
      c.meaning store s = .ok (encoded .reserved part) ∧
      (Text.BraceFree part ∧ Text.Encodable part) ∧
      ∀ u, SplitsTriplet part u → ∃ position, c = .literal part position := by
  cases c with
  | literal text position => exact ⟨text, rfl, rfl, hc, fun _ _ => ⟨position, rfl⟩⟩
  | expression e =>
    obtain ⟨values, hvalues, hd⟩ := Store.exists_meanings (hbound e rfl)
    have huri : UriText (e.operator.rendered e.varspecs values) :=
      e.operator.uriText_rendered (Expression.readBody_sound hc.2).each values
    refine ⟨e.operator.rendered e.varspecs values, ?_, ?_, ⟨huri.braceFree, huri.encodable⟩, ?_⟩
    · rw [expandPartially, Traced.outcome_bind, Expression.outcome_forEach_resolve, hvalues]
      show (e.renderPartially values).outcome = _
      rw [Expression.renderPartially, if_pos (List.all_eq_true.mpr hd),
        e.outcome_render (Store.meanings_sound hvalues)]
    · rw [meaning, Store.expansion, hvalues, encoded_of_uriText huri]
      rfl
    · exact fun u hsplit =>
        absurd hsplit (not_splitsTriplet_of_percentClosed (percentClosed_of_uriText huri) u)

theorem Component.exists_parts {store : Store} {s : Settings} {cs : List Component}
    (hsound : ∀ c ∈ cs, c.Sound) (hbound : ∀ c ∈ cs, c.Bound store s) :
    ∃ parts, (Traced.forEach (Component.expandPartially store s) cs).outcome = .ok parts ∧
      meaningAll store s cs = .ok (parts.map (encoded .reserved)).flatten ∧
      (Text.BraceFree parts.flatten ∧ Text.Encodable parts.flatten) ∧
      (SplitsAmong parts ↔ CompletesTriplet store s cs) := by
  induction cs with
  | nil =>
    refine ⟨[], rfl, rfl, ⟨Text.braceFree_nil, fun _ h => absurd h List.not_mem_nil⟩, ?_⟩
    constructor
    · exact fun h => nomatch h
    · rintro ⟨before, text, position, after, parts, heq, -⟩
      cases before <;> cases heq
  | cons c cs ih =>
    obtain ⟨hc, hcs⟩ := List.forall_mem_cons.mp hsound
    obtain ⟨hb, hbs⟩ := List.forall_mem_cons.mp hbound
    obtain ⟨part, hpart, hmeaning, hfree, hliteral⟩ := exists_part hc hb
    obtain ⟨parts, hparts, hmeanings, hfrees, hsplit⟩ := ih hcs hbs
    refine ⟨part :: parts, ?_, ?_, ?_, ?_⟩
    · rw [Traced.outcome_forEach] at hparts ⊢
      exact mapM_cons_eq_ok.mpr ⟨part, parts, rfl, hpart, hparts⟩
    · rw [meaningAll_cons, hmeaning, hmeanings]
      rfl
    · rw [List.flatten_cons]
      exact ⟨Text.braceFree_append.mpr ⟨hfree.1, hfrees.1⟩,
        Text.encodable_append.mpr ⟨hfree.2, hfrees.2⟩⟩
    · rw [SplitsAmong, hsplit]
      constructor
      · rintro (hsplit | ⟨before, text, position, after, parts', rfl, hafter⟩)
        -- a rendering splits nothing, so that it was a literal
        · obtain ⟨position, rfl⟩ := hliteral _ hsplit
          exact ⟨[], part, position, cs, parts, rfl, hparts, hsplit⟩
        · exact ⟨c :: before, text, position, after, parts', rfl, hafter⟩
      · rintro ⟨before, text, position, after, parts', heq, hafter, hsplit⟩
        cases before with
        | nil =>
          obtain ⟨rfl, rfl⟩ := List.cons.inj heq
          obtain rfl := Except.ok.inj hpart
          obtain rfl := Except.ok.inj (hparts.symm.trans hafter)
          exact .inl hsplit
        | cons d before =>
          obtain ⟨-, hrest⟩ := List.cons.inj heq
          exact .inr ⟨before, text, position, after, parts', hrest, hafter, hsplit⟩

/-! ### Templates whose variables have values -/

namespace Template

/-- The variables of every component are variables of the template. -/
theorem bound_of_variableNames {t : Template} {store : Store} {s : Settings}
    (h : ∀ name ∈ t.variableNames, store.Defines s name) :
    ∀ c ∈ t.components, c.Bound store s := by
  rintro c hc e rfl spec hspec
  exact h spec.name (mem_variableNames.mpr ⟨e, mem_expressions.mpr hc, List.mem_map_of_mem hspec⟩)

/-- **Full binding agrees with expansion exactly where it completes no
triplet.**  With values for all variables, partial expansion leaves a template
without expressions, both it and the template itself expand, and to the same
text unless a percent sign of a literal has found its digits behind the
literal. -/
theorem expand_expandPartial_iff {source : Text} {t : Template} (ht : parse source = .ok t)
    {store : Store} {s : Settings} (hdefined : ∀ name ∈ t.variableNames, store.Defines s name) :
    ∃ p out out', t.expandPartial store s = .ok p ∧ p.expressions = [] ∧
      t.expand store s = .ok out ∧ (∀ s', p.expand .empty s' = .ok out') ∧
      (out' = out ↔ ¬ Component.CompletesTriplet store s t.components) := by
  have hsound := parse_sound ht
  obtain ⟨parts, hparts, hmeaning, ⟨hfree, henc⟩, hsplit⟩ :=
    Component.exists_parts hsound (bound_of_variableNames hdefined)
  obtain ⟨p, hparse, hnone, hexpand⟩ := exists_parse_plain hfree henc
  rw [Traced.outcome_forEach] at hparts
  refine ⟨p, (parts.map (encoded .reserved)).flatten, encoded .reserved parts.flatten,
    expandPartial_eq_ok.mpr ⟨parts, hparts, hparse⟩, hnone, ?_, hexpand .empty, ?_⟩
  · exact ((expand_located hsound store s).ok_iff _).mpr hmeaning
  · rw [encoded_flatten_iff, hsplit]

/-- A percent sign does no harm where no digits follow. -/
theorem expandPartial_percent_off :
    let store := Store.empty.set (lit "x") (.str (lit "off"))
    ∃ t p, parse (lit "100%\x7bx\x7d") = .ok t ∧
      (∀ name ∈ t.variableNames, store.Defines .standard name) ∧
      t.expandPartial store .standard = .ok p ∧
      t.expand store .standard = .ok (lit "100%25off") ∧
      p.expand .empty .standard = .ok (lit "100%25off") ∧
      ¬ Component.CompletesTriplet store .standard t.components := by
  intro store
  let t : Template := ⟨lit "100%\x7bx\x7d", [.literal (lit "100%") 0,
    .expression ⟨lit "x", .simple, [⟨lit "x", .none⟩], 4⟩]⟩
  let p : Template := ⟨lit "100%off", [.literal (lit "100%off") 0]⟩
  have hparse : parse (lit "100%\x7bx\x7d") = .ok t := eq_ok_of_toOption (by decide +kernel)
  have hdefined : ∀ name ∈ t.variableNames, store.Defines .standard name := by
    intro name hname
    obtain rfl : name = lit "x" := List.mem_singleton.mp hname
    exact ⟨.str (lit "off"), .scalar (lit "off"), rfl, rfl, rfl⟩
  have hp : t.expandPartial store .standard = .ok p := eq_ok_of_toOption (by decide +kernel)
  have hplain : t.expand store .standard = .ok (lit "100%25off") :=
    eq_ok_of_toOption (by decide +kernel)
  have hbound : p.expand .empty .standard = .ok (lit "100%25off") :=
    eq_ok_of_toOption (by decide +kernel)
  -- the two expansions agree, so that the theorem denies that a triplet is completed
  obtain ⟨q, out, out', hq, -, hout, hout', hiff⟩ := expand_expandPartial_iff hparse hdefined
  obtain rfl := Except.ok.inj (hq.symm.trans hp)
  obtain rfl := Except.ok.inj (hout.symm.trans hplain)
  obtain rfl := Except.ok.inj ((hout' .standard).symm.trans hbound)
  exact ⟨t, p, hparse, hdefined, hp, hplain, hbound, hiff.mp rfl⟩

/-- **Full binding is not expansion.**  The percent sign of this template is
encoded by expansion; after partial expansion it takes the value for its
digits. -/
theorem expand_expandPartial_percent :
    let store := Store.empty.set (lit "x") (.str (lit "41"))
    ∃ t p, parse (lit "%\x7bx\x7d") = .ok t ∧
      (∀ name ∈ t.variableNames, store.Defines .standard name) ∧
      t.expandPartial store .standard = .ok p ∧
      t.expand store .standard = .ok (lit "%2541") ∧
      p.expand .empty .standard = .ok (lit "%41") ∧
      p.expand .empty .standard ≠ t.expand store .standard := by
  intro store
  let t : Template := ⟨lit "%\x7bx\x7d", [.literal (lit "%") 0,
    .expression ⟨lit "x", .simple, [⟨lit "x", .none⟩], 1⟩]⟩
  let p : Template := ⟨lit "%41", [.literal (lit "%41") 0]⟩
  have hparse : parse (lit "%\x7bx\x7d") = .ok t := eq_ok_of_toOption (by decide +kernel)
  have hdefined : ∀ name ∈ t.variableNames, store.Defines .standard name := by
    intro name hname
    obtain rfl : name = lit "x" := List.mem_singleton.mp hname
    exact ⟨.str (lit "41"), .scalar (lit "41"), rfl, rfl, rfl⟩
  have hp : t.expandPartial store .standard = .ok p := eq_ok_of_toOption (by decide +kernel)
  have hplain : t.expand store .standard = .ok (lit "%2541") :=
    eq_ok_of_toOption (by decide +kernel)
  have hbound : p.expand .empty .standard = .ok (lit "%41") :=
    eq_ok_of_toOption (by decide +kernel)
  refine ⟨t, p, hparse, hdefined, hp, hplain, hbound, ?_⟩
  rw [hplain, hbound]
  exact fun heq => absurd (Except.ok.inj heq) (by decide +kernel)

end Template

end UriExpansion
