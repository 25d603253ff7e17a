/-
UriExpansion/Proofs/FailureAgreement.lean

When expansion and partial expansion fail.

The two take different ways.  Expansion resolves and renders one component
after the other; partial expansion resolves all variables of an expression,
decides which of three texts to write, and reads what it has written for the
whole template.  Both can only fail where a value is resolved: renderings of
resolved values and literals of a template are encoded without fail, and what
partial expansion writes is a template again (`exists_parse_texts`).  Since both
resolve the same variables in the same order, each component fails in one way
(`Component.error?_expandPartially`), and so does the template
(`expandPartial_fails_as_expand`).
-/
import UriExpansion.Proofs.Residue

namespace UriExpansion

/-- A component fails in one way, whether it is expanded fully or partially. -/
theorem Component.error?_expandPartially {c : Component} (hc : c.Sound) (store : Store)
    (s : Settings) :
    error? (c.expandPartially store s).outcome = error? (c.expand store s).outcome := by
  cases c with
  | literal text p =>
    rw [outcome_expand_literal hc store s]
    rfl
  | expression e =>
    rw [outcome_expandPartially, expand, e.outcome_expand, Store.expansion]
    rcases hvalues : store.meanings s e.varspecs with r | values
    · rfl
    -- once the variables are resolved, neither can fail
    · obtain ⟨pieces, -, htext⟩ := Expression.exists_residue hvalues
      show error? (e.renderPartially values).outcome = none
      rw [htext]
      rfl

namespace Template

variable {t : Template} {store : Store} {s : Settings}

/-- What partial expansion writes for sound components is a template. -/
theorem exists_parse_texts {cs : List Component} (hcs : ∀ c ∈ cs, c.Sound) {texts : List Text}
    (h : (cs.mapM fun c => (c.expandPartially store s).outcome) = .ok texts) :
    ∃ p, parse texts.flatten = .ok p := by
  obtain ⟨residues, hresidues, htext⟩ := Component.exists_residues h
  rw [← htext]
  exact ⟨_, parse_pieces (Component.sound_residues hresidues hcs)⟩

/-- Reading adds no failure to partial expansion. -/
theorem error?_expandPartial (ht : ∀ c ∈ t.components, c.Sound) (store : Store) (s : Settings) :
    error? (t.expandPartial store s)
      = error? (t.components.mapM fun c => (c.expandPartially store s).outcome) := by
  rcases htexts : t.components.mapM fun c => (c.expandPartially store s).outcome with failure | texts
  · rw [expandPartial, expandPartialTraced, Traced.outcome_bind, Traced.outcome_forEach, htexts]
    rfl
  · obtain ⟨p, hp⟩ := exists_parse_texts ht htexts
    rw [expandPartial_eq_ok.mpr ⟨texts, htexts, hp⟩, htexts]
    rfl

theorem error?_expandPartial_eq_expand (ht : ∀ c ∈ t.components, c.Sound) (store : Store)
    (s : Settings) : error? (t.expandPartial store s) = error? (t.expand store s) := by
  have hexpand : error? (t.expand store s)
      = error? (t.components.mapM fun c => (c.expand store s).outcome) := by
    rw [expand, expandTraced, Traced.outcome_bind, Traced.outcome_forEach]
    exact error?_map _ List.flatten
  rw [error?_expandPartial ht, hexpand]
  exact error?_mapM_congr fun c hc => Component.error?_expandPartially (ht c hc) store s

/-- An expansion never ends in an error of reading. -/
theorem expand_ne_parse (ht : ∀ c ∈ t.components, c.Sound) (store : Store) (s : Settings)
    (e : ParseError) : t.expand store s ≠ .error (.parse e) := by
  intro h
  obtain ⟨x, -, r, -, hfailure⟩ := exists_of_expand_eq_error ht h
  cases r <;> cases hfailure

/-- **Expansion and partial expansion fail on the same inputs in the same
way.**  One fails with an error if and only if the other fails with that error,
one succeeds if and only if the other does, and partial expansion has no error
of reading of its own. -/
theorem expandPartial_fails_as_expand {source : Text} (ht : parse source = .ok t) (store : Store)
    (s : Settings) :
    (∀ failure, t.expandPartial store s = .error failure ↔ t.expand store s = .error failure) ∧
      ((∃ p, t.expandPartial store s = .ok p) ↔ ∃ out, t.expand store s = .ok out) ∧
      ∀ e, t.expandPartial store s ≠ .error (.parse e) := by
  have hsound := parse_sound ht
  have herror := error?_expandPartial_eq_expand hsound store s
  have hfails : ∀ failure,
      t.expandPartial store s = .error failure ↔ t.expand store s = .error failure := by
    intro failure
    rw [← error?_eq_some, ← error?_eq_some, herror]
  refine ⟨hfails, ?_, fun e h => expand_ne_parse hsound store s e ((hfails _).mp h)⟩
  rw [← error?_eq_none, ← error?_eq_none, herror]

/-- A variable without value keeps this expression as it is; the value behind
it is refused all the same. -/
theorem expandPartial_fails_kept :
    let store := Store.empty.set (lit "deep") (.list [.list [.str (lit "a")]])
    ∃ t err, parse (lit "/\x7bx\x7d\x7b+x,deep\x7d") = .ok t ∧
      t.expand store .standard = .error (.resolution err) ∧
      t.expandPartial store .standard = .error (.resolution err) ∧
      err.code = lit "E_NESTED_COMPOSITE" ∧ err.expression? = some (lit "\x7b+x,deep\x7d") ∧
      err.position? = some 4 := by
  intro store
  let t : Template := ⟨lit "/\x7bx\x7d\x7b+x,deep\x7d", [.literal (lit "/") 0,
    .expression ⟨lit "x", .simple, [⟨lit "x", .none⟩], 1⟩,
    .expression ⟨lit "+x,deep", .reserved, [⟨lit "x", .none⟩, ⟨lit "deep", .none⟩], 4⟩]⟩
  let err : ResolutionError :=
    ⟨.nestedComposite (lit "list"), some ⟨lit "deep", lit "\x7b+x,deep\x7d", 4⟩⟩
  have hparse : parse (lit "/\x7bx\x7d\x7b+x,deep\x7d") = .ok t :=
    eq_ok_of_toOption (by decide +kernel)
  have hexpand : t.expand store .standard = .error (.resolution err) :=
    error?_eq_some.mp (by decide +kernel)
  obtain ⟨hfails, -, -⟩ := expandPartial_fails_as_expand hparse store .standard
  exact ⟨t, err, hparse, hexpand, (hfails _).mpr hexpand, rfl, rfl, rfl⟩

end Template

end UriExpansion
