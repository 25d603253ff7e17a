/-
UriExpansion/Proofs/Policy.lean

What the two policies for values that do not resolve have in common, and in
what they differ.

A policy has no part in the resolution of a value (`Value.resolve_under`); it
only decides what a refusal does to the expansion.  So a name means one thing
under all policies unless its value is refused (`Store.cause?`).  Where refusals
are not final, a refused value might as well be taken out of the store
(`Store.meaning_withoutRefused`).  Where they are, the expansion ends with the
refusal of the first occurrence that has one (`Template.FirstRefused`).
`Template.expand_policies` puts these together for the templates that
`Template.parse` gives.
-/
import UriExpansion.Proofs.Meaning

namespace UriExpansion

/-! ### Resolution does not depend on the policy -/

/-- The same choices under another policy. -/
def Settings.under (s : Settings) (p : Policy) : Settings := { s with onResolutionError := p }

namespace Value

theorem scalarText?_under (s : Settings) (p : Policy) (v : Value) :
    v.scalarText? (s.under p) = v.scalarText? s := by
  cases v with
  | enumMember identity className name v =>
    rw [scalarText?, scalarText?, scalarText?_under s p v]
  | _ => rfl

theorem memberText_under (s : Settings) (p : Policy) (v : Value) :
    memberText (s.under p) v = memberText s v := by
  rw [memberText, memberText, scalarText?_under]

theorem keyText_under (s : Settings) (p : Policy) (k : Value) :
    keyText (s.under p) k = keyText s k := by
  rw [keyText, keyText, scalarText?_under]

theorem itemTexts_under (s : Settings) (p : Policy) (items : List Value) :
    itemTexts (s.under p) items = itemTexts s items := by
  induction items with
  | nil => rfl
  | cons v items ih => rw [itemTexts, itemTexts, ih, memberText_under]

theorem pairTexts_under (s : Settings) (p : Policy) (entries : List (Value × Value)) :
    pairTexts (s.under p) entries = pairTexts s entries := by
  induction entries with
  | nil => rfl
  | cons entry entries ih => rw [pairTexts, pairTexts, ih, memberText_under, keyText_under]

theorem resolveComposite_under (s : Settings) (p : Policy) (v : Value) :
    resolveComposite (s.under p) v = resolveComposite s v := by
  unfold resolveComposite
  simp only [itemTexts_under, pairTexts_under]

/-- **A value resolves in the same way under every policy.** -/
theorem resolve_under (s : Settings) (p : Policy) (v : Value) :
    v.resolve (s.under p) = v.resolve s := by
  rw [resolve, resolve, scalarText?_under, resolveComposite_under]

end Value

/-! ### Refused values -/

namespace Store

/-- Why the value of a name is refused, if it is. -/
def cause? (store : Store) (s : Settings) (name : Text) : Option ResolutionCause :=
  match ((store.get? name).getD .none).resolve s with
  | .error (.cause c) => some c
  | _ => none

/-- Every value of the store resolves or is refused. -/
def Settled (store : Store) (s : Settings) : Prop :=
  ∀ name v, store.get? name = some v → ∀ f, v.resolve s ≠ .error (.fault f)

/-- The store without the names whose values are refused. -/
def withoutRefused (store : Store) (s : Settings) : Store where
  entries := store.entries.filter fun e => (store.cause? s e.1).isNone
  nodup := store.nodup.sublist (List.filter_sublist.map Prod.fst)

/-- A store whose entries resolve or are refused is settled. -/
theorem settled_of_entries {store : Store} {s : Settings}
    (h : ∀ e ∈ store.entries, ∀ f, error? (e.2.resolve s) ≠ some (.fault f)) :
    store.Settled s := by
  intro name v hv f hfault
  have hmem : (name, v) ∈ store.entries := Entries.mem_of_get?_eq_some hv
  exact h (name, v) hmem f (error?_eq_some.mpr hfault)

theorem get?_withoutRefused (store : Store) (s : Settings) (name : Text) :
    (store.withoutRefused s).get? name
      = if (store.cause? s name).isNone then store.get? name else none :=
  Entries.get?_filter store.entries (fun name => (store.cause? s name).isNone) name

variable {store : Store} {s : Settings}

/-- Only a bound name can end in a fault. -/
theorem exists_of_resolve_eq_fault {name : Text} {f : Fault}
    (h : ((store.get? name).getD .none).resolve s = .error (.fault f)) :
    ∃ v, store.get? name = some v ∧ v.resolve s = .error (.fault f) := by
  rcases hv : store.get? name with - | v
  · rw [hv] at h
    cases h
  · rw [hv] at h
    exact ⟨v, rfl, h⟩

/-- What a name of a settled store comes to: a value, or the cause of a refusal. -/
theorem Settled.resolves (hs : store.Settled s) (name : Text) :
    (∃ value, ((store.get? name).getD .none).resolve s = .ok value ∧
        store.cause? s name = none) ∨
      ∃ c, ((store.get? name).getD .none).resolve s = .error (.cause c) ∧
        store.cause? s name = some c := by
  unfold cause?
  rcases hr : ((store.get? name).getD .none).resolve s with (c | f) | value
  · exact .inr ⟨c, rfl, rfl⟩
  · obtain ⟨v, hv, hfault⟩ := exists_of_resolve_eq_fault hr
    exact absurd hfault (hs name v hv f)
  · exact .inl ⟨value, rfl, rfl⟩

/-- A name whose value is not refused means one thing under every policy. -/
theorem Settled.meaning_of_cause?_eq_none (hs : store.Settled s) {name : Text}
    (h : store.cause? s name = none) :
    ∃ value, ∀ p, store.meaning (s.under p) name = .ok value := by
  rcases hs.resolves name with ⟨value, hvalue, -⟩ | ⟨c, -, hc⟩
  · refine ⟨value, fun p => ?_⟩
    rw [meaning, Value.resolve_under, hvalue]
  · rw [hc] at h
    cases h

/-- A refusal is final under the policy that makes it so. -/
theorem Settled.error?_meaning_abort (hs : store.Settled s) (name : Text) :
    error? (store.meaning (s.under .abort) name) = (store.cause? s name).map (.cause name) := by
  rcases hs.resolves name with ⟨value, hvalue, hc⟩ | ⟨c, hcause, hc⟩
  · rw [meaning, Value.resolve_under, hvalue, hc]
    rfl
  · rw [meaning, Value.resolve_under, hcause, hc]
    rfl

/-- Under any other policy a refused name counts as unbound. -/
theorem Settled.meaning_of_refused (hs : store.Settled s) {name : Text} {p : Policy}
    (hp : p ≠ .abort) (h : (store.cause? s name).isSome) :
    store.meaning (s.under p) name = .ok .undefined := by
  rcases hs.resolves name with ⟨value, -, hc⟩ | ⟨c, hcause, -⟩
  · rw [hc] at h
    cases h
  · rw [meaning, Value.resolve_under, hcause]
    cases p with
    | abort => exact absurd rfl hp
    | undefined => rfl

/-- Under any other policy the refused names might as well be unbound. -/
theorem Settled.meaning_withoutRefused (hs : store.Settled s) (name : Text) {p : Policy}
    (hp : p ≠ .abort) :
    (store.withoutRefused s).meaning (s.under p) name = store.meaning (s.under p) name := by
  rcases hc : store.cause? s name with - | c
  · rw [meaning, get?_withoutRefused, hc]
    rfl
  · rw [hs.meaning_of_refused hp (Option.isSome_of_eq_some hc), meaning, get?_withoutRefused, hc]
    rfl

/-- Where refusals are not final, only a fault leaves a name without a meaning. -/
theorem exists_meaning_iff (name : Text) (hp : s.onResolutionError ≠ .abort) :
    (∃ value, store.meaning s name = .ok value) ↔
      ∀ v f, store.get? name = some v → v.resolve s ≠ .error (.fault f) := by
  constructor
  · rintro ⟨value, hvalue⟩ v f hv hfault
    rw [meaning, hv, Option.getD_some, hfault] at hvalue
    cases hvalue
  · intro h
    unfold meaning
    rcases hr : ((store.get? name).getD .none).resolve s with (c | f) | value
    · cases hpolicy : s.onResolutionError with
      | abort => exact absurd hpolicy hp
      | undefined => exact ⟨.undefined, rfl⟩
    · obtain ⟨v, hv, hfault⟩ := exists_of_resolve_eq_fault hr
      exact absurd hfault (h v f hv)
    · exact ⟨value, rfl⟩

end Store

/-! ### Templates -/

namespace Template

variable {t : Template} {store : Store} {s : Settings}

/-- The first occurrence of a variable whose value is refused, and why it is. -/
structure FirstRefused (t : Template) (store : Store) (s : Settings) (e : Expression)
    (spec : VarSpec) (c : ResolutionCause) : Prop where
  first : ∃ before after, t.occurrences = before ++ (e, spec) :: after ∧
    ∀ x ∈ before, store.cause? s x.2.name = none
  refused : store.cause? s spec.name = some c

theorem FirstRefused.mem {e : Expression} {spec : VarSpec} {c : ResolutionCause}
    (h : t.FirstRefused store s e spec c) : (e, spec) ∈ t.occurrences := by
  obtain ⟨before, after, hoccurrences, -⟩ := h.first
  rw [hoccurrences]
  exact List.mem_append_right before List.mem_cons_self

/-- An expansion succeeds if every occurrence has a meaning. -/
theorem exists_expand_iff (hsound : ∀ c ∈ t.components, c.Sound) (store : Store) (s : Settings) :
    (∃ out, t.expand store s = .ok out) ↔
      ∀ x ∈ t.occurrences, ∃ value, store.meaning s x.2.name = .ok value := by
  rw [← error?_eq_none, error?_expand hsound, List.findSome?_eq_none_iff]
  simp only [Option.map_eq_none_iff, error?_eq_none]

/-- Where refusals are not final, an expansion succeeds if no value that it
needs ends in a fault. -/
theorem exists_expand_iff_resolve (hsound : ∀ c ∈ t.components, c.Sound) (store : Store)
    {s : Settings} (hp : s.onResolutionError ≠ .abort) :
    (∃ out, t.expand store s = .ok out) ↔ ∀ x ∈ t.occurrences,
      ∀ v f, store.get? x.2.name = some v → v.resolve s ≠ .error (.fault f) := by
  rw [exists_expand_iff hsound]
  exact forall₂_congr fun x _ => store.exists_meaning_iff x.2.name hp

/-- **Where refusals are final, an expansion fails for the first one.** -/
theorem expand_abort_eq_error (hsound : ∀ c ∈ t.components, c.Sound) (hs : store.Settled s)
    {failure : Failure} : t.expand store (s.under .abort) = .error failure ↔
      ∃ e spec c, t.FirstRefused store s e spec c ∧
        failure = .resolution ⟨c, some ⟨spec.name, e.toText, e.position⟩⟩ := by
  rw [← error?_eq_some, error?_expand hsound, List.findSome?_eq_some_iff]
  simp only [hs.error?_meaning_abort, Option.map_map, Option.map_eq_some_iff,
    Option.map_eq_none_iff, Function.comp_apply]
  constructor
  · rintro ⟨before, ⟨e, spec⟩, after, hoccurrences, ⟨c, hc, rfl⟩, hbefore⟩
    exact ⟨e, spec, c, ⟨⟨before, after, hoccurrences, hbefore⟩, hc⟩, rfl⟩
  · rintro ⟨e, spec, c, ⟨⟨before, after, hoccurrences, hbefore⟩, hc⟩, rfl⟩
    exact ⟨before, (e, spec), after, hoccurrences, ⟨c, hc, rfl⟩, hbefore⟩

/-- If an occurrence is refused, then one is the first that is. -/
theorem exists_firstRefused {x : Expression × VarSpec} (hx : x ∈ t.occurrences)
    (h : (store.cause? s x.2.name).isSome) : ∃ e spec c, t.FirstRefused store s e spec c := by
  have hsome : (t.occurrences.findSome? fun x => store.cause? s x.2.name).isSome :=
    List.findSome?_isSome_iff.mpr ⟨x, hx, h⟩
  obtain ⟨c, hc⟩ := Option.isSome_iff_exists.mp hsome
  obtain ⟨before, y, after, hoccurrences, hy, hbefore⟩ := List.findSome?_eq_some_iff.mp hc
  exact ⟨y.1, y.2, c, ⟨before, after, hoccurrences, hbefore⟩, hy⟩

/-- **The policies differ only in what a refused value does.**  Where refusals
are not final, the expansion is the one without the refused names.  Where they
are, the first refused occurrence ends it, and the error names the variable and
the text that stands at its position.  Without a refused occurrence all
policies give one text. -/
theorem expand_policies {source : Text} (ht : parse source = .ok t) (hs : store.Settled s) :
    (∀ p, p ≠ .abort → ∃ out, t.expand store (s.under p) = .ok out ∧
        t.expand (store.withoutRefused s) (s.under p) = .ok out) ∧
      ((∃ err, t.expand store (s.under .abort) = .error (.resolution err)) ↔
        ∃ x ∈ t.occurrences, (store.cause? s x.2.name).isSome) ∧
      (∀ err, t.expand store (s.under .abort) = .error (.resolution err) →
        ∃ e spec c, t.FirstRefused store s e spec c ∧ err.code = c.code ∧
          err.message = lit "variable '" ++ spec.name ++ lit "': " ++ c.message ∧
          err.expression? = some e.toText ∧ err.position? = some e.position ∧
          (t.source.drop e.position).take e.toText.length = e.toText) ∧
      ((∀ x ∈ t.occurrences, store.cause? s x.2.name = none) →
        ∃ out, ∀ p, t.expand store (s.under p) = .ok out) := by
  have hsound : ∀ c ∈ t.components, c.Sound := parse_sound ht
  refine ⟨fun p hp => ?isolation, ?refusal, fun err herr => ?first, fun hnone => ?agreement⟩
  case isolation =>
    obtain ⟨out, hout⟩ := (exists_expand_iff_resolve hsound store hp).mpr fun x _ v f hv => by
      rw [Value.resolve_under]
      exact hs x.2.name v hv f
    refine ⟨out, hout, ?_⟩
    rw [expand_congr fun x _ => hs.meaning_withoutRefused x.2.name hp]
    exact hout
  case refusal =>
    constructor
    · rintro ⟨err, herr⟩
      obtain ⟨e, spec, c, hfirst, -⟩ := (expand_abort_eq_error hsound hs).mp herr
      exact ⟨(e, spec), hfirst.mem, Option.isSome_of_eq_some hfirst.refused⟩
    · rintro ⟨x, hx, hrefused⟩
      obtain ⟨e, spec, c, hfirst⟩ := exists_firstRefused hx hrefused
      exact ⟨_, (expand_abort_eq_error hsound hs).mpr ⟨e, spec, c, hfirst, rfl⟩⟩
  case first =>
    obtain ⟨e, spec, c, hfirst, hfailure⟩ := (expand_abort_eq_error hsound hs).mp herr
    obtain rfl := Failure.resolution.inj hfailure
    have hstands := parse_standsIn ht (.expression e) (mem_occurrences.mp hfirst.mem).1
    exact ⟨e, spec, c, hfirst, rfl, rfl, rfl, rfl, hstands⟩
  case agreement =>
    have hone : ∀ p x, x ∈ t.occurrences →
        store.meaning (s.under .abort) x.2.name = store.meaning (s.under p) x.2.name := by
      intro p x hx
      obtain ⟨value, hvalue⟩ := hs.meaning_of_cause?_eq_none (hnone x hx)
      rw [hvalue, hvalue]
    obtain ⟨out, hout⟩ := (exists_expand_iff hsound store (s.under .abort)).mpr fun x hx =>
      (hs.meaning_of_cause?_eq_none (hnone x hx)).imp fun _ h => h .abort
    refine ⟨out, fun p => ?_⟩
    rw [← expand_congr (hone p)]
    exact hout

/-- Two values that are refused, one of them twice, beside one that is not. -/
theorem expand_policies_nested :
    let store := Store.ofList [(lit "x", .str (lit "1")),
      (lit "deep", .list [.list [.str (lit "a")]]), (lit "f", .function 0 (lit "f"))]
    ∃ t err, parse (lit "\x7bx,deep\x7d\x7b?f,x,deep\x7d") = .ok t ∧ store.Settled .standard ∧
      t.expand store (Settings.standard.under .undefined) = .ok (lit "1?x=1") ∧
      t.expand (store.withoutRefused .standard) (Settings.standard.under .undefined)
        = .ok (lit "1?x=1") ∧
      t.expand store (Settings.standard.under .abort) = .error (.resolution err) ∧
      err.message = lit "variable 'deep': list and map members must be scalars, got list" ∧
      ∃ e spec c, t.FirstRefused store .standard e spec c ∧
        c.code = lit "E_NESTED_COMPOSITE" ∧ e.toText = lit "\x7bx,deep\x7d" ∧ e.position = 0 := by
  intro store
  let e : Expression :=
    ⟨lit "x,deep", .simple, [⟨lit "x", .none⟩, ⟨lit "deep", .none⟩], 0⟩
  let t : Template := ⟨lit "\x7bx,deep\x7d\x7b?f,x,deep\x7d", [.expression e,
    .expression ⟨lit "?f,x,deep", .query,
      [⟨lit "f", .none⟩, ⟨lit "x", .none⟩, ⟨lit "deep", .none⟩], 8⟩]⟩
  let err : ResolutionError :=
    ⟨.nestedComposite (lit "list"), some ⟨lit "deep", lit "\x7bx,deep\x7d", 0⟩⟩
  have hparse : parse (lit "\x7bx,deep\x7d\x7b?f,x,deep\x7d") = .ok t :=
    eq_ok_of_toOption (by decide +kernel)
  have hsettled : store.Settled .standard := by
    apply Store.settled_of_entries
    show ∀ e ∈ [_, _, _], _
    refine List.forall_mem_cons.mpr ⟨?_, List.forall_mem_cons.mpr ⟨?_, ?_⟩⟩
    · exact fun f h => nomatch h
    · exact fun f h => nomatch h
    · exact List.forall_mem_singleton.mpr fun f h => nomatch h
  have herr : t.expand store (Settings.standard.under .abort) = .error (.resolution err) :=
    error?_eq_some.mp (by decide +kernel)
  obtain ⟨hisolation, -, hfirst, -⟩ := expand_policies hparse hsettled
  obtain ⟨out, hout, hwithout⟩ := hisolation .undefined (by decide)
  obtain rfl : lit "1?x=1" = out :=
    Except.ok.inj ((eq_ok_of_toOption (by decide +kernel)).symm.trans hout)
  obtain ⟨e', spec, c, hrefused, hcode, -, hexpression, hposition, -⟩ := hfirst err herr
  refine ⟨t, err, hparse, hsettled, hout, hwithout, herr, by decide +kernel, ?_⟩
  exact ⟨e', spec, c, hrefused, hcode.symm, (Option.some.inj hexpression).symm,
    (Option.some.inj hposition).symm⟩

end Template

end UriExpansion
