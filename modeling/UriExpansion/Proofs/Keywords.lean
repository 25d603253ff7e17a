/-
UriExpansion/Proofs/Keywords.lean

Bindings given by keyword.

Keywords are bindings that come after those of the store: of several bindings
of a name the last one counts (`Store.Overrides`).  An expansion depends on what
the names are bound to and on nothing else, so that it makes no difference
whether bindings are given by keyword or stand in the store
(`Template.expandSource_eq_of_overrides`), unless one of the keywords has the
name of a parameter of those functions that build the store.  Such a call is
refused before anything is looked up, although in a template the name is one
like any other.  An expansion itself ends in faults of values only
(`Template.fault_of_expand`), so that it is exactly then that the two ways differ
(`Template.expandSource_keywords_iff`).
-/
import UriExpansion.Proofs.Dependence
import UriExpansion.Proofs.Faults

namespace UriExpansion

/-! ### Stores with further bindings -/

namespace Store

/-- The parameters of the functions that build the store of an expansion. -/
def storeParameters : List Text := lit "variables" :: buildParameters

/-- The merged store has the bindings of the keywords, the last of each name,
and those of the store for all other names. -/
def Overrides (merged store : Store) (keywords : List (Text × Value)) : Prop :=
  ∀ name, merged.get? name = (Entries.get? keywords.reverse name).or (store.get? name)

variable {store merged : Store} {keywords : List (Text × Value)}

theorem overrides_setAll (store : Store) (keywords : List (Text × Value)) :
    (store.setAll keywords).Overrides store keywords :=
  Entries.get?_setAll store.entries keywords

theorem Overrides.get?_eq {merged' : Store} (h : merged.Overrides store keywords)
    (h' : merged'.Overrides store keywords) (name : Text) : merged.get? name = merged'.get? name :=
  (h name).trans (h' name).symm

/-- Keywords are refused for the first of them that has the name of a parameter. -/
theorem withKeywords_cases (parameters : List Text) (store : Store)
    (keywords : List (Text × Value)) :
    ((∀ e ∈ keywords, e.1 ∉ parameters) ∧
      store.withKeywords parameters keywords = .ok (store.setAll keywords)) ∨
    ∃ e ∈ keywords, e.1 ∈ parameters ∧
      store.withKeywords parameters keywords = .error (.reservedKeyword e.1) := by
  unfold withKeywords
  split
  · next name v hfind =>
    have hreserved := List.find?_some hfind
    exact .inr ⟨(name, v), List.mem_of_find?_eq_some hfind, List.contains_iff_mem.mp hreserved, rfl⟩
  · next hfind =>
    refine .inl ⟨fun e he hmem => ?_, rfl⟩
    exact List.find?_eq_none.mp hfind e he (List.contains_iff_mem.mpr hmem)

end Store

/-! ### Expansions with keywords -/

namespace Template

variable {source : Text} {t : Template} {store merged : Store} {keywords : List (Text × Value)}

/-- The store is built before anything of it is looked up. -/
theorem outcome_expandSource (h : parse source = .ok t) (store : Store)
    (keywords : List (Text × Value)) (s : Settings) :
    (expandSource source store keywords s).outcome
      = (store.withKeywords Store.expansionParameters keywords).mapError Failure.fault >>=
        fun merged => t.expand merged s := by
  rw [expandSource, Traced.outcome_bind, outcome_parseTraced, h]
  exact Traced.outcome_bind _ _

theorem outcome_expandPartialSource (h : parse source = .ok t) (store : Store)
    (keywords : List (Text × Value)) (s : Settings) :
    (expandPartialSource source store keywords s).outcome
      = (store.withKeywords Store.expansionParameters keywords).mapError Failure.fault >>=
        fun merged => t.expandPartial merged s := by
  rw [expandPartialSource, Traced.outcome_bind, outcome_parseTraced, h]
  exact Traced.outcome_bind _ _

/-- Keywords that are no parameters do what the same bindings do in the store,
reports included. -/
theorem expandSource_eq_of_overrides (hfree : ∀ e ∈ keywords, e.1 ∉ Store.expansionParameters)
    (hmerged : merged.Overrides store keywords) (source : Text) (s : Settings) :
    expandSource source store keywords s = expandSource source merged [] s ∧
      expandPartialSource source store keywords s = expandPartialSource source merged [] s := by
  have hkeywords : store.withKeywords Store.expansionParameters keywords
      = .ok (store.setAll keywords) := by
    rcases store.withKeywords_cases Store.expansionParameters keywords with ⟨-, h⟩ | ⟨e, he, hmem, -⟩
    · exact h
    · exact absurd hmem (hfree e he)
  have hnone : merged.withKeywords Store.expansionParameters [] = .ok merged := rfl
  -- reading is the same on both sides, and behind it the stores agree on all names
  have hagree : ∀ names, (store.setAll keywords).Agree merged names := fun names name _ =>
    congrArg (Option.getD · Value.none)
      ((Store.overrides_setAll store keywords).get?_eq hmerged name)
  constructor
  · rw [expandSource, expandSource, hkeywords, hnone]
    refine congrArg _ (funext fun t => ?_)
    exact expandTraced_congr (hagree t.variableNames) s
  · rw [expandPartialSource, expandPartialSource, hkeywords, hnone]
    refine congrArg _ (funext fun t => ?_)
    exact expandPartialTraced_congr (hagree t.variableNames) s

/-- **Keyword bindings are ordinary bindings that win, exactly if none has the
name of a parameter.**  For keywords other than the one of the settings, both
expansions end with them as they end with a store that is `merged`, and make the
same reports, unless a keyword has the name of a parameter by which the store is
built; then both are refused, whatever the template, the store and the settings
are. -/
theorem expandSource_keywords_iff (ht : parse source = .ok t)
    (hsettings : ∀ e ∈ keywords, e.1 ≠ lit "settings")
    (hmerged : merged.Overrides store keywords) (s : Settings) :
    ((expandSource source store keywords s).outcome = t.expand merged s ↔
        ∀ e ∈ keywords, e.1 ∉ Store.storeParameters) ∧
      ((expandPartialSource source store keywords s).outcome = t.expandPartial merged s ↔
        ∀ e ∈ keywords, e.1 ∉ Store.storeParameters) ∧
      ((∀ e ∈ keywords, e.1 ∉ Store.storeParameters) →
        expandSource source store keywords s = expandSource source merged [] s ∧
          expandPartialSource source store keywords s
            = expandPartialSource source merged [] s) ∧
      ((∃ e ∈ keywords, e.1 ∈ Store.storeParameters) →
        ∃ e ∈ keywords, e.1 ∈ Store.storeParameters ∧
          (expandSource source store keywords s).outcome
            = .error (.fault (.reservedKeyword e.1)) ∧
          (expandPartialSource source store keywords s).outcome
            = .error (.fault (.reservedKeyword e.1))) := by
  have hfull := outcome_expandSource ht
  have hpartial := outcome_expandPartialSource ht
  -- without keywords an expansion is that of the store
  have hmergedFull : (expandSource source merged [] s).outcome = t.expand merged s :=
    hfull merged [] s
  have hmergedPartial : (expandPartialSource source merged [] s).outcome
      = t.expandPartial merged s := hpartial merged [] s
  rcases store.withKeywords_cases Store.expansionParameters keywords with
    ⟨hfree, -⟩ | ⟨e, he, hmem, hrefused⟩
  · have hnames : ∀ e ∈ keywords, e.1 ∉ Store.storeParameters :=
      fun e he hmem => hfree e he (List.mem_cons_of_mem _ hmem)
    obtain ⟨heq, heqPartial⟩ := expandSource_eq_of_overrides hfree hmerged source s
    refine ⟨iff_of_true ?_ hnames, iff_of_true ?_ hnames, fun _ => ⟨heq, heqPartial⟩, ?_⟩
    · rw [heq, hmergedFull]
    · rw [heqPartial, hmergedPartial]
    · rintro ⟨e, he, hmem⟩
      exact absurd hmem (hnames e he)
  · have hname : e.1 ∈ Store.storeParameters := (List.mem_cons.mp hmem).resolve_left (hsettings e he)
    have hnot : ¬ ∀ e ∈ keywords, e.1 ∉ Store.storeParameters := fun hnames => hnames e he hname
    have hrefusedFull := hfull store keywords s
    have hrefusedPartial := hpartial store keywords s
    rw [hrefused] at hrefusedFull hrefusedPartial
    have hsound := parse_sound ht
    refine ⟨iff_of_false (fun h => ?_) hnot, iff_of_false (fun h => ?_) hnot,
      fun hnames => absurd hnames hnot, fun _ => ⟨e, he, hname, hrefusedFull, hrefusedPartial⟩⟩
    -- the name of a keyword is no fault of a value
    · cases fault_of_expand hsound (h.symm.trans hrefusedFull)
    · cases fault_of_expandPartial hsound (h.symm.trans hrefusedPartial)

/-- A keyword wins over the binding of the store, another one is added, and the
order in which the merged store has them does not matter. -/
theorem expandSource_keywords_override :
    let store := Store.ofList [(lit "q", .str (lit "old")), (lit "lang", .str (lit "en"))]
    let keywords := [(lit "page", Value.int 3), (lit "q", .str (lit "new"))]
    let merged := Store.ofList
      [(lit "page", .int 3), (lit "lang", .str (lit "en")), (lit "q", .str (lit "new"))]
    let source := lit "\x7b?q,page,lang\x7d"
    (∀ e ∈ keywords, e.1 ≠ lit "settings") ∧ merged.Overrides store keywords ∧
      merged.names ≠ (store.setAll keywords).names ∧
      (expandSource source store keywords .standard).outcome = .ok (lit "?q=new&page=3&lang=en") ∧
      expandSource source store keywords .standard = expandSource source merged [] .standard := by
  intro store keywords merged source
  let t : Template := ⟨source, [.expression
    ⟨lit "?q,page,lang", .query, [⟨lit "q", .none⟩, ⟨lit "page", .none⟩, ⟨lit "lang", .none⟩], 0⟩]⟩
  have hparse : parse source = .ok t := eq_ok_of_toOption (by decide +kernel)
  have hsettings : ∀ e ∈ keywords, e.1 ≠ lit "settings" := by decide
  have hmerged : merged.Overrides store keywords := by
    intro name
    show Entries.get? [(lit "page", Value.int 3), (lit "lang", Value.str (lit "en")),
        (lit "q", Value.str (lit "new"))] name
      = (Entries.get? [(lit "q", Value.str (lit "new")), (lit "page", Value.int 3)] name).or
          (Entries.get? [(lit "q", Value.str (lit "old")), (lit "lang", Value.str (lit "en"))] name)
    by_cases hq : lit "q" = name
    · subst hq
      rfl
    · by_cases hpage : lit "page" = name
      · subst hpage
        rfl
      · simp only [Entries.get?, if_neg hq, if_neg hpage, Option.none_or]
  have hfree : ∀ e ∈ keywords, e.1 ∉ Store.storeParameters := by decide
  have hexpand : t.expand merged .standard = .ok (lit "?q=new&page=3&lang=en") :=
    eq_ok_of_toOption (by decide +kernel)
  obtain ⟨hfull, -, hreports, -⟩ := expandSource_keywords_iff hparse hsettings hmerged .standard
  exact ⟨hsettings, hmerged, by decide, (hfull.mpr hfree).trans hexpand, (hreports hfree).1⟩

/-- **Keywords are not bindings whatever their names are.**  The name of this
variable is that of a parameter, so that it has a value in a store but not as a
keyword. -/
theorem expandSource_values_refused :
    let keywords := [(lit "values", Value.str (lit "1"))]
    let merged := Store.empty.setAll keywords
    ∃ t, parse (lit "\x7bvalues\x7d") = .ok t ∧ (∀ e ∈ keywords, e.1 ≠ lit "settings") ∧
      merged.Overrides .empty keywords ∧ t.expand merged .standard = .ok (lit "1") ∧
      (expandSource (lit "\x7bvalues\x7d") .empty keywords .standard).outcome
        = .error (.fault (.reservedKeyword (lit "values"))) ∧
      (expandSource (lit "\x7bvalues\x7d") .empty keywords .standard).outcome
        ≠ t.expand merged .standard ∧
      (expandPartialSource (lit "\x7bvalues\x7d") .empty keywords .standard).outcome
        ≠ t.expandPartial merged .standard := by
  intro keywords merged
  let t : Template := ⟨lit "\x7bvalues\x7d",
    [.expression ⟨lit "values", .simple, [⟨lit "values", .none⟩], 0⟩]⟩
  let p : Template := ⟨lit "1", [.literal (lit "1") 0]⟩
  have hparse : parse (lit "\x7bvalues\x7d") = .ok t := eq_ok_of_toOption (by decide +kernel)
  have hexpand : t.expand merged .standard = .ok (lit "1") :=
    eq_ok_of_toOption (by decide +kernel)
  have hpartial : t.expandPartial merged .standard = .ok p :=
    eq_ok_of_toOption (by decide +kernel)
  have hrefused := outcome_expandSource hparse .empty keywords .standard
  have hrefusedPartial := outcome_expandPartialSource hparse .empty keywords .standard
  refine ⟨t, hparse, by decide, Store.overrides_setAll .empty keywords, hexpand, hrefused, ?_, ?_⟩
  · rw [hrefused, hexpand]
    exact nofun
  · rw [hrefusedPartial, hpartial]
    exact nofun

end Template

end UriExpansion
