/-
UriExpansion/Proofs/LineBreaks.lean

What breaks the lines of a call's errors.

`ExpandCall.Breaks` lists what brings a line feed into the errors of each stage: a path, a
name, an assignment or a piece of the template that has one in it, and a file that is no
YAML.  `ExpandCall.Fails.lineFeed_iff` says that nothing else does.  The last stage has no
part in it: what a document or an assignment gives is refused by its kind, which has a
name of one line (`Value.OfDocument.oneLine_of_resolve`), and so has the variable that
needs it.
-/
import UriExpansion.Proofs.ErrorQuotes

namespace UriExpansion

open CodePoint (lineFeed)

/-! ### Values -/

/-- A cause is told on one line. -/
structure ResolutionCause.OneLine (c : ResolutionCause) : Prop where
  code : lineFeed ∉ c.code
  message : lineFeed ∉ c.message

/-- Fixed words and what is told behind them. -/
theorem ResolutionCause.OneLine.of_message {c : ResolutionCause} {words rest : Text}
    (hmessage : c.message = words ++ rest) (hcode : lineFeed ∉ c.code) (hwords : lineFeed ∉ words)
    (hrest : lineFeed ∉ rest) : c.OneLine := by
  refine ⟨hcode, ?_⟩
  rw [hmessage, List.mem_append, not_or]
  exact ⟨hwords, hrest⟩

namespace Value

variable {s : Settings} {v : Value} {c : ResolutionCause}

theorem oneLine_of_encodableText {x : Except Fault Text}
    (h : encodableText x = .error (.cause c)) : c.OneLine := by
  unfold encodableText at h
  split at h
  · unfold encodable at h
    split at h
    · cases h
    · next i _ =>
      obtain rfl := Obstacle.cause.inj (Except.error.inj h)
      exact .of_message rfl (of_decide_eq_true rfl) (by decide)
        (Text.lineFeed_not_mem_toDigits (by decide) (by decide) i)
  · cases h

theorem oneLine_of_memberText (hv : v.OfDocument) (h : memberText s v = .error (.cause c)) :
    c.OneLine := by
  unfold memberText at h
  split at h
  · exact oneLine_of_encodableText h
  · obtain rfl := Obstacle.cause.inj (Except.error.inj h)
    exact .of_message rfl (of_decide_eq_true rfl) (by decide) hv.lineFeed_not_mem_typeName

theorem oneLine_of_keyText {k : Value} (h : keyText s k = .error (.cause c)) : c.OneLine := by
  unfold keyText at h
  split at h
  · exact oneLine_of_encodableText h
  · exact oneLine_of_encodableText h

theorem oneLine_of_itemTexts {items : List Value} (hitems : ∀ v ∈ items, v.OfDocument)
    (h : itemTexts s items = .error (.cause c)) : c.OneLine := by
  induction items with
  | nil => cases h
  | cons v items ih =>
    obtain ⟨hv, hitems⟩ := List.forall_mem_cons.mp hitems
    unfold itemTexts at h
    split at h
    · exact ih hitems h
    · rcases bind_eq_error.mp h with h | ⟨text, -, h⟩
      · exact oneLine_of_memberText hv h
      · rcases bind_eq_error.mp h with h | ⟨texts, -, h⟩
        · exact ih hitems h
        · cases h

theorem oneLine_of_pairTexts {pairs : List (Value × Value)} (hpairs : ∀ e ∈ pairs, e.2.OfDocument)
    (h : pairTexts s pairs = .error (.cause c)) : c.OneLine := by
  induction pairs with
  | nil => cases h
  | cons pair pairs ih =>
    obtain ⟨hv, hpairs⟩ := List.forall_mem_cons.mp hpairs
    unfold pairTexts at h
    split at h
    · exact ih hpairs h
    · rcases bind_eq_error.mp h with h | ⟨key, -, h⟩
      · exact oneLine_of_keyText h
      · rcases bind_eq_error.mp h with h | ⟨text, -, h⟩
        · exact oneLine_of_memberText hv h
        · rcases bind_eq_error.mp h with h | ⟨texts, -, h⟩
          · exact ih hpairs h
          · cases h

/-- The values of documents have no attributes. -/
theorem OfDocument.explode_eq (hv : v.OfDocument) :
    v.explode = .error (.cause (.noPairs v.typeName)) := by
  cases hv with
  | scalar hv => cases hv <;> rfl
  | list _ => rfl
  | tuple _ => rfl
  | map _ _ => rfl
  | set _ => rfl

theorem oneLine_of_resolveComposite (hv : v.OfDocument)
    (h : resolveComposite s v = .error (.cause c)) : c.OneLine := by
  have hexplode : (v.explode >>= fun pairs =>
      pairTexts s pairs >>= fun texts => pure (Resolved.ofPairs texts)) = .error (.cause c) →
      c.OneLine := by
    intro h
    rw [hv.explode_eq] at h
    obtain rfl := Obstacle.cause.inj (Except.error.inj h)
    exact .of_message rfl (of_decide_eq_true rfl) (by decide) hv.lineFeed_not_mem_typeName
  cases hv with
  | list hitems => exact oneLine_of_itemTexts hitems (map_eq_error.mp h)
  | tuple hitems => exact oneLine_of_itemTexts hitems (map_eq_error.mp h)
  | map _ hvalues => exact oneLine_of_pairTexts hvalues (map_eq_error.mp h)
  -- a set is no list: like a scalar it is taken for an object, and has no attributes
  | set _ => exact hexplode h
  | scalar hscalar => cases hscalar with
    | none => cases h
    | _ => exact hexplode h

/-- **A value of a document is refused on one line.** -/
theorem OfDocument.oneLine_of_resolve (hv : v.OfDocument) (h : v.resolve s = .error (.cause c)) :
    c.OneLine := by
  unfold resolve at h
  split at h
  · exact oneLine_of_encodableText (map_eq_error.mp h)
  · exact oneLine_of_resolveComposite hv h

end Value

/-! ### Expansions -/

theorem ResolutionError.lineFeed_not_mem_render {c : ResolutionCause} (hc : c.OneLine) {site : Site}
    (hname : lineFeed ∉ site.variableName) :
    lineFeed ∉ (ResolutionError.diagnostic ⟨c, some site⟩).render := by
  rw [Diagnostic.lineFeed_mem_render_iff, not_or, not_or]
  refine ⟨List.not_mem_nil, hc.code, ?_⟩
  show lineFeed ∉ lit "variable '" ++ site.variableName ++ lit "': " ++ c.message
  rw [List.mem_append, Text.lineFeed_mem_between_iff (by decide) (by decide), not_or]
  exact ⟨hname, hc.message⟩

namespace Template

/-- The name of a variable is on one line. -/
theorem lineFeed_not_mem_name {t : Template} (ht : ∀ c ∈ t.components, c.Sound)
    {x : Expression × VarSpec} (hx : x ∈ t.occurrences) : lineFeed ∉ x.2.name := by
  obtain ⟨hc, hspec⟩ := mem_occurrences.mp hx
  have hspecs := (Expression.readBody_sound (ht _ hc).2).each x.2 hspec
  exact hspecs.isName.uriText.not_mem rfl rfl (by decide)

/-- An expansion under values of documents is refused on one line. -/
theorem lineFeed_not_mem_of_expand {t : Template} (ht : ∀ c ∈ t.components, c.Sound)
    {store : Store} {s : Settings} {e : ResolutionError}
    (hstore : ∀ name v, store.get? name = some v → v.OfDocument)
    (h : t.expand store s = .error (.resolution e)) : lineFeed ∉ e.diagnostic.render := by
  obtain ⟨x, hx, r, hmeaning, hfailure⟩ := exists_of_expand_eq_error ht h
  cases r with
  | fault f => cases hfailure
  | cause name c =>
    obtain rfl := Failure.resolution.inj hfailure
    unfold Store.meaning at hmeaning
    split at hmeaning
    · cases hmeaning
    · cases hmeaning
    · next c' hresolve =>
      split at hmeaning
      · obtain ⟨rfl, rfl⟩ := Refusal.cause.inj (Except.error.inj hmeaning)
        have hvalue : ((store.get? x.2.name).getD .none).OfDocument := by
          rcases hget : store.get? x.2.name with - | v
          · exact Value.ofDocument_none
          · exact hstore _ v hget
        exact ResolutionError.lineFeed_not_mem_render (hvalue.oneLine_of_resolve hresolve)
          (lineFeed_not_mem_name ht hx)
      · cases hmeaning

end Template

/-! ### Calls -/

namespace CommandLine

/-- A complaint has the line feeds of its path and of its wording. -/
theorem lineFeed_mem_complaint_iff {code : Text} (hcode : lineFeed ∉ code) (message : Text)
    (file : Option Text) : lineFeed ∈ (complaint code message file).render ↔
      lineFeed ∈ file.getD [] ∨ lineFeed ∈ message := by
  rw [Diagnostic.lineFeed_mem_render_iff]
  show lineFeed ∈ file.getD [] ∨ lineFeed ∈ code ∨ lineFeed ∈ message ↔ _
  rw [or_iff_right hcode]

namespace ExpandCall

/-- What breaks the line of an error of a stage: a line feed in what is quoted, or a file
that is no YAML. -/
inductive Breaks (files : Files) (call : ExpandCall) : Stage → Prop
  | format : lineFeed ∈ call.format → Breaks files call .format
  | configPath : lineFeed ∈ call.configFile.getD [] → Breaks files call .config
  | settingName {names name} :
      Settings.load files call.configFile = .error (.invalid (.unknownKeys names)) →
      name ∈ names → lineFeed ∈ name → Breaks files call .config
  | configText {detail} :
      Settings.load files call.configFile = .error (.invalid (.badYaml detail)) →
      Breaks files call .config
  | bindingsPath : lineFeed ∈ call.varsFile.getD [] → Breaks files call .bindings
  | bindingsText {detail path} : call.loaded files = .error (.load ⟨.badYaml detail, path⟩) →
      Breaks files call .bindings
  | assignment {before item after} : call.assignments = before ++ item :: after →
      (∀ x ∈ before, ∃ name value, Assigns x name value) →
      (∀ name value, ¬ Assigns item name value) → lineFeed ∈ item → Breaks files call .assignments
  | template {e} : e ∈ (Template.tryParse call.template).2 → lineFeed ∈ e.quoted →
      Breaks files call .template

variable {files : Files} {call : ExpandCall}

/-- The first item that is no assignment is one. -/
theorem eq_of_not_assigns {before after before' after' : List Text} {item item' : Text}
    (h : before ++ item :: after = before' ++ item' :: after')
    (hbefore : ∀ x ∈ before, ∃ name value, Assigns x name value)
    (hitem : ∀ name value, ¬ Assigns item name value)
    (hbefore' : ∀ x ∈ before', ∃ name value, Assigns x name value)
    (hitem' : ∀ name value, ¬ Assigns item' name value) : item = item' := by
  have hjudge := congrArg judgeAssignments h
  rw [judgeAssignments_of_not_assigns hbefore hitem,
    judgeAssignments_of_not_assigns hbefore' hitem'] at hjudge
  have hcomplaint := (List.cons.inj (Verdict.refused.inj hjudge).1).1
  exact List.append_cancel_left (congrArg Diagnostic.message hcomplaint)

/-- Settings are refused on one line unless their path, a name in them or their text
breaks it. -/
theorem lineFeed_mem_iff_of_badConfig {e : SettingsError}
    (h : Settings.load files call.configFile = .error (.invalid e)) :
    lineFeed ∈ call.configFile.getD [] ∨ lineFeed ∈ e.message ↔ call.Breaks files .config := by
  rw [e.lineFeed_mem_message_iff]
  constructor
  · rintro (hmem | hmem)
    · exact .configPath hmem
    · cases e with
      | unknownKeys names =>
        obtain ⟨name, hname, hmem⟩ := (Text.lineFeed_mem_intercalate_iff (by decide) names).mp hmem
        exact .settingName h hname hmem
      | badYaml detail => exact .configText h
      | _ => exact absurd hmem List.not_mem_nil
  · intro hbreaks
    cases hbreaks with
    | configPath hmem => exact .inl hmem
    | settingName hnames hname hmem =>
      obtain rfl := SettingsFailure.invalid.inj (Except.error.inj (h.symm.trans hnames))
      exact .inr ((Text.lineFeed_mem_intercalate_iff (by decide) _).mpr ⟨_, hname, hmem⟩)
    | configText htext =>
      obtain rfl := SettingsFailure.invalid.inj (Except.error.inj (h.symm.trans htext))
      exact .inr (Settings.lineFeed_mem_of_load htext)

/-- A file of bindings is refused on one line unless its path or its text breaks it. -/
theorem lineFeed_mem_iff_of_badBindings {e : LoadError}
    (h : call.loaded files = .error (.load e)) :
    lineFeed ∈ e.diagnostic.render ↔ call.Breaks files .bindings := by
  obtain ⟨path, hpath, hload⟩ : ∃ path, call.varsFile = some path ∧
      Bindings.load files path = .error (.load e) := by
    unfold loaded at h
    split at h
    · cases h
    · cases h
    · next path _ hpath => exact ⟨path, hpath, h⟩
  rw [Bindings.lineFeed_mem_render_of_load hload]
  constructor
  · rintro (hmem | ⟨detail, hdetail⟩)
    · exact .bindingsPath (by rwa [hpath])
    · obtain ⟨fault, file⟩ := e
      obtain rfl : fault = .badYaml detail := hdetail
      exact .bindingsText h
  · intro hbreaks
    cases hbreaks with
    | bindingsPath hmem => exact .inl (by rwa [hpath] at hmem)
    | bindingsText htext =>
      obtain rfl := LoadFailure.load.inj (Except.error.inj (h.symm.trans htext))
      exact .inr ⟨_, rfl⟩

/-- What a call hands to the library are values of documents. -/
theorem Prepares.ofDocument {t : Template} {store : Store} {s : Settings}
    (h : call.Prepares files t store s) {name : Text} {v : Value}
    (hv : store.get? name = some v) : v.OfDocument := by
  rcases h.exists_of_get? hv with ⟨value, rfl⟩ | ⟨bindings, hloaded, hmem⟩
  · exact .scalar (.str value)
  · unfold loaded at hloaded
    split at hloaded
    · obtain rfl := Except.ok.inj hloaded
      exact absurd hmem List.not_mem_nil
    · obtain rfl := Except.ok.inj hloaded
      exact absurd hmem List.not_mem_nil
    · exact Bindings.forall_mem_of_load hloaded _ hmem

/-- **The errors of a stage that fails are told on one line each, unless something
breaks one.** -/
theorem Fails.lineFeed_iff {stage : Stage} {errors : List Diagnostic} {exitCode : Nat}
    (h : call.Fails files stage errors exitCode) :
    (∃ d ∈ errors, lineFeed ∈ d.render) ↔ call.Breaks files stage := by
  have hone : ∀ d : Diagnostic, (∃ d' ∈ [d], lineFeed ∈ d'.render) ↔ lineFeed ∈ d.render := by
    simp
  cases h with
  | format _ =>
    rw [hone, lineFeed_mem_complaint_iff (by decide), Option.getD_none,
      or_iff_right List.not_mem_nil, Text.lineFeed_mem_between_iff (by decide) (by decide)]
    exact ⟨.format, fun (.format h) => h⟩
  | missingConfig hmissing =>
    have hwords : lineFeed ∉ lit "config file not found: " := by decide
    rw [hone, lineFeed_mem_complaint_iff (by decide), List.mem_append, or_iff_right hwords, or_self]
    constructor
    · exact .configPath
    · intro hbreaks
      cases hbreaks with
      | configPath hmem => exact hmem
      | settingName hnames _ _ => cases hmissing.symm.trans hnames
      | configText htext => cases hmissing.symm.trans htext
  | badConfig hinvalid =>
    rw [hone, lineFeed_mem_complaint_iff (by decide)]
    exact lineFeed_mem_iff_of_badConfig hinvalid
  | bindings hrefused =>
    rw [hone]
    exact lineFeed_mem_iff_of_badBindings hrefused
  | assignments heq hbefore hitem =>
    have hwords : lineFeed ∉ lit "--set expects NAME=VALUE, got: " := by decide
    rw [hone, lineFeed_mem_complaint_iff (by decide), Option.getD_none,
      or_iff_right List.not_mem_nil, List.mem_append, or_iff_right hwords]
    constructor
    · exact .assignment heq hbefore hitem
    · intro hbreaks
      cases hbreaks with
      | assignment heq' hbefore' hitem' hmem =>
        rwa [eq_of_not_assigns (heq.symm.trans heq') hbefore hitem hbefore' hitem']
  | @template errors htry =>
    have herrors : (Template.tryParse call.template).2 = errors := congrArg Prod.snd htry
    constructor
    · rintro ⟨d, hd, hmem⟩
      obtain ⟨e, he, rfl⟩ := List.mem_map.mp hd
      exact .template (herrors ▸ he) (e.lineFeed_mem_render_iff.mp hmem)
    · intro hbreaks
      cases hbreaks with
      | template he hmem =>
        exact ⟨_, List.mem_map_of_mem (herrors ▸ he), (ParseError.lineFeed_mem_render_iff _).mpr hmem⟩
  | resolution hprepares herror =>
    have hsound := Template.parse_sound hprepares.template
    rw [hone]
    refine iff_of_false ?_ fun hbreaks => nomatch hbreaks
    exact Template.lineFeed_not_mem_of_expand hsound (fun _ _ => hprepares.ofDocument)
      (perform_eq_error hsound herror)

end ExpandCall

end CommandLine

end UriExpansion
