/-
UriExpansion/Proofs/ProgressiveBinding.lean

Binding variables step by step.

A template can be expanded partially under one store after another and fully
in the end.  Every step leaves a template with the same meaning under all
stores that keep the values used so far (`expandPartial_meaning`), provided
that no percent sign of its literal text lacks its digits; and that provision
holds of what the step leaves as well, so that the steps can be chained
(`bindAll_meaning`).  Progressive binding thus ends in the text, or in the
refusal, of binding everything at once (`expand_bindAll`).
-/
import Mathlib.Data.List.Chain
import UriExpansion.Proofs.Residue

namespace UriExpansion

open Percent

/-! ### Literals whose percent signs begin triplets -/

/-- If the component is literal text, its percent signs begin triplets. -/
def Component.PercentClosed (c : Component) : Prop :=
  ∀ text position, c = .literal text position → Text.PercentClosed text

/-- What every step of progressive binding preserves. -/
structure Template.Bindable (t : Template) : Prop where
  sound : ∀ c ∈ t.components, c.Sound
  closed : ∀ c ∈ t.components, c.PercentClosed

/-- The text of sound pieces whose runs are closed is a bindable template, and
it means what the pieces mean. -/
theorem Template.bindable_parse_pieces {pieces : List Piece}
    (hsound : ∀ piece ∈ pieces, piece.Sound) (hclosed : ∀ piece ∈ pieces, piece.PercentClosed)
    {p : Template} (hp : parse (Piece.allText pieces) = .ok p) :
    p.Bindable ∧ ∀ store s, Component.meaningAll store s p.components
      = joinM (Piece.meaning store s) pieces := by
  have hcomponents : p.components = componentsOf (Token.ofPieces pieces) := by
    rw [parse_pieces hsound] at hp
    obtain rfl := Except.ok.inj hp
    rfl
  refine ⟨⟨parse_sound hp, ?_⟩, fun store s => ?_⟩
  · have htokens : ∀ token ∈ Token.ofPieces pieces, token.All Text.PercentClosed fun _ => True :=
      Token.forall_ofPieces percentClosed_nil (fun _ _ => percentClosed_append) hclosed
    rintro c hc text position rfl
    rw [hcomponents] at hc
    obtain ⟨token, htoken, hsome⟩ := List.mem_filterMap.mp hc
    cases token with
    | literal text' position' =>
      obtain ⟨rfl, -⟩ := Component.literal.inj (Option.some.inj hsome)
      exact htokens _ htoken
    | expression body position' =>
      rw [Component.ofToken] at hsome
      rcases hread : Expression.read body position' with e | e
      · rw [hread] at hsome
        cases hsome
      · rw [hread] at hsome
        cases hsome
  · rw [hcomponents]
    exact meaningOf_assemble hsound hclosed store s 0

/-! ### One step -/

/-- The runs that partial expansion writes are renderings and the literals of
the template. -/
theorem Component.closed_residues {store : Store} {s : Settings} {cs : List Component}
    {residues : List (List Piece)} (h : List.Forall₂ (Component.Residue store s) cs residues)
    (hsound : ∀ c ∈ cs, c.Sound) (hclosed : ∀ c ∈ cs, c.PercentClosed) :
    ∀ piece ∈ residues.flatten, piece.PercentClosed := by
  induction h with
  | nil => exact fun _ h => absurd h List.not_mem_nil
  | cons hresidue _ ih =>
    obtain ⟨hc, hcs⟩ := List.forall_mem_cons.mp hsound
    obtain ⟨hd, hds⟩ := List.forall_mem_cons.mp hclosed
    refine List.forall_mem_append.mpr ⟨?_, ih hcs hds⟩
    cases hresidue with
    | literal => exact List.forall_mem_singleton.mpr (hd _ _ rfl)
    | expression _ hresidue => exact fun piece hpiece => (hresidue.sound hc piece hpiece).2

namespace Template

/-- **One step of progressive binding keeps the meaning** under every store
that keeps the values of the step. -/
theorem expandPartial_meaning {t p : Template} (ht : t.Bindable) {store : Store} {s : Settings}
    (h : t.expandPartial store s = .ok p) : p.Bindable ∧ ∀ later, Store.Keeps s store later →
      Component.meaningAll later s p.components = Component.meaningAll later s t.components := by
  obtain ⟨texts, htexts, hparse⟩ := expandPartial_eq_ok.mp h
  obtain ⟨residues, hresidues, htext⟩ := Component.exists_residues htexts
  rw [← htext] at hparse
  obtain ⟨hbindable, hparsed⟩ := bindable_parse_pieces
    (Component.sound_residues hresidues ht.sound)
    (Component.closed_residues hresidues ht.sound ht.closed) hparse
  refine ⟨hbindable, fun later hkeeps => ?_⟩
  rw [hparsed, Component.meaning_residues hresidues ht.sound hkeeps]

/-! ### All steps -/

/-- Partial expansion under one store after the other. -/
def bindAll (s : Settings) : List Store → Template → Except Failure Template
  | [], t => .ok t
  | store :: stores, t => t.expandPartial store s >>= bindAll s stores

theorem bindAll_meaning {s : Settings} {stores : List Store} {last : Store}
    (hkeeps : ∀ store ∈ stores, Store.Keeps s store last) {t p : Template} (ht : t.Bindable)
    (h : bindAll s stores t = .ok p) : p.Bindable ∧
      Component.meaningAll last s p.components = Component.meaningAll last s t.components := by
  induction stores generalizing t with
  | nil =>
    obtain rfl := Except.ok.inj h
    exact ⟨ht, rfl⟩
  | cons store stores ih =>
    -- the step's result is bindable again, which is what the induction needs
    obtain ⟨hstore, hstores⟩ := List.forall_mem_cons.mp hkeeps
    obtain ⟨q, hq, hrest⟩ := bind_eq_ok.mp h
    obtain ⟨hbindable, hstep⟩ := expandPartial_meaning ht hq
    obtain ⟨hp, hmeaning⟩ := ih hstores hbindable hrest
    exact ⟨hp, hmeaning.trans (hstep last hstore)⟩

/-- **Progressive binding equals one-shot binding.**  Every store of the chain
keeps what the one before it defines; if the steps succeed, what they leave
expands under the last store as the template itself does. -/
theorem expand_bindAll {source : Text} {t : Template} (ht : parse source = .ok t)
    (hliterals : ∀ text position, .literal text position ∈ t.components →
      Text.PercentClosed text)
    {s : Settings} {stores : List Store} {last : Store}
    (hchain : (stores ++ [last]).IsChain (Store.Keeps s)) {p : Template}
    (hp : bindAll s stores t = .ok p) :
    (∀ out, t.expand last s = .ok out ↔ p.expand last s = .ok out) ∧
      ∀ e, t.expand last s = .error (.resolution e) →
        ∃ e', p.expand last s = .error (.resolution e') ∧ e'.code = e.code ∧
          e'.message = e.message := by
  have hkeeps : ∀ store ∈ stores, Store.Keeps s store last := by
    -- every store of the chain keeps the values for the last one, not only for the next
    have : IsTrans Store (Store.Keeps s) := ⟨fun _ _ _ => Store.Keeps.trans⟩
    have hpairs := List.pairwise_append.mp (List.isChain_iff_pairwise.mp hchain)
    exact fun store hstore => hpairs.2.2 store hstore last List.mem_cons_self
  have hbindable : t.Bindable := by
    refine ⟨parse_sound ht, ?_⟩
    rintro c hc text position rfl
    exact hliterals text position hc
  obtain ⟨hp, hmeaning⟩ := bindAll_meaning hkeeps hbindable hp
  exact expand_agree hbindable.sound hp.sound hmeaning.symm

/-- A path and half a query first, the other half later. -/
theorem expand_bindAll_query :
    let first := Store.empty.set (lit "seg") (.list [.str (lit "x"), .str (lit "y")])
    let second := first.set (lit "q") (.str (lit "term"))
    let last := second.set (lit "page") (.str (lit "2"))
    ∃ t p, parse (lit "a%20b\x7b/seg*\x7d\x7b?q,page\x7d") = .ok t ∧
      (∀ text position, .literal text position ∈ t.components → Text.PercentClosed text) ∧
      ([first, second] ++ [last]).IsChain (Store.Keeps .standard) ∧
      bindAll .standard [first, second] t = .ok p ∧
      p.source = lit "a%20b/x/y?q=term\x7b&page\x7d" ∧
      p.expand last .standard = .ok (lit "a%20b/x/y?q=term&page=2") := by
  intro first second last
  let t : Template := ⟨lit "a%20b\x7b/seg*\x7d\x7b?q,page\x7d", [.literal (lit "a%20b") 0,
    .expression ⟨lit "/seg*", .path, [⟨lit "seg", .explode⟩], 5⟩,
    .expression ⟨lit "?q,page", .query, [⟨lit "q", .none⟩, ⟨lit "page", .none⟩], 12⟩]⟩
  let p : Template := ⟨lit "a%20b/x/y?q=term\x7b&page\x7d", [.literal (lit "a%20b/x/y?q=term") 0,
    .expression ⟨lit "&page", .continuation, [⟨lit "page", .none⟩], 16⟩]⟩
  have hparse : parse (lit "a%20b\x7b/seg*\x7d\x7b?q,page\x7d") = .ok t :=
    eq_ok_of_toOption (by decide +kernel)
  have hliterals : ∀ text position, .literal text position ∈ t.components →
      Text.PercentClosed text := by
    intro text position hmem
    obtain ⟨rfl, -⟩ : text = lit "a%20b" ∧ position = 0 := by simpa [t] using hmem
    exact percentClosed_of_uriText (uriText_iff.mpr (by decide +kernel))
  have hchain : ([first, second] ++ [last]).IsChain (Store.Keeps .standard) := by
    refine .cons_cons (Store.keeps_set _ (by decide +kernel) _) ?_
    exact .cons_cons (Store.keeps_set _ (by decide +kernel) _) (.singleton _)
  have hbind : bindAll .standard [first, second] t = .ok p :=
    eq_ok_of_toOption (by decide +kernel)
  refine ⟨t, p, hparse, hliterals, hchain, hbind, rfl, ?_⟩
  refine ((expand_bindAll hparse hliterals hchain hbind).1 _).mp ?_
  exact eq_ok_of_toOption (by decide +kernel)

end Template

end UriExpansion
