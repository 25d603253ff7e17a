/-
UriExpansion/Proofs/Inertness.lean

What comes out of an expansion.

Literals and values are encoded, names and the marks of operators need no
encoding, so that an expansion is the text of a URI whatever the template and
whatever the store (`uriText_expand`).  Such a text has no braces and nothing
left to encode: read as a template it has no expressions, and it expands to
itself (`expand_inert`).  A value that looks like a template therefore stays a
value, however often the result is expanded again.
-/
import UriExpansion.Proofs.Meaning

namespace UriExpansion

open Percent

/-! ### Characters of a URI -/

/-- A URI is made of ASCII characters. -/
theorem UriText.ascii {t : Text} (h : UriText t) : ∀ c ∈ t, c.toNat < 128 := by
  intro c hc
  rcases h.mem c hc with hu | hr | rfl
  · exact toNat_lt_of_isUnreserved hu
  · exact toNat_lt_of_isReserved hr
  · decide

/-! ### Expansions -/

theorem Component.uriText_meaning {store : Store} {s : Settings} {c : Component} (h : c.Sound)
    {out : Text} (hout : c.meaning store s = .ok out) : UriText out := by
  cases c with
  | literal text p =>
    obtain rfl := Except.ok.inj hout
    exact uriText_encoded .reserved text
  | expression e =>
    obtain ⟨values, -, rfl⟩ := map_eq_ok.mp hout
    exact e.operator.uriText_rendered (Expression.readBody_sound h.2).each values

namespace Template

/-- An expansion is the text of a URI. -/
theorem uriText_expand {t : Template} (ht : ∀ c ∈ t.components, c.Sound) {store : Store}
    {s : Settings} {out : Text} (h : t.expand store s = .ok out) : UriText out := by
  obtain ⟨parts, hparts, rfl⟩ := map_eq_ok.mp (((expand_located ht store s).ok_iff out).mp h)
  refine UriText.flatten fun part hpart => ?_
  obtain ⟨c, hc, hmeaning⟩ := exists_of_mem_mapM hparts part hpart
  exact Component.uriText_meaning (ht c hc) hmeaning

/-- **Every expansion is well-formed and inert.**  It consists of unreserved
characters, reserved characters and triplets; in particular it is ASCII, each
of its percent signs begins a triplet, and it has no braces.  Read as a
template it has no expressions and expands to itself under every store. -/
theorem expand_inert {source : Text} {t : Template} (ht : parse source = .ok t) {store : Store}
    {s : Settings} {out : Text} (h : t.expand store s = .ok out) :
    UriText out ∧ (∀ c ∈ out, c.toNat < 128) ∧ Text.PercentClosed out ∧ Text.BraceFree out ∧
      ∃ p, parse out = .ok p ∧ p.expressions = [] ∧
        ∀ store' s', p.expand store' s' = .ok out := by
  have huri : UriText out := uriText_expand (parse_sound ht) h
  obtain ⟨p, hparse, hnone, hexpand⟩ := exists_parse_plain huri.braceFree huri.encodable
  refine ⟨huri, huri.ascii, percentClosed_of_uriText huri, huri.braceFree, p, hparse, hnone, ?_⟩
  intro store' s'
  rw [hexpand, encoded_of_uriText huri]

/-- A value that looks like a template does not come back to life. -/
theorem expand_braces_inert : ∃ t, parse (lit "%\x7b+x\x7d") = .ok t ∧
    t.expand (.ofList [(lit "x", .str (lit "\x7by\x7d%41%"))]) .standard
      = .ok (lit "%25%7By%7D%41%25") ∧
    UriText (lit "%25%7By%7D%41%25") ∧
    ∃ p, parse (lit "%25%7By%7D%41%25") = .ok p ∧ p.expressions = [] := by
  refine ⟨_, rfl, rfl, ?_⟩
  obtain ⟨huri, -, -, -, p, hparse, hnone, -⟩ := expand_inert
    (rfl : parse (lit "%\x7b+x\x7d") = .ok _)
    (rfl : Template.expand _ (.ofList [(lit "x", .str (lit "\x7by\x7d%41%"))]) .standard
      = .ok (lit "%25%7By%7D%41%25"))
  exact ⟨huri, p, hparse, hnone⟩

end Template

end UriExpansion
