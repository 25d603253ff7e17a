/-
UriExpansion/Proofs/CanonicalText.lean

What the strict encoder writes, and that nothing else is written that way.

A `CanonicalText` consists of unreserved characters and of triplets with
upper-case digits, none of which stands for an unreserved character.  Such a
text is determined by its octets: each of them is written as the unreserved
character that it is or as its triplet (`octetText`, `CanonicalText.eq_flatMap`).
The strict encoder goes over characters, but what it writes for a character is
what is written for the octets of its UTF-8 form one by one (`encoded_strict`):
an octet that is an unreserved character occurs in no other character.

So the canonical texts are the results of the strict encoder, and decoding is
its inverse (`encode_strict_iff`).
-/
import Mathlib.Data.List.Basic
import UriExpansion.Proofs.Decoding

namespace UriExpansion

open Percent

/-! ### Canonical texts -/

/-- A decimal digit or one of the letters A to F. -/
def CodePoint.isUpperHexDigit (c : CodePoint) : Bool := c ∈ lit "0123456789ABCDEF"

/-- The character that has the number of an octet. -/
def octetChar (n : UInt8) : CodePoint := .scalar (Char.ofUInt8 n)

/-- Unreserved characters and triplets with upper-case digits, one after the
other, and nothing else; no triplet stands for an unreserved character. -/
inductive CanonicalText : Text → Prop
  | nil : CanonicalText []
  | unreserved {c rest} : isUnreserved c = true → CanonicalText rest → CanonicalText (c :: rest)
  | triplet {a b n rest} : a.isUpperHexDigit = true → b.isUpperHexDigit = true →
      octet? '%' a b = some n → isUnreserved (octetChar n) = false → CanonicalText rest →
      CanonicalText (CodePoint.scalar '%' :: a :: b :: rest)

namespace Percent

theorem exists_of_isUpperHexDigit {c : CodePoint} (h : c.isUpperHexDigit = true) :
    ∃ n, n < 16 ∧ c = .scalar (hexDigit n) := by
  have hdigits : ∀ c ∈ lit "0123456789ABCDEF", ∃ n, n < 16 ∧ c = .scalar (hexDigit n) := by
    decide
  exact hdigits c (of_decide_eq_true h)

theorem isUpperHexDigit_hexDigit :
    ∀ n, n < 16 → (CodePoint.scalar (hexDigit n)).isUpperHexDigit = true := by
  decide

/-- A triplet with upper-case digits is the one that the encoder writes. -/
theorem triplet_of_octet? {a b : CodePoint} {n : UInt8} (ha : a.isUpperHexDigit = true)
    (hb : b.isUpperHexDigit = true) (h : octet? '%' a b = some n) :
    triplet n = [CodePoint.scalar '%', a, b] := by
  obtain ⟨high, hhigh, rfl⟩ := exists_of_isUpperHexDigit ha
  obtain ⟨low, hlow, rfl⟩ := exists_of_isUpperHexDigit hb
  rw [octet?, if_pos rfl, hexValue?_hexDigit _ hhigh, hexValue?_hexDigit _ hlow] at h
  have hn : n.toNat = 16 * high + low := by
    rw [← Option.some.inj h, UInt8.toNat_ofNat']
    exact Nat.mod_eq_of_lt (by omega)
  have hdiv : n.toNat / 16 = high := by omega
  have hmod : n.toNat % 16 = low := by omega
  rw [triplet, hdiv, hmod]

/-! ### Octets of a character -/

/-- An ASCII character is its own octet. -/
theorem utf8_of_lt {x : Char} (h : x.toNat < 128) :
    (CodePoint.scalar x).utf8 = [UInt8.ofNat x.toNat] := by
  rw [CodePoint.utf8, String.utf8EncodeChar]
  exact if_pos (Nat.le_of_lt_succ h)

theorem octetChar_ofNat {x : Char} (h : x.toNat < 128) :
    octetChar (UInt8.ofNat x.toNat) = CodePoint.scalar x := by
  refine congrArg CodePoint.scalar (Char.toNat_inj.mp ?_)
  show (UInt8.ofNat x.toNat).toNat = x.toNat
  rw [UInt8.toNat_ofNat']
  exact Nat.mod_eq_of_lt (by omega)

/-- The octets of any other character are beyond ASCII. -/
theorem le_of_mem_utf8 {x : Char} (h : 128 ≤ x.toNat) :
    ∀ n ∈ (CodePoint.scalar x).utf8, 128 ≤ n.toNat := by
  have hx : ¬ x.val.toNat ≤ 127 := Nat.not_le.mpr h
  have hoctet : ∀ k, 128 ≤ k → k < 256 → 128 ≤ (UInt8.ofNat k).toNat := by
    intro k hk hlt
    rwa [UInt8.toNat_ofNat', Nat.mod_eq_of_lt hlt]
  intro n hn
  rw [CodePoint.utf8, String.utf8EncodeChar, if_neg hx] at hn
  -- two, three or four octets, each made of a mark and some bits
  split at hn
  · simp only [List.mem_cons, List.not_mem_nil, or_false] at hn
    rcases hn with rfl | rfl <;> exact hoctet _ (by omega) (by omega)
  · split at hn
    · simp only [List.mem_cons, List.not_mem_nil, or_false] at hn
      rcases hn with rfl | rfl | rfl <;> exact hoctet _ (by omega) (by omega)
    · simp only [List.mem_cons, List.not_mem_nil, or_false] at hn
      rcases hn with rfl | rfl | rfl | rfl <;> exact hoctet _ (by omega) (by omega)

/-! ### Octets as they are written -/

/-- An octet as it is written: the unreserved character that it is, or else its
triplet. -/
def octetText (n : UInt8) : Text :=
  if isUnreserved (octetChar n) then [octetChar n] else triplet n

theorem octetText_of_isUnreserved {c : CodePoint} (h : isUnreserved c = true) :
    c.utf8.flatMap octetText = [c] := by
  cases c with
  | surrogate i => cases h
  | scalar x =>
    have hlt : x.toNat < 128 := toNat_lt_of_isUnreserved h
    rw [utf8_of_lt hlt, List.flatMap_singleton, octetText, octetChar_ofNat hlt, if_pos h]

/-- No octet of a character that is not unreserved is an unreserved character. -/
theorem octetText_of_not_isUnreserved {c : CodePoint} (h : isUnreserved c = false) :
    c.utf8.flatMap octetText = encodedOne c := by
  cases c with
  | surrogate i => rfl
  | scalar x =>
    have hoctet : ∀ n ∈ (CodePoint.scalar x).utf8, isUnreserved (octetChar n) = false := by
      intro n hn
      by_cases hx : x.toNat < 128
      · rw [utf8_of_lt hx, List.mem_singleton] at hn
        rw [hn, octetChar_ofNat hx, h]
      · have hle : 128 ≤ n.toNat := le_of_mem_utf8 (Nat.not_lt.mp hx) n hn
        refine eq_false_of_ne_true fun hu => ?_
        have hlt : n.toNat < 128 := toNat_lt_of_isUnreserved hu
        omega
    refine List.flatMap_congr fun n hn => ?_
    rw [octetText, hoctet n hn]
    rfl

/-- **The strict encoder writes octet by octet.** -/
theorem encoded_strict (t : Text) :
    encoded .strict t = (t.flatMap CodePoint.utf8).flatMap octetText := by
  induction t with
  | nil => rfl
  | cons c rest ih =>
    have hplace : Profile.strict.place c rest = c.utf8.flatMap octetText := by
      cases hc : isUnreserved c with
      | true =>
        rw [octetText_of_isUnreserved hc]
        exact if_pos hc
      | false =>
        rw [octetText_of_not_isUnreserved hc]
        exact if_neg (ne_true_of_eq_false hc)
    rw [encoded_cons, hplace, ih, List.flatMap_cons, List.flatMap_append]

/-! ### Canonical texts and their octets -/

/-- Octets, written one after the other, make up a canonical text. -/
theorem canonicalText_flatMap (ns : List UInt8) : CanonicalText (ns.flatMap octetText) := by
  induction ns with
  | nil => exact .nil
  | cons n ns ih =>
    have hn : n.toNat < 256 := n.toNat_lt
    rw [List.flatMap_cons, octetText]
    split
    · next hu => exact .unreserved hu ih
    · next hu =>
      exact .triplet (isUpperHexDigit_hexDigit _ (by omega)) (isUpperHexDigit_hexDigit _ (by omega))
        (octet?_hexDigit n) (eq_false_of_ne_true hu) ih

theorem canonicalText_encoded (t : Text) : CanonicalText (encoded .strict t) := by
  rw [encoded_strict]
  exact canonicalText_flatMap _

end Percent

/-- A canonical text is the only one with its octets. -/
theorem CanonicalText.eq_flatMap {t : Text} (h : CanonicalText t) :
    t = (octets t).flatMap octetText := by
  induction h with
  | nil => rfl
  | @unreserved c rest hc _ ih =>
    have hne : c ≠ CodePoint.scalar '%' := by
      rintro rfl
      cases hc
    rw [octets_cons hne, List.flatMap_append, octetText_of_isUnreserved hc, ← ih]
    rfl
  | triplet ha hb hn hu _ ih =>
    rw [octets_of_octet? hn, List.flatMap_cons, ← ih, octetText, hu, triplet_of_octet? ha hb hn]
    rfl

/-- A canonical text has unreserved characters and percent signs. -/
theorem CanonicalText.mem {t : Text} (h : CanonicalText t) :
    ∀ c ∈ t, isUnreserved c = true ∨ c = CodePoint.scalar '%' := by
  have hdigit : ∀ {d : CodePoint}, d.isUpperHexDigit = true → isUnreserved d = true := by
    intro d hd
    obtain ⟨n, hn, rfl⟩ := exists_of_isUpperHexDigit hd
    exact isUnreserved_of_isHexDigit (isHexDigit_hexDigit n hn)
  intro c hc
  induction h with
  | nil => cases hc
  | unreserved hd _ ih =>
    rcases List.mem_cons.mp hc with rfl | hc
    · exact .inl hd
    · exact ih hc
  | triplet ha hb _ _ _ ih =>
    simp only [List.mem_cons] at hc
    rcases hc with rfl | rfl | rfl | hc
    · exact .inr rfl
    · exact .inl (hdigit ha)
    · exact .inl (hdigit hb)
    · exact ih hc

/-! ### The strict encoder -/

namespace Percent

/-- **The strict encoder and the decoder are inverse to each other.**  What is
written for a text is the canonical text that is decoded to it. -/
theorem encode_strict_iff {t out : Text} :
    encode .strict t = .ok out ↔ CanonicalText out ∧ decode out = some t := by
  rw [encode_eq_ok_iff, decode_eq_some_iff]
  constructor
  · rintro ⟨ht, rfl⟩
    exact ⟨canonicalText_encoded t, ht, octets_encoded t⟩
  · rintro ⟨hout, ht, hoctets⟩
    refine ⟨ht, ?_⟩
    rw [encoded_strict, ← hoctets, ← hout.eq_flatMap]

/-- **The strict encoder is undone by decoding.**  Either profile fails on a
surrogate and on nothing else.  Otherwise the strict encoder writes a canonical
text that stands for the octets of the UTF-8 form and is decoded to the
original; it is the only canonical text that is, and no other text is written
the same. -/
theorem encode_strict_undone (t : Text) :
    (∀ p f, encode p t = .error f ↔ f = .unencodable ∧ ∃ c ∈ t, c.isSurrogate = true) ∧
    (Text.Encodable t → ∃ out, encode .strict t = .ok out ∧ CanonicalText out ∧
      octets out = t.flatMap CodePoint.utf8 ∧ decode out = some t ∧
      (∀ out', CanonicalText out' → decode out' = some t → out' = out) ∧
      ∀ u, encode .strict u = .ok out → u = t) := by
  refine ⟨fun p f => encode_eq_error_iff, fun ht => ?_⟩
  have hok : encode .strict t = .ok (encoded .strict t) := encode_eq_ok .strict ht
  obtain ⟨hcanonical, hdecode⟩ := encode_strict_iff.mp hok
  refine ⟨_, hok, hcanonical, octets_encoded t, hdecode, fun out' hout' hdecode' => ?_, ?_⟩
  · have hok' : encode .strict t = .ok out' := encode_strict_iff.mpr ⟨hout', hdecode'⟩
    exact Except.ok.inj (hok'.symm.trans hok)
  · intro u hu
    have hdecode' : decode (encoded .strict t) = some u := (encode_strict_iff.mp hu).2
    exact Option.some.inj (hdecode'.symm.trans hdecode)

/-- A percent sign is encoded even where a triplet stands already, so that
decoding finds the triplet again and not what it stands for. -/
theorem encode_strict_undone_triplet :
    Text.Encodable (lit "\u00E9/%2f~") ∧
      encode .strict (lit "\u00E9/%2f~") = .ok (lit "%C3%A9%2F%252f~") ∧
      CanonicalText (lit "%C3%A9%2F%252f~") ∧
      decode (lit "%C3%A9%2F%252f~") = some (lit "\u00E9/%2f~") ∧
      encode .reserved [.scalar 'a', .surrogate 0] = .error .unencodable := by
  have ht : Text.Encodable (lit "\u00E9/%2f~") := by decide
  have hout : encode .strict (lit "\u00E9/%2f~") = .ok (lit "%C3%A9%2F%252f~") := rfl
  obtain ⟨out, hok, hcanonical, -, hdecode, -⟩ := (encode_strict_undone _).2 ht
  obtain rfl := Except.ok.inj (hok.symm.trans hout)
  have hrefused := ((encode_strict_undone [.scalar 'a', .surrogate 0]).1 .reserved .unencodable).mpr
    ⟨rfl, .surrogate 0, by simp, rfl⟩
  exact ⟨ht, hout, hcanonical, hdecode, hrefused⟩

end Percent

end UriExpansion
