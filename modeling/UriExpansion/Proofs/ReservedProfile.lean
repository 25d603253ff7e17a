/-
UriExpansion/Proofs/ReservedProfile.lean

What may be relied on when text is encoded that may hold triplets already.

The literals of a template are encoded with the reserved profile, and partial
expansion encodes again what has been rendered before.  Three laws make this
harmless:

* `encode_normalises`: what either profile has written is left alone, and the
  texts that are left alone are those of URIs;
* `encodeLiteral_faithful`: a literal stands for the same octets after it has
  been encoded, since triplets stay where they are and other percent signs are
  written as triplets of themselves;
* `encode_append`: the strict profile encodes two texts one after the other, and
  so does the reserved one unless a triplet straddles the place where they meet.
-/
import UriExpansion.Proofs.CanonicalText
import UriExpansion.Proofs.Scanning

namespace UriExpansion

open Percent

namespace Percent

/-! ### Encoding again -/

/-- The text of a URI is left alone by the reserved profile. -/
theorem encode_of_uriText {t : Text} (h : UriText t) : encode .reserved t = .ok t := by
  rw [encode_eq_ok .reserved h.encodable, encoded_of_uriText h]

/-- **The reserved profile normalises once.**  It leaves alone what either
profile has written, and the texts that it leaves alone consist of unreserved
characters, reserved characters and triplets. -/
theorem encode_normalises (t : Text) :
    (Text.Encodable t → ∀ p, ∃ out, encode p t = .ok out ∧ encode .reserved out = .ok out) ∧
      (encode .reserved t = .ok t ↔ UriText t) := by
  refine ⟨fun ht p => ?_, fun h => ?_, encode_of_uriText⟩
  · exact ⟨encoded p t, encode_eq_ok p ht, encode_of_uriText (uriText_encoded p t)⟩
  · -- what is left alone has been written by the encoder, too
    obtain ⟨-, hfixed⟩ := encode_eq_ok_iff.mp h
    rw [← hfixed]
    exact uriText_encoded .reserved t

/-- Percent signs before and behind triplets. -/
theorem encode_normalises_overlapping :
    Text.Encodable (lit "%%41%4%41 %") ∧
      encode .reserved (lit "%%41%4%41 %") = .ok (lit "%25%41%254%41%20%25") ∧
      encode .reserved (lit "%25%41%254%41%20%25") = .ok (lit "%25%41%254%41%20%25") ∧
      UriText (lit "%25%41%254%41%20%25") := by
  have ht : Text.Encodable (lit "%%41%4%41 %") := by decide
  have hfirst : encode .reserved (lit "%%41%4%41 %") = .ok (lit "%25%41%254%41%20%25") := rfl
  obtain ⟨hagain, -⟩ := encode_normalises (lit "%%41%4%41 %")
  obtain ⟨out, hout, hfixed⟩ := hagain ht .reserved
  obtain rfl := Except.ok.inj (hout.symm.trans hfirst)
  exact ⟨ht, hfirst, hfixed, (encode_normalises _).2.mp hfixed⟩

/-! ### What a literal stands for -/

/-- A triplet stays where it stands, whatever is before it. -/
theorem encoded_append_triplet (before : Text) {a b : CodePoint} (ha : a.isHexDigit = true)
    (hb : b.isHexDigit = true) (after : Text) :
    encoded .reserved (before ++ CodePoint.scalar '%' :: a :: b :: after)
      = encoded .reserved before ++ CodePoint.scalar '%' :: a :: b :: encoded .reserved after := by
  rw [encoded_append_of_not_splits (not_splitsTriplet_percent before _), encoded_triplet ha hb]

/-- Any other percent sign becomes a triplet, whatever is before it. -/
theorem encoded_append_bare (before : Text) {after : Text}
    (h : startsWithTwoHexDigits after = false) :
    encoded .reserved (before ++ CodePoint.scalar '%' :: after)
      = encoded .reserved before ++ lit "%25" ++ encoded .reserved after := by
  rw [encoded_append_of_not_splits (not_splitsTriplet_percent before _), encoded_bare h,
    List.append_assoc]

/-- **Encoding a literal does not change what it stands for.**  Decoding gives
the same octets before and after.  Each triplet stands where it stood, between
what is written for the text on either side; each other percent sign is
written as the triplet of a percent sign and decoded to one. -/
theorem encodeLiteral_faithful {t : Text} (ht : Text.Encodable t) :
    ∃ out, encodeLiteral t = .ok out ∧ octets out = octets t ∧
      (∀ before a b after, t = before ++ CodePoint.scalar '%' :: a :: b :: after →
        a.isHexDigit = true → b.isHexDigit = true →
        ∃ front back, encodeLiteral before = .ok front ∧ encodeLiteral after = .ok back ∧
          out = front ++ CodePoint.scalar '%' :: a :: b :: back) ∧
      (∀ before after, t = before ++ CodePoint.scalar '%' :: after →
        startsWithTwoHexDigits after = false →
        ∃ front back, encodeLiteral before = .ok front ∧ encodeLiteral after = .ok back ∧
          out = front ++ lit "%25" ++ back ∧
          octets out = octets before ++ 0x25 :: octets after) := by
  refine ⟨_, encode_eq_ok .reserved ht, octets_encoded_reserved t, ?_, ?_⟩
  · rintro before a b after rfl ha hb
    obtain ⟨hbefore, hrest⟩ := Text.encodable_append.mp ht
    have hafter : Text.Encodable after := fun c hc => hrest c (by simp [hc])
    refine ⟨_, _, encode_eq_ok .reserved hbefore, encode_eq_ok .reserved hafter, ?_⟩
    exact encoded_append_triplet before ha hb after
  · rintro before after rfl hdigits
    obtain ⟨hbefore, hrest⟩ := Text.encodable_append.mp ht
    have hafter : Text.Encodable after := fun c hc => hrest c (by simp [hc])
    refine ⟨_, _, encode_eq_ok .reserved hbefore, encode_eq_ok .reserved hafter,
      encoded_append_bare before hdigits, ?_⟩
    rw [octets_encoded_reserved, octets_append (not_splitsTriplet_percent before _),
      octets_bare hdigits]

/-- A percent sign whose second digit is missing, before a triplet. -/
theorem encodeLiteral_faithful_broken :
    Text.Encodable (lit "%2%35") ∧ encodeLiteral (lit "%2%35") = .ok (lit "%252%35") ∧
      octets (lit "%252%35") = octets (lit "%2%35") ∧
      octets (lit "%252%35") = [0x25, 0x32, 0x35] := by
  have ht : Text.Encodable (lit "%2%35") := by decide
  have hencode : encodeLiteral (lit "%2%35") = .ok (lit "%252%35") := rfl
  obtain ⟨out, hout, hoctets, -, hbare⟩ := encodeLiteral_faithful ht
  obtain rfl := Except.ok.inj (hout.symm.trans hencode)
  obtain ⟨-, -, -, -, -, hdecoded⟩ := hbare [] (lit "2%35") rfl rfl
  exact ⟨ht, hencode, hoctets, hdecoded⟩

/-! ### One text behind another -/

/-- What is written octet by octet is written text by text. -/
theorem encoded_strict_append (t u : Text) :
    encoded .strict (t ++ u) = encoded .strict t ++ encoded .strict u := by
  rw [encoded_strict, encoded_strict, encoded_strict, List.flatMap_append, List.flatMap_append]

/-- **Encoding is done text by text, except at a split triplet.**  The strict
profile encodes two texts one after the other; the reserved one does exactly if
no triplet straddles the place where they meet. -/
theorem encode_append {t u : Text} (ht : Text.Encodable t) (hu : Text.Encodable u) :
    (∃ out out', encode .strict t = .ok out ∧ encode .strict u = .ok out' ∧
      encode .strict (t ++ u) = .ok (out ++ out')) ∧
    ∃ out out' whole, encode .reserved t = .ok out ∧ encode .reserved u = .ok out' ∧
      encode .reserved (t ++ u) = .ok whole ∧ (whole = out ++ out' ↔ ¬ t.Straddles u) := by
  have htu : Text.Encodable (t ++ u) := Text.encodable_append.mpr ⟨ht, hu⟩
  refine ⟨⟨_, _, encode_eq_ok .strict ht, encode_eq_ok .strict hu, ?_⟩, _, _, _,
    encode_eq_ok .reserved ht, encode_eq_ok .reserved hu, encode_eq_ok .reserved htu, ?_⟩
  · rw [encode_eq_ok .strict htu, encoded_strict_append]
  · rw [encoded_append_iff, splitsTriplet_iff_straddles]

/-- A percent sign with one digit, before a text that begins with another. -/
theorem encode_append_straddling :
    Text.Encodable (lit "50%4") ∧ Text.Encodable (lit "1 %") ∧
      encode .strict (lit "50%4" ++ lit "1 %") = .ok (lit "50%254" ++ lit "1%20%25") ∧
      encode .reserved (lit "50%4" ++ lit "1 %") = .ok (lit "50%41%20%25") ∧
      lit "50%41%20%25" ≠ lit "50%254" ++ lit "1%20%25" := by
  have ht : Text.Encodable (lit "50%4") := by decide
  have hu : Text.Encodable (lit "1 %") := by decide
  have hstraddles : Text.Straddles (lit "50%4") (lit "1 %") :=
    .inr ⟨lit "50", '4', '1', lit " %", rfl, rfl, rfl, rfl⟩
  have hfirst : ∀ p, encode p (lit "50%4") = .ok (lit "50%254") := by
    rintro (- | -) <;> rfl
  have hsecond : ∀ p, encode p (lit "1 %") = .ok (lit "1%20%25") := by
    rintro (- | -) <;> rfl
  have hwhole : encode .reserved (lit "50%4" ++ lit "1 %") = .ok (lit "50%41%20%25") := rfl
  obtain ⟨⟨front, back, hfront, hback, hstrict⟩, out, out', whole, hout, hout', hboth, hiff⟩ :=
    encode_append ht hu
  obtain rfl := Except.ok.inj (hfront.symm.trans (hfirst .strict))
  obtain rfl := Except.ok.inj (hback.symm.trans (hsecond .strict))
  obtain rfl := Except.ok.inj (hout.symm.trans (hfirst .reserved))
  obtain rfl := Except.ok.inj (hout'.symm.trans (hsecond .reserved))
  obtain rfl := Except.ok.inj (hboth.symm.trans hwhole)
  exact ⟨ht, hu, hstrict, hwhole, fun heq => hiff.mp heq hstraddles⟩

end Percent

end UriExpansion
