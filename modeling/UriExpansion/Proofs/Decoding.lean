/-
UriExpansion/Proofs/Decoding.lean

Percent-decoding, and what the encoder does to it.

`Percent.octets` reads a text from left to right: a percent sign with two
hexadecimal digits behind it stands for an octet, and every other character
for the octets of its UTF-8 form.  `Percent.decode` reads these octets as UTF-8.

Nothing is assumed of the text that is decoded.  A text that the strict encoder
wrote has no percent signs besides its triplets, so that decoding it gives the
octets of the original back (`octets_encoded`), and with them the original
itself (`decode_encoded`).  The reserved encoder keeps the triplets that it
finds, and what it writes stands for the same octets as the text that it was
given (`octets_encoded_reserved`).
-/
import UriExpansion.Proofs.Percent

namespace UriExpansion

/-- The octets of a code point in UTF-8; a surrogate has none. -/
def CodePoint.utf8 : CodePoint → List UInt8
  | .scalar c => String.utf8EncodeChar c
  | .surrogate _ => []

namespace Percent

/-! ### The decoder -/

/-- The octet that three characters stand for, if they are a triplet. -/
def octet? (c a b : CodePoint) : Option UInt8 :=
  if c = '%' then
    match a.hexValue?, b.hexValue? with
    | some high, some low => some (UInt8.ofNat (16 * high + low))
    | _, _ => none
  else none

/-- The octets that a text stands for. -/
def octets : Text → List UInt8
  | [] => []
  | [c] => c.utf8
  | [c, d] => c.utf8 ++ d.utf8
  | c :: a :: b :: rest =>
    match octet? c a b with
    | some n => n :: octets rest
    | none => c.utf8 ++ octets (a :: b :: rest)

/-- The text whose UTF-8 form a text stands for, if there is one. -/
def decode (t : Text) : Option Text :=
  ((octets t).toByteArray.utf8Decode?).map fun chars => chars.toList.map CodePoint.scalar

/-! ### Decoding what has been encoded -/

/-- What is no percent sign stands for itself. -/
theorem octets_cons {c : CodePoint} (h : c ≠ CodePoint.scalar '%') (rest : Text) :
    octets (c :: rest) = c.utf8 ++ octets rest := by
  match rest with
  | [] => exact (List.append_nil c.utf8).symm
  | [d] => rfl
  | a :: b :: rest => rw [octets, octet?, if_neg h]

theorem hexValue?_hexDigit : ∀ n, n < 16 → (CodePoint.scalar (hexDigit n)).hexValue? = some n := by
  decide

theorem octet?_hexDigit (n : UInt8) :
    octet? '%' (.scalar (hexDigit (n.toNat / 16))) (.scalar (hexDigit (n.toNat % 16))) = some n := by
  have hn : n.toNat < 256 := n.toNat_lt
  rw [octet?, if_pos rfl, hexValue?_hexDigit _ (by omega), hexValue?_hexDigit _ (by omega)]
  show some (UInt8.ofNat (16 * (n.toNat / 16) + n.toNat % 16)) = some n
  rw [Nat.div_add_mod, UInt8.ofNat_toNat]

/-- A triplet stands for its octet. -/
theorem octets_triplet (b : UInt8) (rest : Text) :
    octets (triplet b ++ rest) = b :: octets rest := by
  rw [triplet, List.cons_append, List.cons_append, List.singleton_append, octets, octet?_hexDigit]

theorem octets_flatMap_triplet (bytes : List UInt8) (rest : Text) :
    octets (bytes.flatMap triplet ++ rest) = bytes ++ octets rest := by
  induction bytes with
  | nil => rfl
  | cons b bytes ih =>
    rw [List.flatMap_cons, List.append_assoc, octets_triplet, ih, List.cons_append]

/-- What is encoded stands for the octets of its character. -/
theorem octets_encodedOne (c : CodePoint) (rest : Text) :
    octets (encodedOne c ++ rest) = c.utf8 ++ octets rest := by
  cases c with
  | scalar x => exact octets_flatMap_triplet _ _
  | surrogate i => rfl

/-- **What the strict encoder writes stands for the octets of its text.** -/
theorem octets_encoded (t : Text) : octets (encoded .strict t) = t.flatMap CodePoint.utf8 := by
  induction t with
  | nil => rfl
  | cons c rest ih =>
    rw [encoded_cons, Profile.place, List.flatMap_cons, ← ih]
    split
    · next hkeeps =>
      have hc : c ≠ CodePoint.scalar '%' := by
        rintro rfl
        cases hkeeps
      rw [List.singleton_append, octets_cons hc]
    · exact octets_encodedOne c _

/-! ### Percent signs of a text -/

/-- Two characters behind a percent sign make a triplet exactly if both are
digits. -/
theorem isSome_octet? (a b : CodePoint) :
    (octet? '%' a b).isSome = (a.isHexDigit && b.isHexDigit) := by
  rw [octet?, if_pos rfl, CodePoint.isHexDigit, CodePoint.isHexDigit]
  cases a.hexValue? <;> cases b.hexValue? <;> rfl

theorem octets_of_octet? {a b : CodePoint} {n : UInt8} (h : octet? '%' a b = some n)
    (rest : Text) : octets (CodePoint.scalar '%' :: a :: b :: rest) = n :: octets rest := by
  rw [octets, h]

/-- Two digits behind a percent sign stand for an octet, whatever follows. -/
theorem exists_octet {a b : CodePoint} (ha : a.isHexDigit = true) (hb : b.isHexDigit = true) :
    ∃ n, octet? '%' a b = some n := by
  rw [← Option.isSome_iff_exists, isSome_octet?, ha, hb]
  rfl

/-- A percent sign that begins no triplet stands for itself. -/
theorem octets_bare {rest : Text} (h : startsWithTwoHexDigits rest = false) :
    octets (CodePoint.scalar '%' :: rest) = 0x25 :: octets rest := by
  match rest, h with
  | [], _ => rfl
  | [d], _ => rfl
  | a :: b :: rest, h =>
    have hnone : octet? '%' a b = none := by
      rw [← Option.not_isSome_iff_eq_none, isSome_octet?]
      exact ne_true_of_eq_false h
    rw [octets, hnone]
    rfl

/-- Two texts that split no triplet are decoded one after the other. -/
theorem octets_append {t u : Text} (h : ¬ SplitsTriplet t u) :
    octets (t ++ u) = octets t ++ octets u := by
  induction t using percent_induction with
  | nil => rfl
  | plain c rest hc ih =>
    obtain ⟨-, hrest⟩ := not_or.mp (mt splitsTriplet_cons.mpr h)
    rw [List.cons_append, octets_cons hc, octets_cons hc, ih hrest, List.append_assoc]
  | bare rest hdigits ih =>
    obtain ⟨hc, hrest⟩ := not_or.mp (mt splitsTriplet_cons.mpr h)
    have hdigits' : startsWithTwoHexDigits (rest ++ u) = false :=
      eq_false_of_ne_true fun hyes => hc ⟨rfl, hdigits, hyes⟩
    rw [List.cons_append, octets_bare hdigits, octets_bare hdigits', ih hrest, List.cons_append]
  | triplet a b rest ha hb ih =>
    -- neither digit is a percent sign
    have hrest : ¬ SplitsTriplet rest u := fun hrest => h
      (splitsTriplet_cons.mpr (.inr (splitsTriplet_cons.mpr (.inr
        (splitsTriplet_cons.mpr (.inr hrest))))))
    obtain ⟨n, hn⟩ := exists_octet ha hb
    rw [List.cons_append, List.cons_append, List.cons_append, octets_of_octet? hn,
      octets_of_octet? hn, ih hrest, List.cons_append]

/-- **What the reserved encoder writes stands for the same octets as its
text.** -/
theorem octets_encoded_reserved (t : Text) : octets (encoded .reserved t) = octets t := by
  induction t using percent_induction with
  | nil => rfl
  | plain c rest hc ih =>
    rw [encoded_cons, Profile.place, octets_cons hc]
    split
    · rw [List.singleton_append, octets_cons hc, ih]
    · rw [octets_encodedOne, ih]
  | bare rest hdigits ih =>
    have hpercent : lit "%25" = triplet 0x25 := rfl
    rw [encoded_bare hdigits, hpercent, octets_triplet, octets_bare hdigits, ih]
  | triplet a b rest ha hb ih =>
    obtain ⟨n, hn⟩ := exists_octet ha hb
    rw [encoded_triplet ha hb, octets_of_octet? hn, octets_of_octet? hn, ih]

/-! ### Reading octets as text -/

/-- Texts without surrogates are those of characters. -/
theorem exists_chars {t : Text} (h : Text.Encodable t) :
    ∃ chars : List Char, t = chars.map CodePoint.scalar := by
  induction t with
  | nil => exact ⟨[], rfl⟩
  | cons c rest ih =>
    obtain ⟨hc, hrest⟩ := List.forall_mem_cons.mp h
    obtain ⟨chars, rfl⟩ := ih hrest
    cases c with
    | surrogate i => cases hc
    | scalar x => exact ⟨x :: chars, rfl⟩

/-- A text is decoded to the one text without surrogates whose UTF-8 form is
what it stands for. -/
theorem decode_eq_some_iff {out t : Text} :
    decode out = some t ↔ Text.Encodable t ∧ octets out = t.flatMap CodePoint.utf8 := by
  constructor
  · intro h
    obtain ⟨chars, hchars, rfl⟩ := Option.map_eq_some_iff.mp h
    refine ⟨fun c hc => ?_, ?_⟩
    · obtain ⟨x, -, rfl⟩ := List.mem_map.mp hc
      rfl
    · have hsome : (octets out).toByteArray.utf8Decode?.isSome = true := by
        rw [hchars]
        rfl
      have hbytes : chars.toList.utf8Encode = (octets out).toByteArray := by
        have hget := ByteArray.utf8Encode_get_utf8Decode? (h := hsome)
        simpa only [hchars, Option.get_some] using hget
      rw [List.flatMap_map]
      exact (List.toByteArray_inj.mp hbytes).symm
  · rintro ⟨henc, hoctets⟩
    obtain ⟨chars, rfl⟩ := exists_chars henc
    have hbytes : (octets out).toByteArray = chars.utf8Encode := by
      rw [hoctets, List.flatMap_map]
      rfl
    rw [decode, hbytes, List.utf8Decode?_utf8Encode, Option.map_some]

/-- **Decoding undoes the strict encoder.** -/
theorem decode_encoded {t : Text} (h : Text.Encodable t) : decode (encoded .strict t) = some t :=
  decode_eq_some_iff.mpr ⟨h, octets_encoded t⟩

end Percent

end UriExpansion
