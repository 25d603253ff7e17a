/-
UriExpansion/Proofs/Lines.lean

Lines of texts, and of what the console makes of them.

A line feed ends a line.  Texts that are written one after the other, each with a line
feed behind it, make a line each, and one more for each line feed in them
(`CommandLine.length_lines_lineText`).  What the console leaves out or shows in another
way neither holds a line feed nor makes one (`CommandLine.count_appearance`), so that the
lines on the console are as many.
-/
import UriExpansion.Proofs.Console
import UriExpansion.Proofs.Grammar

namespace UriExpansion

/-! ### Lines -/

/-- What ends a line. -/
def CodePoint.lineFeed : CodePoint := CodePoint.scalar '\n'

open CodePoint (lineFeed)

namespace Text

/-- The lines of a text, each of which a line feed ends. -/
def lines (t : Text) : List Text := (split lineFeed t).dropLast

theorem split_of_not_mem {sep : CodePoint} {t : Text} (h : sep ∉ t) : split sep t = [t] := by
  have hsplit := split_intercalate (List.cons_ne_nil t []) (List.forall_mem_singleton.mpr h)
  rwa [List.intercalate_singleton] at hsplit

/-- What is joined stands in the whole. -/
theorem infix_intercalate (sep : Text) {pieces : List Text} {piece : Text} (h : piece ∈ pieces) :
    piece <:+: List.intercalate sep pieces := by
  induction pieces with
  | nil => exact absurd h List.not_mem_nil
  | cons first rest ih =>
    rcases rest with - | ⟨next, rest⟩
    · simp [List.mem_singleton.mp h]
    · rw [List.intercalate_cons_cons]
      rcases List.mem_cons.mp h with rfl | h
      · rw [List.append_assoc]
        exact (List.prefix_append piece _).isInfix
      · exact (ih h).trans (List.suffix_append _ _).isInfix

/-- What is cut out of a text stands in it. -/
theorem infix_of_mem_split {sep : CodePoint} {t piece : Text} (h : piece ∈ split sep t) :
    piece <:+: t := by
  have hinfix := infix_intercalate [sep] h
  rwa [intercalate_split] at hinfix

/-- A text without line feeds is a line if one is put behind it. -/
theorem lines_append {line : Text} (h : lineFeed ∉ line) (t : Text) :
    lines (line ++ lit "\n" ++ t) = line :: lines t := by
  have hsplit := split_append_cons lineFeed line t
  rw [split_of_not_mem h, List.singleton_append] at hsplit
  rw [List.append_assoc]
  show (split lineFeed (line ++ lineFeed :: t)).dropLast = _
  rw [hsplit, List.dropLast_cons_of_ne_nil (split_ne_nil lineFeed t)]
  rfl

theorem length_lines (t : Text) : t.lines.length = t.count lineFeed := by
  rw [lines, List.length_dropLast]
  apply Nat.sub_eq_of_eq_add
  induction t with
  | nil => rfl
  | cons c t ih =>
    rw [split]
    split
    · next hc => rw [hc, List.length_cons, ih, List.count_cons_self]
    · next hc =>
      rw [List.count_cons_of_ne hc, ← ih]
      rcases hsplit : split lineFeed t with - | ⟨piece, pieces⟩
      · exact absurd hsplit (split_ne_nil lineFeed t)
      · rfl

/-- Digits are no line feeds. -/
theorem lineFeed_not_mem_toDigits {b : Nat} (hb : 1 < b) (hle : b ≤ 16) (n : Nat) :
    lineFeed ∉ (Nat.toDigits b n).map CodePoint.scalar := by
  intro hmem
  obtain ⟨x, hx, heq⟩ := List.mem_map.mp hmem
  obtain ⟨k, hk, rfl⟩ := exists_of_mem_toDigits hb hx
  have hall : ∀ k < 16, CodePoint.scalar (Nat.digitChar k) ≠ lineFeed := by decide
  exact hall k (Nat.lt_of_lt_of_le hk hle) heq

theorem lineFeed_not_mem_ofInt (n : Int) : lineFeed ∉ ofInt n := by
  cases n with
  | ofNat n => exact lineFeed_not_mem_toDigits (by decide) (by decide) n
  | negSucc n =>
    refine List.not_mem_cons_of_ne_of_not_mem (by decide) ?_
    exact lineFeed_not_mem_toDigits (by decide) (by decide) (n + 1)

theorem lineFeed_not_mem_hex (width n : Nat) : lineFeed ∉ hex width n := by
  intro hmem
  rcases List.mem_append.mp hmem with hmem | hmem
  · exact absurd (List.eq_of_mem_replicate hmem) (by decide)
  · exact lineFeed_not_mem_toDigits (by decide) (by decide) n hmem

/-- Fixed words around a text bring no line feed. -/
theorem lineFeed_mem_between_iff {before after : Text} (hbefore : lineFeed ∉ before)
    (hafter : lineFeed ∉ after) (t : Text) : lineFeed ∈ before ++ t ++ after ↔ lineFeed ∈ t := by
  rw [List.mem_append, List.mem_append, or_iff_left hafter, or_iff_right hbefore]

/-- Joined texts have the line feeds of each of them if the separator has none. -/
theorem lineFeed_mem_intercalate_iff {sep : Text} (hsep : lineFeed ∉ sep) (pieces : List Text) :
    lineFeed ∈ List.intercalate sep pieces ↔ ∃ piece ∈ pieces, lineFeed ∈ piece := by
  constructor
  · intro h
    induction pieces with
    | nil => exact absurd h List.not_mem_nil
    | cons first rest ih =>
      rcases rest with - | ⟨next, rest⟩
      · rw [List.intercalate_singleton] at h
        exact ⟨first, List.mem_cons_self, h⟩
      · rw [List.intercalate_cons_cons, List.mem_append, List.mem_append, or_iff_left hsep] at h
        rcases h with h | h
        · exact ⟨first, List.mem_cons_self, h⟩
        · obtain ⟨piece, hpiece, hmem⟩ := ih h
          exact ⟨piece, List.mem_cons_of_mem _ hpiece, hmem⟩
  · rintro ⟨piece, hpiece, hmem⟩
    exact (infix_intercalate sep hpiece).mem hmem

theorem lineFeed_not_mem_numericEscape (n : Nat) : lineFeed ∉ numericEscape n := by
  have happend : ∀ {mark : Text}, lineFeed ∉ mark → ∀ width, lineFeed ∉ mark ++ hex width n :=
    fun hmark width hmem => (List.mem_append.mp hmem).elim hmark (lineFeed_not_mem_hex width n)
  unfold numericEscape
  split
  · exact happend (by decide) 2
  · split
    · exact happend (by decide) 4
    · exact happend (by decide) 8

/-- A line feed is escaped, and no other escape has one in it. -/
theorem lineFeed_not_mem_escapeBetween {quote : CodePoint} (hquote : quote ≠ lineFeed)
    (c : CodePoint) : lineFeed ∉ escapeBetween quote c := by
  unfold escapeBetween
  split
  · next hc =>
    have hne : c ≠ lineFeed := by
      rcases hc with rfl | rfl
      · exact hquote
      · decide
    exact List.not_mem_cons_of_ne_of_not_mem (by decide)
      (List.not_mem_cons_of_ne_of_not_mem hne.symm List.not_mem_nil)
  · split
    · decide
    · next hc =>
      split
      · decide
      · split
        · decide
        · split
          · exact List.not_mem_cons_of_ne_of_not_mem (Ne.symm hc) List.not_mem_nil
          · exact lineFeed_not_mem_numericEscape c.toNat

/-- A text between quotes is on one line. -/
theorem lineFeed_not_mem_quoted (t : Text) : lineFeed ∉ quoted t := by
  have hbetween : ∀ quote : CodePoint, quote ≠ lineFeed →
      lineFeed ∉ [quote] ++ t.flatMap (escapeBetween quote) ++ [quote] := by
    intro quote hquote
    have hmark : lineFeed ∉ [quote] :=
      List.not_mem_cons_of_ne_of_not_mem hquote.symm List.not_mem_nil
    rw [lineFeed_mem_between_iff hmark hmark, List.mem_flatMap]
    rintro ⟨c, -, hc⟩
    exact lineFeed_not_mem_escapeBetween hquote c hc
  unfold quoted
  dsimp only
  split
  · exact hbetween _ (by decide)
  · exact hbetween _ (by decide)

end Text

namespace CommandLine

theorem lines_lineText {lines : List Text} (h : ∀ line ∈ lines, lineFeed ∉ line) :
    (lineText lines).lines = lines := by
  induction lines with
  | nil => rfl
  | cons line lines ih =>
    obtain ⟨hline, hlines⟩ := List.forall_mem_cons.mp h
    rw [lineText_cons, Text.lines_append hline, ih hlines]

/-- Every text gives its own line, and one more for each line feed in it. -/
theorem length_lines_lineText (lines : List Text) :
    (lineText lines).lines.length = lines.length + lines.flatten.count lineFeed := by
  rw [Text.length_lines]
  induction lines with
  | nil => rfl
  | cons line lines ih =>
    rw [lineText_cons, List.count_append, List.count_append, ih, List.flatten_cons,
      List.count_append, List.length_cons]
    show line.count lineFeed + 1 + _ = _
    omega

/-! ### Lines on the console -/

theorem console_eq_lineText (lines : List Text) :
    console lines = lineText (lines.map appearance) := by
  rw [lineText, List.flatMap_map]
  rfl

/-- A sequence has no line feed in it. -/
theorem count_of_beginsSequence {t after : Text} (h : t.BeginsSequence after) :
    t.count lineFeed = after.count lineFeed := by
  obtain ⟨numbers, letter, hnumbers, hletter, rfl⟩ := h
  have hnone : lineFeed ∉ numbers := fun hmem => absurd (hnumbers _ hmem) (by decide)
  have hother : CodePoint.scalar letter ≠ lineFeed := by
    intro heq
    rw [CodePoint.scalar.inj heq] at hletter
    exact absurd hletter (by decide)
  rw [List.count_cons_of_ne (by decide), List.count_cons_of_ne (by decide), List.count_append,
    List.count_eq_zero.mpr hnone, List.count_cons_of_ne hother, Nat.zero_add]

theorem count_withoutSequences (t : Text) :
    (withoutSequences t).count lineFeed = t.count lineFeed := by
  have hgo : ∀ n (t : Text), (withoutSequences.go n t).count lineFeed = t.count lineFeed := by
    intro n
    induction n with
    | zero => exact fun t => rfl
    | succ n ih =>
      intro t
      rcases t with - | ⟨c, rest⟩
      · rfl
      · rcases withoutSequences.go_cons n c rest with ⟨after, hbegins, hgo⟩ | ⟨-, hgo⟩
        · rw [hgo, ih, count_of_beginsSequence hbegins]
        · rw [hgo, List.count_cons, List.count_cons, ih]
  exact hgo t.length t

/-- The number that a surrogate is shown by has no line feed in it. -/
theorem count_shownSurrogate (c : CodePoint) :
    (shownSurrogate c).count lineFeed = [c].count lineFeed := by
  rw [shownSurrogate]
  split
  · next hc =>
    have hother : c ≠ lineFeed := by
      rintro rfl
      exact absurd hc (by decide)
    rw [List.count_append, List.count_eq_zero.mpr (Text.lineFeed_not_mem_hex 4 c.toNat),
      List.count_cons_of_ne hother]
    rfl
  · rfl

/-- **A line appears with as many line feeds as it has.** -/
theorem count_appearance (line : Text) : (appearance line).count lineFeed = line.count lineFeed := by
  rw [appearance, ← count_withoutSequences line]
  induction withoutSequences line with
  | nil => rfl
  | cons c t ih =>
    rw [List.flatMap_cons, List.count_append, ih, count_shownSurrogate, ← List.count_append]
    rfl

/-- On the console, too, every line has its own, and one more for each line feed in it. -/
theorem length_lines_console (lines : List Text) :
    (console lines).lines.length = lines.length + lines.flatten.count lineFeed := by
  rw [console_eq_lineText, length_lines_lineText, List.length_map]
  apply congrArg (lines.length + ·)
  induction lines with
  | nil => rfl
  | cons line lines ih =>
    rw [List.map_cons, List.flatten_cons, List.flatten_cons, List.count_append, List.count_append,
      count_appearance, ih]

theorem length_lines_console_eq_iff (lines : List Text) :
    (console lines).lines.length = lines.length ↔ ∀ line ∈ lines, lineFeed ∉ line := by
  rw [length_lines_console, Nat.add_eq_left, List.count_eq_zero, List.mem_flatten]
  simp only [not_exists, not_and]

/-- The lines on the console are those that were written exactly if none has a line
feed in it and all are plain. -/
theorem lines_console_eq_iff (lines : List Text) :
    (console lines).lines = lines ↔ ∀ line ∈ lines, lineFeed ∉ line ∧ line.Plain := by
  constructor
  · intro h
    have hnone := (length_lines_console_eq_iff lines).mp (congrArg List.length h)
    have hshown : ∀ line ∈ lines.map appearance, lineFeed ∉ line := by
      refine List.forall_mem_map.mpr fun line hline => ?_
      rw [← List.count_eq_zero, count_appearance, List.count_eq_zero]
      exact hnone line hline
    rw [console_eq_lineText, lines_lineText hshown] at h
    have hplain : ∀ line ∈ lines, line.Plain := by
      rw [← console_eq_iff, console_eq_lineText, h]
    exact fun line hline => ⟨hnone line hline, hplain line hline⟩
  · intro h
    rw [(console_eq_iff lines).mpr fun line hline => (h line hline).2]
    exact lines_lineText fun line hline => (h line hline).1

end CommandLine

end UriExpansion
