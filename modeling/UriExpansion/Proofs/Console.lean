/-
UriExpansion/Proofs/Console.lean

What the console makes of a line.

Output that goes to no terminal loses the sequences that steer one, and a
surrogate is shown by its number.  A line appears as it is exactly if it is
`Text.Plain`: no sequence stands in it (`Text.Steers`) and no surrogate.
Sequences are left out and nothing is put in their place, so that a line which
has one comes out shorter (`length_go_lt`), and what is missing in one line is not
made up for by another (`console_eq_iff`).

Two kinds of text are always plain: the text of a URI, and a JSON document,
which is written in ASCII with all control characters escaped
(`UriText.plain`, `Json.Tree.plain_render`).
-/
import UriExpansion.CommandLine.Report
import UriExpansion.Proofs.Inertness

namespace UriExpansion

/-! ### Plain text -/

/-- The code points that may stand between the beginning of an escape sequence
and its letter. -/
def CodePoint.isParameter (c : CodePoint) : Bool :=
  c = CodePoint.scalar ';' || c = CodePoint.scalar '?' || c.isDigit

namespace Text

/-- The text begins with a sequence that steers a terminal: an escape, a bracket,
numbers and a letter. -/
def BeginsSequence (t after : Text) : Prop :=
  ∃ numbers letter, (∀ c ∈ numbers, CodePoint.isParameter c = true) ∧ letter.isAlpha = true ∧
    t = CodePoint.scalar '\x1b' :: CodePoint.scalar '[' ::
      (numbers ++ CodePoint.scalar letter :: after)

/-- Such a sequence stands somewhere in the text. -/
def Steers (t : Text) : Prop := ∃ before u after, u.BeginsSequence after ∧ t = before ++ u

/-- The console shows the text as it is. -/
structure Plain (t : Text) : Prop where
  calm : ¬ t.Steers
  encodable : t.Encodable

/-- No surrogate and no character that could begin a sequence. -/
def Quiet (t : Text) : Prop := ∀ c ∈ t, c ≠ CodePoint.scalar '\x1b' ∧ c.isSurrogate = false

instance (t : Text) : Decidable t.Quiet := by unfold Quiet; infer_instance

variable {t u : Text}

theorem quiet_nil : Quiet [] := fun _ h => absurd h List.not_mem_nil

theorem Quiet.append (ht : t.Quiet) (hu : u.Quiet) : (t ++ u).Quiet := by
  intro c hc
  rcases List.mem_append.mp hc with hc | hc
  · exact ht c hc
  · exact hu c hc

theorem Quiet.plain (h : t.Quiet) : t.Plain := by
  refine ⟨?_, fun c hc => (h c hc).2⟩
  rintro ⟨before, u, after, ⟨numbers, letter, -, -, rfl⟩, rfl⟩
  exact (h _ (List.mem_append_right before List.mem_cons_self)).1 rfl

theorem not_steers_nil : ¬ Steers [] := by
  rintro ⟨before, u, after, ⟨numbers, letter, -, -, rfl⟩, ht⟩
  exact absurd ht.symm (List.append_ne_nil_of_right_ne_nil before (List.cons_ne_nil _ _))

/-- A sequence that does not begin at once stands in what follows. -/
theorem steers_cons_iff {c : CodePoint} :
    Steers (c :: t) ↔ (∃ after, BeginsSequence (c :: t) after) ∨ t.Steers := by
  constructor
  · rintro ⟨before, u, after, hu, ht⟩
    rcases before with - | ⟨d, before⟩
    · rw [List.nil_append] at ht
      rw [← ht] at hu
      exact .inl ⟨after, hu⟩
    · exact .inr ⟨before, u, after, hu, (List.cons.inj ht).2⟩
  · rintro (⟨after, hbegins⟩ | ⟨before, u, after, hu, rfl⟩)
    · exact ⟨[], c :: t, after, hbegins, rfl⟩
    · exact ⟨c :: before, u, after, hu, rfl⟩

end Text

/-- The text of a URI has neither control characters nor surrogates. -/
theorem UriText.plain {t : Text} (h : UriText t) : t.Plain := by
  apply Text.Quiet.plain
  intro c hc
  refine ⟨?_, h.encodable c hc⟩
  rintro rfl
  rcases h.mem _ hc with hmem | hmem | hmem
  · exact absurd hmem (by decide)
  · exact absurd hmem (by decide)
  · exact absurd hmem (by decide)

namespace CommandLine

/-! ### Sequences -/

/-- A letter ends the numbers of a sequence. -/
theorem isParameter_of_isAlpha {letter : Char} (h : letter.isAlpha = true) :
    CodePoint.isParameter (.scalar letter) = false := by
  apply Bool.eq_false_iff.mpr
  intro hparameter
  have hcases : (letter = ';' ∨ letter = '?') ∨ letter.isDigit = true := by
    simpa [CodePoint.isParameter, CodePoint.isDigit] using hparameter
  rcases hcases with (rfl | rfl) | hdigit
  · exact absurd h (by decide)
  · exact absurd h (by decide)
  · have hletter := Percent.isAlpha_iff.mp h
    have hnumber := Percent.isDigit_iff.mp hdigit
    omega

/-- What stands between the beginning of a sequence and its end. -/
theorem afterSequence?_eq_some {t after : Text} : afterSequence? t = some after ↔
    ∃ numbers letter, (∀ c ∈ numbers, CodePoint.isParameter c = true) ∧ letter.isAlpha = true ∧
      t = numbers ++ CodePoint.scalar letter :: after := by
  constructor
  · intro h
    unfold afterSequence? at h
    dsimp only at h
    split at h
    · next letter rest hdrop =>
      have hdrop : t.dropWhile CodePoint.isParameter = CodePoint.scalar letter :: rest := hdrop
      split at h
      · next hletter =>
        obtain rfl := Option.some.inj h
        refine ⟨t.takeWhile CodePoint.isParameter, letter, ?_, hletter, ?_⟩
        · exact List.all_eq_true.mp List.all_takeWhile
        · rw [← hdrop, List.takeWhile_append_dropWhile]
      · cases h
    · cases h
  · rintro ⟨numbers, letter, hnumbers, hletter, rfl⟩
    have hdrop : (numbers ++ CodePoint.scalar letter :: after).dropWhile CodePoint.isParameter
        = CodePoint.scalar letter :: after := by
      rw [List.dropWhile_append_of_pos hnumbers, List.dropWhile_cons_of_neg]
      rw [isParameter_of_isAlpha hletter]
      exact Bool.false_ne_true
    unfold afterSequence?
    dsimp only
    split
    · next hsame =>
      obtain ⟨hfirst, rfl⟩ := List.cons.inj (hsame.symm.trans hdrop)
      obtain rfl := CodePoint.scalar.inj hfirst
      exact if_pos hletter
    · next hother => exact absurd hdrop (hother letter after)

namespace withoutSequences

/-- A step leaves out the sequence that begins the text, or keeps the first
code point. -/
theorem go_cons (n : Nat) (c : CodePoint) (rest : Text) :
    (∃ after, Text.BeginsSequence (c :: rest) after ∧ go (n + 1) (c :: rest) = go n after) ∨
      (¬ ∃ after, Text.BeginsSequence (c :: rest) after) ∧
        go (n + 1) (c :: rest) = c :: go n rest := by
  by_cases hopen : ∃ tail, c = CodePoint.scalar '\x1b' ∧ rest = CodePoint.scalar '[' :: tail
  · obtain ⟨tail, rfl, rfl⟩ := hopen
    rcases hafter : afterSequence? tail with - | after
    · refine .inr ⟨?_, by rw [go, hafter]⟩
      rintro ⟨after, numbers, letter, hnumbers, hletter, ht⟩
      have htail := (List.cons.inj (List.cons.inj ht).2).2
      have hsome := afterSequence?_eq_some.mpr ⟨numbers, letter, hnumbers, hletter, htail⟩
      rw [hafter] at hsome
      cases hsome
    · obtain ⟨numbers, letter, hnumbers, hletter, rfl⟩ := afterSequence?_eq_some.mp hafter
      exact .inl ⟨after, ⟨numbers, letter, hnumbers, hletter, rfl⟩, by rw [go, hafter]⟩
  · refine .inr ⟨?_, ?_⟩
    · rintro ⟨after, numbers, letter, -, -, ht⟩
      obtain ⟨hc, hrest⟩ := List.cons.inj ht
      exact hopen ⟨_, hc, hrest⟩
    · rw [go]
      exact fun tail hc hrest => hopen ⟨tail, hc, hrest⟩

/-- What follows a sequence is shorter than the text that it begins. -/
theorem sublist_of_beginsSequence {t after : Text} (h : t.BeginsSequence after) :
    after.Sublist t ∧ after.length < t.length := by
  obtain ⟨numbers, letter, -, -, rfl⟩ := h
  constructor
  · have hsub := (List.sublist_cons_self (CodePoint.scalar letter) after).trans
      (List.sublist_append_right numbers _)
    exact (hsub.cons _).cons _
  · simp only [List.length_cons, List.length_append]
    omega

/-- Sequences are left out and nothing else happens. -/
theorem go_sublist (n : Nat) (t : Text) : (go n t).Sublist t := by
  induction n generalizing t with
  | zero => exact List.Sublist.refl t
  | succ n ih =>
    rcases t with - | ⟨c, rest⟩
    · exact List.Sublist.refl []
    · rcases go_cons n c rest with ⟨after, hbegins, hgo⟩ | ⟨-, hgo⟩
      · rw [hgo]
        exact (ih after).trans (sublist_of_beginsSequence hbegins).1
      · rw [hgo]
        exact (ih rest).cons_cons c

theorem go_of_not_steers (n : Nat) {t : Text} (h : ¬ t.Steers) : go n t = t := by
  induction n generalizing t with
  | zero => rfl
  | succ n ih =>
    rcases t with - | ⟨c, rest⟩
    · rfl
    · rw [Text.steers_cons_iff, not_or] at h
      rcases go_cons n c rest with ⟨after, hbegins, -⟩ | ⟨-, hgo⟩
      · exact absurd ⟨after, hbegins⟩ h.1
      · rw [hgo, ih h.2]

/-- A text with a sequence comes out shorter. -/
theorem length_go_lt {n : Nat} {t : Text} (hn : t.length ≤ n) (h : t.Steers) :
    (go n t).length < t.length := by
  induction n generalizing t with
  | zero =>
    rw [List.length_eq_zero_iff.mp (Nat.le_zero.mp hn)] at h
    exact absurd h Text.not_steers_nil
  | succ n ih =>
    rcases t with - | ⟨c, rest⟩
    · exact absurd h Text.not_steers_nil
    · rcases go_cons n c rest with ⟨after, hbegins, hgo⟩ | ⟨hnot, hgo⟩
      · rw [hgo]
        exact Nat.lt_of_le_of_lt (go_sublist n after).length_le
          (sublist_of_beginsSequence hbegins).2
      · rw [hgo]
        have hrest := (Text.steers_cons_iff.mp h).resolve_left hnot
        exact Nat.succ_lt_succ (ih (Nat.le_of_succ_le_succ hn) hrest)

end withoutSequences

/-- What the console shows of a text stands in it. -/
theorem sublist_withoutSequences (t : Text) : (withoutSequences t).Sublist t :=
  withoutSequences.go_sublist t.length t

theorem withoutSequences_eq_self_iff {t : Text} : withoutSequences t = t ↔ ¬ t.Steers := by
  constructor
  · intro h hsteers
    have hlt := withoutSequences.length_go_lt (Nat.le_refl t.length) hsteers
    exact Nat.lt_irrefl _ (hlt.trans_eq (congrArg List.length h.symm))
  · exact withoutSequences.go_of_not_steers t.length

theorem encodable_withoutSequences {t : Text} (h : t.Encodable) : (withoutSequences t).Encodable :=
  fun c hc => h c ((sublist_withoutSequences t).subset hc)

/-! ### Lines -/

/-- A line as it appears on the console. -/
def appearance (line : Text) : Text := (withoutSequences line).flatMap shownSurrogate

/-- Lines as they are, each with a line feed behind it. -/
def lineText (lines : List Text) : Text := lines.flatMap fun line => line ++ lit "\n"

theorem console_cons (line : Text) (lines : List Text) :
    console (line :: lines) = appearance line ++ lit "\n" ++ console lines := List.flatMap_cons

theorem lineText_cons (line : Text) (lines : List Text) :
    lineText (line :: lines) = line ++ lit "\n" ++ lineText lines := List.flatMap_cons

theorem appearance_of_encodable {line : Text} (h : line.Encodable) :
    appearance line = withoutSequences line := by
  have hshown : ∀ c ∈ withoutSequences line, shownSurrogate c = [c] := by
    intro c hc
    rw [shownSurrogate, encodable_withoutSequences h c hc]
    rfl
  rw [appearance, List.flatMap_congr hshown, List.flatMap_singleton']

/-- No surrogate appears. -/
theorem encodable_appearance (line : Text) : (appearance line).Encodable := by
  intro c hc
  obtain ⟨d, -, hc⟩ := List.mem_flatMap.mp hc
  rw [shownSurrogate] at hc
  split at hc
  · have hmark : Text.Encodable (lit "\\u") := by decide
    rcases List.mem_append.mp hc with hc | hc
    · exact hmark c hc
    · rcases List.mem_append.mp hc with hc | hc
      · rw [List.eq_of_mem_replicate hc]
        rfl
      · obtain ⟨x, -, rfl⟩ := List.mem_map.mp hc
        rfl
  · next hd =>
    rw [List.mem_singleton.mp hc]
    exact Bool.eq_false_iff.mpr hd

theorem encodable_console (lines : List Text) : (console lines).Encodable := by
  intro c hc
  obtain ⟨line, -, hc⟩ := List.mem_flatMap.mp hc
  rcases List.mem_append.mp hc with hc | hc
  · exact encodable_appearance line c hc
  · rw [List.mem_singleton.mp hc]
    rfl

theorem length_console_le {lines : List Text} (h : ∀ line ∈ lines, line.Encodable) :
    (console lines).length ≤ (lineText lines).length := by
  induction lines with
  | nil => exact Nat.le_refl 0
  | cons line lines ih =>
    obtain ⟨hline, hlines⟩ := List.forall_mem_cons.mp h
    have hle : (appearance line).length ≤ line.length := by
      rw [appearance_of_encodable hline]
      exact (sublist_withoutSequences line).length_le
    rw [console_cons, lineText_cons]
    simp only [List.length_append]
    have hrest := ih hlines
    omega

/-- **Lines appear as they are exactly if all of them are plain.** -/
theorem console_eq_iff (lines : List Text) :
    console lines = lineText lines ↔ ∀ line ∈ lines, line.Plain := by
  constructor
  · intro h
    have hencodable : ∀ line ∈ lines, line.Encodable := by
      intro line hline c hc
      apply encodable_console lines c
      rw [h]
      exact List.mem_flatMap.mpr ⟨line, hline, List.mem_append_left _ hc⟩
    induction lines with
    | nil => exact fun _ hline => absurd hline List.not_mem_nil
    | cons line lines ih =>
      obtain ⟨hline, hlines⟩ := List.forall_mem_cons.mp hencodable
      have hle := (sublist_withoutSequences line).length_le
      have hrest := length_console_le hlines
      rw [console_cons, lineText_cons, appearance_of_encodable hline] at h
      -- neither the line nor the others come out longer, so that none comes out shorter
      have hlength : (withoutSequences line).length = line.length := by
        have htotal := congrArg List.length h
        simp only [List.length_append] at htotal
        exact Nat.le_antisymm hle (by omega)
      obtain ⟨hsame, hothers⟩ := List.append_inj h (by
        simp only [List.length_append, hlength])
      have hcalm := withoutSequences_eq_self_iff.mp (List.append_cancel_right hsame)
      exact List.forall_mem_cons.mpr ⟨⟨hcalm, hline⟩, ih hothers hlines⟩
  · intro h
    refine List.flatMap_congr fun line hline => ?_
    obtain ⟨hcalm, hencodable⟩ := h line hline
    have hline : appearance line = line :=
      (appearance_of_encodable hencodable).trans (withoutSequences_eq_self_iff.mpr hcalm)
    exact congrArg (· ++ lit "\n") hline

theorem console_singleton {line : Text} (h : line.Plain) : console [line] = line ++ lit "\n" := by
  rw [(console_eq_iff [line]).mpr (List.forall_mem_singleton.mpr h)]
  exact List.flatMap_singleton _ line

end CommandLine

/-! ### JSON documents -/

/-- Every digit of a number is one of its base. -/
theorem Text.exists_of_mem_toDigits {b n : Nat} (hb : 1 < b) {x : Char}
    (h : x ∈ Nat.toDigits b n) : ∃ k, k < b ∧ x = Nat.digitChar k := by
  induction n using Nat.strongRecOn with
  | ind n ih =>
    by_cases hn : n < b
    · rw [Nat.toDigits_of_lt_base hn] at h
      exact ⟨n, hn, List.mem_singleton.mp h⟩
    · have hle : b ≤ n := Nat.le_of_not_lt hn
      rw [Nat.toDigits_of_base_le hb hle] at h
      rcases List.mem_append.mp h with h | h
      · exact ih (n / b) (Nat.div_lt_self (Nat.lt_of_lt_of_le (Nat.zero_lt_of_lt hb) hle) hb) h
      · exact ⟨n % b, Nat.mod_lt n (Nat.zero_lt_of_lt hb), List.mem_singleton.mp h⟩

/-- Digits are quiet. -/
theorem Text.quiet_toDigits {b : Nat} (hb : 1 < b) (hle : b ≤ 16) (n : Nat) :
    Text.Quiet ((Nat.toDigits b n).map CodePoint.scalar) := by
  intro c hc
  obtain ⟨x, hx, rfl⟩ := List.mem_map.mp hc
  obtain ⟨k, hk, rfl⟩ := exists_of_mem_toDigits hb hx
  have hdigits : ∀ k < 16, CodePoint.scalar (Nat.digitChar k) ≠ CodePoint.scalar '\x1b' := by decide
  exact ⟨hdigits k (Nat.lt_of_lt_of_le hk hle), rfl⟩

namespace Json

theorem quiet_unitEscape (n : Nat) : (unitEscape n).Quiet := by
  have hmark : Text.Quiet (lit "\\u") := by decide
  refine hmark.append (Text.Quiet.append ?_ (Text.quiet_toDigits (by decide) (by decide) n))
  intro c hc
  rw [List.eq_of_mem_replicate hc]
  decide

/-- A code point is escaped unless it is quiet. -/
theorem quiet_escape (c : CodePoint) : (escape c).Quiet := by
  unfold escape
  dsimp only
  split_ifs with _ _ _ _ _ _ _ hkept
  iterate 7 decide
  · intro d hd
    obtain rfl := List.mem_singleton.mp hd
    constructor
    · rintro rfl
      exact absurd hkept (by decide)
    · cases d with
      | scalar x => rfl
      | surrogate i =>
        have hn : CodePoint.toNat (.surrogate i) = 0xD800 + i.val := rfl
        omega
  · exact quiet_unitEscape _
  · exact (quiet_unitEscape _).append (quiet_unitEscape _)

theorem quiet_quote (t : Text) : (quote t).Quiet := by
  have hmark : Text.Quiet (lit "\"") := by decide
  refine (hmark.append ?_).append hmark
  intro c hc
  obtain ⟨d, -, hc⟩ := List.mem_flatMap.mp hc
  exact quiet_escape d c hc

namespace Tree

theorem quiet_ofInt (n : Int) : (Text.ofInt n).Quiet := by
  cases n with
  | ofNat n => exact Text.quiet_toDigits (by decide) (by decide) n
  | negSucc n =>
    have hsign : Text.Quiet (lit "-") := by decide
    exact hsign.append (Text.quiet_toDigits (by decide) (by decide) (n + 1))

theorem quiet_newLine (level : Nat) : (newLine level).Quiet := by
  have hfeed : Text.Quiet (lit "\n") := by decide
  refine hfeed.append fun c hc => ?_
  rw [List.eq_of_mem_replicate hc]
  decide

mutual

theorem quiet_render (level : Nat) (tree : Tree) : (tree.render level).Quiet := by
  cases tree with
  | null => exact (by decide : Text.Quiet (lit "null"))
  | bool b =>
    cases b with
    | false => exact (by decide : Text.Quiet (lit "false"))
    | true => exact (by decide : Text.Quiet (lit "true"))
  | number n => exact quiet_ofInt n
  | text t => exact quiet_quote t
  | array items =>
    rcases items with - | ⟨item, items⟩
    · exact (by decide : Text.Quiet (lit "[]"))
    · have hopen : Text.Quiet (lit "[") := by decide
      have hclose : Text.Quiet (lit "]") := by decide
      have hitems := quiet_renderItems (level + 1) (item :: items)
      exact ((hopen.append hitems).append (quiet_newLine level)).append hclose
  | object members =>
    rcases members with - | ⟨m, members⟩
    · exact (by decide : Text.Quiet (lit "\x7b\x7d"))
    · have hopen : Text.Quiet (lit "\x7b") := by decide
      have hclose : Text.Quiet (lit "\x7d") := by decide
      have hmembers := quiet_renderMembers (level + 1) (m :: members)
      exact ((hopen.append hmembers).append (quiet_newLine level)).append hclose

theorem quiet_renderItems (level : Nat) (items : List Tree) : (renderItems level items).Quiet := by
  match items with
  | [] => exact Text.quiet_nil
  | [item] => exact (quiet_newLine level).append (quiet_render level item)
  | item :: next :: rest =>
    have hcomma : Text.Quiet (lit ",") := by decide
    exact (((quiet_newLine level).append (quiet_render level item)).append hcomma).append
      (quiet_renderItems level (next :: rest))

theorem quiet_renderMembers (level : Nat) (members : List (Text × Tree)) :
    (renderMembers level members).Quiet := by
  have hcolon : Text.Quiet (lit ": ") := by decide
  match members with
  | [] => exact Text.quiet_nil
  | [(name, item)] =>
    exact (((quiet_newLine level).append (quiet_quote name)).append hcolon).append
      (quiet_render level item)
  | (name, item) :: next :: rest =>
    have hcomma : Text.Quiet (lit ",") := by decide
    exact (((((quiet_newLine level).append (quiet_quote name)).append hcolon).append
      (quiet_render level item)).append hcomma).append (quiet_renderMembers level (next :: rest))

end

/-- **A JSON document appears as it is written.** -/
theorem plain_render (tree : Tree) (level : Nat) : (tree.render level).Plain :=
  (quiet_render level tree).plain

end Tree

end Json

end UriExpansion
