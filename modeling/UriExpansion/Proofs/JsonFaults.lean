/-
UriExpansion/Proofs/JsonFaults.lean

The ways in which reading a JSON document fails.

A text that is no document is refused, with a reason.  What else can end the
reading are two faults: an integer with too many digits, and collections that
nest too deep.  One lemma for each function of the reader says so, from the
halves of a surrogate pair to `failsWithin_read`; the three functions that call
each other, for values, arrays and objects, are one induction on the bound of
their steps.  `read_ones` is a document whose integer has too many digits.
-/
import Mathlib.Data.List.TakeWhile
import UriExpansion.Json.Reader
import UriExpansion.Proofs.Outcome

namespace UriExpansion.Json

/-- The failures of the reader: a refusal, or one of two faults. -/
def Failure.Expected : Failure → Prop
  | .refused _ _ => True
  | .fault f => f = .integerTooLong ∨ f = .nestedTooDeep

@[simp] theorem expected_refused (reason : Reason) (left : Nat) :
    (Failure.refused reason left).Expected := trivial

@[simp] theorem expected_integerTooLong : (Failure.fault .integerTooLong).Expected := .inl rfl

@[simp] theorem expected_nestedTooDeep : (Failure.fault .nestedTooDeep).Expected := .inr rfl

@[simp] theorem failsWithin_refuse {α : Type} (reason : Reason) (rest : List Char) :
    FailsWithin Failure.Expected (refuse reason rest : Except Failure α) := by
  simp [refuse]

@[simp] theorem failsWithin_secondHalf? (rest : List Char) :
    FailsWithin Failure.Expected (secondHalf? rest) := by
  unfold secondHalf?
  split
  · split <;> simp
  · simp

@[simp] theorem failsWithin_string (opening cs : List Char) :
    FailsWithin Failure.Expected (string opening cs) := by
  fun_induction string opening cs with
  | case5 a b c d e rest n hdigits hhigh failure hsecond =>
    exact failsWithin_error.mpr (failsWithin_secondHalf? _ failure hsecond)
  | _ => simp_all

@[simp] theorem failsWithin_number (cs : List Char) : FailsWithin Failure.Expected (number cs) := by
  unfold number
  dsimp only
  split
  · simp
  · split
    · simp
    · simp

/-- Values, arrays and objects, within a bound on the steps. -/
theorem failsWithin_value (bound : Nat) :
    (∀ room cs, FailsWithin Failure.Expected (value room bound cs)) ∧
    (∀ room cs, FailsWithin Failure.Expected (array room bound cs)) ∧
    ∀ room cs, FailsWithin Failure.Expected (object room bound cs) := by
  induction bound with
  | zero => simp [value, array, object]
  | succ bound ih =>
    obtain ⟨hvalue, harray, hobject⟩ := ih
    refine ⟨fun room cs => ?_, fun room cs => ?_, fun room cs => ?_⟩
    · unfold value
      split
      · simp
      · refine failsWithin_ite.mpr ⟨fun _ => by simp, fun _ => ?_⟩
        split <;> simp [hobject]
      · refine failsWithin_ite.mpr ⟨fun _ => by simp, fun _ => ?_⟩
        split <;> simp [harray]
      · split <;> simp
    · unfold array
      refine (hvalue _ _).bind ?_
      rintro ⟨v, after⟩
      dsimp only
      split <;> simp [harray]
    · unfold object
      split
      · refine (failsWithin_string _ _).bind ?_
        rintro ⟨name, after⟩
        dsimp only
        split
        · refine (hvalue _ _).bind ?_
          rintro ⟨v, after⟩
          dsimp only
          split <;> simp [hobject]
        · simp
      · simp

/-- **A JSON document that is not read is refused, or has an integer that is too
long, or nests too deep.** -/
theorem failsWithin_read (cs : List Char) : FailsWithin Failure.Expected (read cs) := by
  unfold read
  refine failsWithin_ite.mpr ⟨fun _ => by simp, fun _ => ?_⟩
  refine ((failsWithin_value _).1 _ _).bind ?_
  rintro ⟨v, after⟩
  dsimp only
  split <;> simp

/-- A document of so many ones is an integer with too many digits. -/
theorem read_ones {n : Nat} (h : maxDigits ≤ n) :
    read ('1' :: List.replicate n '1') = .error (.fault .integerTooLong) := by
  have hdigits : ∀ c ∈ '1' :: List.replicate n '1', c.isDigit = true := by
    rw [← List.replicate_succ]
    intro c hc
    rw [List.eq_of_mem_replicate hc]
    rfl
  have hrun : digitRun ('1' :: List.replicate n '1') = ('1' :: List.replicate n '1', []) := by
    rw [digitRun, List.takeWhile_eq_self_iff.mpr hdigits, List.dropWhile_eq_nil_iff.mpr hdigits]
  have hnumber : number ('1' :: List.replicate n '1') = .error (.fault .integerTooLong) := by
    have hwhole : whole? ('1' :: List.replicate n '1') = some ('1' :: List.replicate n '1', []) :=
      congrArg some hrun
    have hlong : maxDigits < n + 1 := Nat.lt_succ_of_le h
    simp [number, hwhole, fraction, exponent, hlong]
  have hvalue (bound : Nat) : value maxDepth (bound + 1) ('1' :: List.replicate n '1')
      = .error (.fault .integerTooLong) := by
    have hnamed : named? ('1' :: List.replicate n '1') = none := rfl
    simp [value, hnamed, hnumber]
  have hskip : skip ('1' :: List.replicate n '1') = '1' :: List.replicate n '1' := rfl
  rw [read, if_neg (by simp), hskip, hvalue]
  rfl

end UriExpansion.Json
