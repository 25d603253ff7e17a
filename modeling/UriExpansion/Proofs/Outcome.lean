/-
UriExpansion/Proofs/Outcome.lean

Computations that can fail, looked at through how they end.

`bind_eq_ok` and `map_eq_ok` take a computation that ended in a value apart
into its steps; every proof about a reader goes through them.  That a computation
fails in expected ways only (`FailsWithin`) is passed on from its steps, with a state
or without.  The events of a traced computation play no part in how it ends, so its
`outcome` can be computed step by step as well.
-/
import Mathlib.Data.List.Forall2
import UriExpansion.Event

namespace UriExpansion

variable {ε α β : Type}

/-- Two steps end in a value if the first does and the second does with it. -/
theorem bind_eq_ok {x : Except ε α} {f : α → Except ε β} {b : β} :
    (x >>= f) = .ok b ↔ ∃ a, x = .ok a ∧ f a = .ok b := by
  rcases x with e | a
  · constructor
    · intro h
      cases h
    · rintro ⟨a, h, -⟩
      cases h
  · constructor
    · exact fun h => ⟨a, rfl, h⟩
    · rintro ⟨a', h, hf⟩
      obtain rfl := Except.ok.inj h
      exact hf

theorem map_eq_ok {x : Except ε α} {g : α → β} {b : β} :
    x.map g = .ok b ↔ ∃ a, x = .ok a ∧ g a = b := by
  rcases x with e | a
  · constructor
    · intro h
      cases h
    · rintro ⟨a, h, -⟩
      cases h
  · constructor
    · exact fun h => ⟨a, rfl, Except.ok.inj h⟩
    · rintro ⟨a', h, rfl⟩
      obtain rfl := Except.ok.inj h
      rfl

theorem mapError_eq_ok {ε' : Type} {x : Except ε α} {g : ε → ε'} {a : α} :
    x.mapError g = .ok a ↔ x = .ok a := by
  rcases x with e | b
  · constructor <;> exact fun h => nomatch h
  · exact ⟨fun h => congrArg _ (Except.ok.inj h), fun h => congrArg _ (Except.ok.inj h)⟩

/-- The value of a computation can be compared where its error cannot. -/
theorem eq_ok_of_toOption {x : Except ε α} {a : α} (h : x.toOption = some a) : x = .ok a := by
  rcases x with e | b
  · cases h
  · exact congrArg Except.ok (Option.some.inj h)

/-! ### Lists -/

section
variable {R : α → β → Prop} {as : List α} {bs : List β}

/-- In lists that are related one by one every element has its counterpart. -/
theorem exists_of_mem_left (h : List.Forall₂ R as bs) : ∀ a ∈ as, ∃ b ∈ bs, R a b := by
  induction h with
  | nil => exact fun _ h => absurd h List.not_mem_nil
  | cons hab _ ih =>
    refine List.forall_mem_cons.mpr ⟨⟨_, List.mem_cons_self, hab⟩, fun a ha => ?_⟩
    obtain ⟨b, hb, hab⟩ := ih a ha
    exact ⟨b, List.mem_cons_of_mem _ hb, hab⟩

theorem exists_of_mem_right (h : List.Forall₂ R as bs) : ∀ b ∈ bs, ∃ a ∈ as, R a b :=
  exists_of_mem_left (List.Forall₂.flip (R := flip R) h)

end

/-- A list of computations ends in values if the first does and the others do. -/
theorem mapM_cons_eq_ok {f : α → Except ε β} {a : α} {as : List α} {bs : List β} :
    (a :: as).mapM f = .ok bs ↔
      ∃ b rest, bs = b :: rest ∧ f a = .ok b ∧ as.mapM f = .ok rest := by
  rw [List.mapM_cons, bind_eq_ok]
  constructor
  · rintro ⟨b, hb, h⟩
    obtain ⟨rest, hrest, h⟩ := bind_eq_ok.mp h
    exact ⟨b, rest, (Except.ok.inj h).symm, hb, hrest⟩
  · rintro ⟨b, rest, rfl, hb, hrest⟩
    exact ⟨b, hb, bind_eq_ok.mpr ⟨rest, hrest, rfl⟩⟩

/-- A list of computations ends in values one by one. -/
theorem mapM_eq_ok_iff {f : α → Except ε β} {as : List α} {bs : List β} :
    as.mapM f = .ok bs ↔ List.Forall₂ (fun a b => f a = .ok b) as bs := by
  induction as generalizing bs with
  | nil =>
    rw [List.forall₂_nil_left_iff]
    exact ⟨fun h => (Except.ok.inj h).symm, fun h => congrArg Except.ok h.symm⟩
  | cons a as ih =>
    rw [mapM_cons_eq_ok, List.forall₂_cons_left_iff]
    constructor
    · rintro ⟨b, rest, rfl, hb, hrest⟩
      exact ⟨b, rest, hb, ih.mp hrest, rfl⟩
    · rintro ⟨b, rest, hb, hrest, rfl⟩
      exact ⟨b, rest, rfl, hb, ih.mpr hrest⟩

/-- Every value of a list of computations is the value of one of them. -/
theorem exists_of_mem_mapM {f : α → Except ε β} {as : List α} {bs : List β}
    (h : as.mapM f = .ok bs) : ∀ b ∈ bs, ∃ a ∈ as, f a = .ok b :=
  exists_of_mem_right (mapM_eq_ok_iff.mp h)

theorem length_of_mapM {f : α → Except ε β} {as : List α} {bs : List β}
    (h : as.mapM f = .ok bs) : bs.length = as.length :=
  (mapM_eq_ok_iff.mp h).length_eq.symm

/-- The first of several computations end in the first of the values. -/
theorem take_of_mapM {f : α → Except ε β} {as : List α} {bs : List β} (h : as.mapM f = .ok bs)
    (n : Nat) : (as.take n).mapM f = .ok (bs.take n) :=
  mapM_eq_ok_iff.mpr (List.forall₂_take n (mapM_eq_ok_iff.mp h))

/-- The others end in the other values. -/
theorem drop_of_mapM {f : α → Except ε β} {as : List α} {bs : List β} (h : as.mapM f = .ok bs)
    (n : Nat) : (as.drop n).mapM f = .ok (bs.drop n) :=
  mapM_eq_ok_iff.mpr (List.forall₂_drop n (mapM_eq_ok_iff.mp h))

/-- What holds of all computations holds of all values, if each value inherits
it from its computation and the other way round. -/
theorem forall_mem_iff_of_mapM {f : α → Except ε β} {as : List α} {bs : List β}
    (h : as.mapM f = .ok bs) {P : α → Prop} {Q : β → Prop}
    (hPQ : ∀ a b, f a = .ok b → (P a ↔ Q b)) : (∀ a ∈ as, P a) ↔ ∀ b ∈ bs, Q b := by
  rw [mapM_eq_ok_iff] at h
  induction h with
  | nil => simp
  | cons hab _ ih => rw [List.forall_mem_cons, List.forall_mem_cons, hPQ _ _ hab, ih]

theorem mapM_append_of_eq_ok {f : α → Except ε β} {as : List α} {xs : List β}
    (h : as.mapM f = .ok xs) (bs : List α) :
    (as ++ bs).mapM f = (bs.mapM f).map (xs ++ ·) := by
  rw [List.mapM_append, h]
  rcases bs.mapM f with e | ys <;> rfl

theorem mapM_mapError {ε' : Type} (g : ε → ε') (f : α → Except ε β) (as : List α) :
    (as.mapM fun a => (f a).mapError g) = (as.mapM f).mapError g := by
  induction as with
  | nil => rfl
  | cons a as ih =>
    rw [List.mapM_cons, List.mapM_cons, ih]
    rcases f a with e | b
    · rfl
    · rcases as.mapM f with e | bs <;> rfl

/-- Computations that agree on the elements of a list agree on the list. -/
theorem mapM_congr_left {f g : α → Except ε β} {as : List α} (h : ∀ a ∈ as, f a = g a) :
    as.mapM f = as.mapM g := by
  induction as with
  | nil => rfl
  | cons a as ih =>
    obtain ⟨ha, has⟩ := List.forall_mem_cons.mp h
    rw [List.mapM_cons, List.mapM_cons, ha, ih has]

/-! ### How a computation fails -/

/-- The error in which a computation ends, if it does. -/
def error? : Except ε α → Option ε
  | .error e => some e
  | .ok _ => none

theorem error?_eq_some {x : Except ε α} {e : ε} : error? x = some e ↔ x = .error e := by
  rcases x with e' | a
  · exact ⟨fun h => congrArg _ (Option.some.inj h), fun h => congrArg _ (Except.error.inj h)⟩
  · constructor <;> exact fun h => nomatch h

theorem error?_eq_none {x : Except ε α} : error? x = none ↔ ∃ a, x = .ok a := by
  rcases x with e | a
  · constructor
    · exact fun h => nomatch h
    · rintro ⟨a, h⟩
      cases h
  · exact ⟨fun _ => ⟨a, rfl⟩, fun _ => rfl⟩

/-- Computations that fail alike and have one value are the same. -/
theorem eq_of_error?_eq {x y : Except ε α} (herror : error? x = error? y)
    (hok : ∀ a b, x = .ok a → y = .ok b → a = b) : x = y := by
  rcases x with e | a
  · exact (error?_eq_some.mp herror.symm).symm
  · obtain ⟨b, rfl⟩ := error?_eq_none.mp herror.symm
    exact congrArg Except.ok (hok a b rfl rfl)

/-- Two steps fail if the first does, or the second does with its value. -/
theorem bind_eq_error {x : Except ε α} {f : α → Except ε β} {e : ε} :
    (x >>= f) = .error e ↔ x = .error e ∨ ∃ a, x = .ok a ∧ f a = .error e := by
  rcases x with e' | a
  · constructor
    · exact fun h => .inl (congrArg Except.error (Except.error.inj h))
    · rintro (h | ⟨a, h, -⟩)
      · exact congrArg Except.error (Except.error.inj h)
      · cases h
  · constructor
    · exact fun h => .inr ⟨a, rfl, h⟩
    · rintro (h | ⟨a', h, hf⟩)
      · cases h
      · obtain rfl := Except.ok.inj h
        exact hf

theorem error?_map (x : Except ε α) (g : α → β) : error? (x.map g) = error? x := by
  rcases x with e | a <;> rfl

theorem map_eq_error {x : Except ε α} {g : α → β} {e : ε} : x.map g = .error e ↔ x = .error e := by
  rw [← error?_eq_some, error?_map, error?_eq_some]

theorem error?_mapError {ε' : Type} (x : Except ε α) (g : ε → ε') :
    error? (x.mapError g) = (error? x).map g := by
  rcases x with e | a <;> rfl

/-- A list of computations fails as the first of them that fails. -/
theorem error?_mapM (f : α → Except ε β) (as : List α) :
    error? (as.mapM f) = as.findSome? fun a => error? (f a) := by
  induction as with
  | nil => rfl
  | cons a as ih =>
    rw [List.mapM_cons, List.findSome?_cons, ← ih]
    rcases f a with e | b
    · rfl
    · exact error?_map (as.mapM f) (b :: ·)

/-- Computations that fail alike on the elements of a list fail alike on the list. -/
theorem error?_mapM_congr {γ : Type} {f : α → Except ε β} {g : α → Except ε γ} {as : List α}
    (h : ∀ a ∈ as, error? (f a) = error? (g a)) : error? (as.mapM f) = error? (as.mapM g) := by
  rw [error?_mapM, error?_mapM]
  induction as with
  | nil => rfl
  | cons a as ih =>
    obtain ⟨ha, has⟩ := List.forall_mem_cons.mp h
    rw [List.findSome?_cons, List.findSome?_cons, ha, ih has]

/-- A list of computations ends in values if each of them does in one. -/
theorem exists_mapM_eq_ok_iff {f : α → Except ε β} {as : List α} :
    (∃ bs, as.mapM f = .ok bs) ↔ ∀ a ∈ as, ∃ b, f a = .ok b := by
  simp only [← error?_eq_none, error?_mapM, List.findSome?_eq_none_iff]

/-! ### Computations that fail in expected ways -/

/-- The computation fails only in errors with a property. -/
def FailsWithin (Q : ε → Prop) (x : Except ε α) : Prop := ∀ e, x = .error e → Q e

section
variable {σ : Type} {Q : ε → Prop} {x : Except ε α} {e : ε}

@[simp] theorem failsWithin_ok (a : α) : FailsWithin Q (.ok a) := fun _ h => nomatch h

@[simp] theorem failsWithin_pure (a : α) : FailsWithin Q (pure a) := fun _ h => nomatch h

@[simp] theorem failsWithin_error : FailsWithin Q (.error e : Except ε α) ↔ Q e := by
  constructor
  · exact fun h => h e rfl
  · rintro h _ he
    exact Except.error.inj he ▸ h

@[simp] theorem failsWithin_throw : FailsWithin Q (throw e : Except ε α) ↔ Q e := failsWithin_error

@[simp] theorem failsWithin_bind {f : α → Except ε β} :
    FailsWithin Q (x >>= f) ↔ FailsWithin Q x ∧ ∀ a, x = .ok a → FailsWithin Q (f a) := by
  constructor
  · intro h
    exact ⟨fun e he => h e (bind_eq_error.mpr (.inl he)),
      fun a ha e he => h e (bind_eq_error.mpr (.inr ⟨a, ha, he⟩))⟩
  · rintro ⟨hx, hf⟩ e he
    rcases bind_eq_error.mp he with he | ⟨a, ha, he⟩
    · exact hx e he
    · exact hf a ha e he

@[simp] theorem failsWithin_map {f : α → β} : FailsWithin Q (f <$> x) ↔ FailsWithin Q x :=
  forall_congr' fun _ => imp_congr_left map_eq_error

@[simp] theorem failsWithin_ite {c : Prop} [Decidable c] {y : Except ε α} :
    FailsWithin Q (if c then x else y) ↔ (c → FailsWithin Q x) ∧ (¬ c → FailsWithin Q y) := by
  by_cases h : c <;> simp [h]

/-- Two steps fail in expected ways if the first does and the second does with every
value. -/
theorem FailsWithin.bind {f : α → Except ε β} (hx : FailsWithin Q x)
    (hf : ∀ a, FailsWithin Q (f a)) : FailsWithin Q (x >>= f) :=
  failsWithin_bind.mpr ⟨hx, fun a _ => hf a⟩

theorem failsWithin_mapM {f : α → Except ε β} (h : ∀ a, FailsWithin Q (f a)) (as : List α) :
    FailsWithin Q (as.mapM f) := by
  induction as with
  | nil => exact failsWithin_pure []
  | cons a as ih =>
    rw [List.mapM_cons]
    simp [h, ih]

/-! The same of computations with a state, from whatever state they are run. -/

@[simp] theorem failsWithin_run_ite {c : Prop} [Decidable c] {x y : StateT σ (Except ε) α}
    {s : σ} : FailsWithin Q ((if c then x else y).run s) ↔
      (c → FailsWithin Q (x.run s)) ∧ (¬ c → FailsWithin Q (y.run s)) := by
  by_cases h : c <;> simp [h]

theorem FailsWithin.run_bind {x : StateT σ (Except ε) α} {f : α → StateT σ (Except ε) β} {s : σ}
    (hx : FailsWithin Q (x.run s)) (hf : ∀ a s, FailsWithin Q ((f a).run s)) :
    FailsWithin Q ((x >>= f).run s) := by
  rw [StateT.run_bind]
  exact hx.bind fun a => hf a.1 a.2

theorem failsWithin_run_mapM {f : α → StateT σ (Except ε) β}
    (h : ∀ a s, FailsWithin Q ((f a).run s)) (as : List α) (s : σ) :
    FailsWithin Q ((as.mapM f).run s) := by
  induction as generalizing s with
  | nil => exact failsWithin_pure _
  | cons a as ih =>
    rw [List.mapM_cons]
    simp [h, ih]

theorem failsWithin_run_forM {f : α → StateT σ (Except ε) PUnit}
    (h : ∀ a s, FailsWithin Q ((f a).run s)) (as : List α) (s : σ) :
    FailsWithin Q ((forM as f).run s) := by
  induction as generalizing s with
  | nil => exact failsWithin_pure _
  | cons a as ih =>
    rw [List.forM_cons]
    simp [h, ih]

theorem failsWithin_run_filterM {f : α → StateT σ (Except ε) Bool}
    (h : ∀ a s, FailsWithin Q ((f a).run s)) (as : List α) (s : σ) :
    FailsWithin Q ((as.filterM f).run s) := by
  -- a filter collects what it keeps in a list of its own
  have hcollect : ∀ (as kept : List α) (s : σ),
      FailsWithin Q ((List.filterAuxM f as kept).run s) := by
    intro as
    induction as with
    | nil => exact fun kept s => failsWithin_pure _
    | cons a as ih =>
      intro kept s
      rw [List.filterAuxM]
      simp [h, ih]
  simp [List.filterM, hcollect]

end

namespace Traced

theorem outcome_bind (x : Traced ε α) (f : α → Traced ε β) :
    (x >>= f).outcome = x.outcome >>= fun a => (f a).outcome := by
  show (bind x f).outcome = _
  unfold bind
  rcases x.outcome with e | a <;> rfl

theorem outcome_map (g : α → β) (x : Traced ε α) : (g <$> x).outcome = x.outcome.map g := rfl

theorem outcome_forEach (f : α → Traced ε β) (as : List α) :
    (forEach f as).outcome = as.mapM fun a => (f a).outcome := by
  induction as with
  | nil => rfl
  | cons a as ih =>
    rw [forEach, outcome_bind, List.mapM_cons]
    refine congrArg _ (funext fun b => ?_)
    rw [outcome_map, ih]
    rcases as.mapM fun a => (f a).outcome with e | bs <;> rfl

/-- Computations that agree on the elements of a list agree on the list. -/
theorem forEach_congr {f g : α → Traced ε β} {as : List α} (h : ∀ a ∈ as, f a = g a) :
    forEach f as = forEach g as := by
  induction as with
  | nil => rfl
  | cons a as ih =>
    obtain ⟨ha, has⟩ := List.forall_mem_cons.mp h
    rw [forEach, forEach, ha, ih has]

end Traced

end UriExpansion
