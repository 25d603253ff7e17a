/-
UriExpansion/Proofs/Faults.lean

The faults in which an expansion can end.

A template that was read and the encoder add no fault of their own, so that an
expansion ends in a fault only where a value does (`Template.fault_of_expand`).
The faults of values are few (`Fault.OfValue`): an integer is too long to be
written, a pattern for dates holds a surrogate or a zero character, a member of a
host object is read in a place that nothing guards, or its code interrupts the
program.  One lemma for each
function of the resolution says so, from the texts of scalars to
`Value.fault_of_resolve`.
-/
import UriExpansion.Proofs.Explosion
import UriExpansion.Proofs.FailureAgreement

namespace UriExpansion

/-! ### The faults of a value -/

/-- The faults in which a value can end: those of the texts of scalars, and those
of members of host objects that nothing holds back. -/
inductive Fault.OfValue : Fault → Prop
  | integer : OfValue .integerTooLong
  | patternText : OfValue .unencodable
  | patternZero : OfValue .zeroCharacter
  | absent (name) : OfValue (.missingAttribute name)
  | runtime (message) : OfValue (.getterRuntime message)
  | unfit (message) : OfValue (.getterValue message)
  | interrupted (message) : OfValue (.interrupted message)

namespace Value

variable {s : Settings} {v : Value} {f : Fault}

theorem fault_of_integerText {n : Int} (h : integerText n = .error f) : f.OfValue := by
  unfold integerText at h
  split at h
  · obtain rfl := Except.error.inj h
    exact .integer
  · cases h

theorem fault_of_dateText {m : Moment} {standard : Text} (h : dateText s m standard = .error f) :
    f.OfValue := by
  unfold dateText at h
  split at h
  · unfold Calendar.format at h
    split at h
    · obtain rfl := Except.error.inj h
      exact .patternText
    · split at h
      · obtain rfl := Except.error.inj h
        exact .patternZero
      · cases h
  · cases h

theorem fault_of_scalarText? (v : Value) (h : v.scalarText? s = some (.error f)) : f.OfValue := by
  cases v with
  | int n => exact fault_of_integerText (Option.some.inj h)
  | date d => exact fault_of_dateText (Option.some.inj h)
  | moment m => exact fault_of_dateText (Option.some.inj h)
  | time t => exact fault_of_dateText (Option.some.inj h)
  | enumMember identity className member v =>
    -- a member is written as its value, or else by its name
    rw [scalarText?] at h
    rcases hv : v.scalarText? s with - | text
    · rw [hv] at h
      cases h
    · rw [hv] at h
      exact fault_of_scalarText? v (hv.trans h)
  | _ => cases h

theorem fault_of_shown (k : Value) (h : k.shown = .error f) : f.OfValue := by
  cases k with
  | int n => exact fault_of_integerText h
  | _ => cases h

/-- That a text has a surrogate is a cause and no fault. -/
theorem encodableText_eq_fault {x : Except Fault Text} (h : encodableText x = .error (.fault f)) :
    x = .error f := by
  unfold encodableText at h
  split at h
  · unfold encodable at h
    split at h <;> cases h
  · exact congrArg Except.error (Obstacle.fault.inj (Except.error.inj h))

theorem fault_of_memberText (h : memberText s v = .error (.fault f)) : f.OfValue := by
  unfold memberText at h
  split at h
  · next hscalar =>
    obtain rfl := encodableText_eq_fault h
    exact fault_of_scalarText? v hscalar
  · cases h

theorem fault_of_keyText {k : Value} (h : keyText s k = .error (.fault f)) : f.OfValue := by
  unfold keyText at h
  split at h
  · next hscalar =>
    obtain rfl := encodableText_eq_fault h
    exact fault_of_scalarText? k hscalar
  · exact fault_of_shown k (encodableText_eq_fault h)

theorem fault_of_itemTexts {items : List Value} (h : itemTexts s items = .error (.fault f)) :
    f.OfValue := by
  induction items with
  | nil => cases h
  | cons v items ih =>
    unfold itemTexts at h
    split at h
    · exact ih h
    · rcases bind_eq_error.mp h with h | ⟨text, -, h⟩
      · exact fault_of_memberText h
      · rcases bind_eq_error.mp h with h | ⟨texts, -, h⟩
        · exact ih h
        · cases h

theorem fault_of_pairTexts {pairs : List (Value × Value)}
    (h : pairTexts s pairs = .error (.fault f)) : f.OfValue := by
  induction pairs with
  | nil => cases h
  | cons pair pairs ih =>
    unfold pairTexts at h
    split at h
    · exact ih h
    · rcases bind_eq_error.mp h with h | ⟨key, -, h⟩
      · exact fault_of_keyText h
      · rcases bind_eq_error.mp h with h | ⟨text, -, h⟩
        · exact fault_of_memberText h
        · rcases bind_eq_error.mp h with h | ⟨texts, -, h⟩
          · exact ih h
          · cases h

theorem fault_of_unguarded {r : Raised} (h : HostObject.unguarded r = .fault f) : f.OfValue := by
  cases r with
  | runtime message =>
    obtain rfl := Obstacle.fault.inj h
    exact .runtime message
  | value message =>
    obtain rfl := Obstacle.fault.inj h
    exact .unfit message
  | resolution code message => cases h
  | interrupt message =>
    obtain rfl := Obstacle.fault.inj h
    exact .interrupted message

theorem fault_of_read {o : HostObject Value} {member : Text}
    (h : o.read member = .error (.fault f)) : f.OfValue := by
  have habsent : (.error (.fault (.missingAttribute member)) : Except Obstacle Value)
      = .error (.fault f) → f.OfValue := by
    intro h
    obtain rfl := Obstacle.fault.inj (Except.error.inj h)
    exact .absent member
  unfold HostObject.read at h
  split at h
  · exact habsent h
  · split at h
    · cases h
    · exact fault_of_unguarded (Except.error.inj h)
  · cases h
  · split at h
    · cases h
    · exact habsent h

theorem fault_of_explode (h : v.explode = .error (.fault f)) : f.OfValue := by
  obtain ⟨o, -, hunread | @⟨call, message, -⟩⟩ := explode_eq_fault_iff.mp h
  · exact fault_of_read hunread.fails
  · exact .interrupted message

/-- **The faults in which a resolution ends.** -/
theorem fault_of_resolve (h : v.resolve s = .error (.fault f)) : f.OfValue := by
  unfold resolve at h
  split at h
  · next hscalar =>
    obtain rfl := encodableText_eq_fault (map_eq_error.mp h)
    exact fault_of_scalarText? v hscalar
  · unfold resolveComposite at h
    split at h
    · cases h
    · exact fault_of_pairTexts (map_eq_error.mp h)
    · exact fault_of_pairTexts (map_eq_error.mp h)
    · exact fault_of_itemTexts (map_eq_error.mp h)
    · exact fault_of_itemTexts (map_eq_error.mp h)
    · rcases bind_eq_error.mp h with h | ⟨pairs, -, h⟩
      · exact fault_of_explode h
      · rcases bind_eq_error.mp h with h | ⟨texts, -, h⟩
        · exact fault_of_pairTexts h
        · cases h

end Value

/-! ### The faults of an expansion -/

variable {store : Store} {s : Settings} {f : Fault}

/-- A policy softens causes, and leaves faults as they are. -/
theorem Store.fault_of_meaning {name : Text} (h : store.meaning s name = .error (.fault f)) :
    f.OfValue := by
  unfold meaning at h
  split at h
  · cases h
  · next hresolve =>
    obtain rfl := Refusal.fault.inj (Except.error.inj h)
    exact Value.fault_of_resolve hresolve
  · split at h <;> cases h

namespace Template

variable {t : Template}

/-- **An expansion ends in a fault only where a value does.** -/
theorem fault_of_expand (ht : ∀ c ∈ t.components, c.Sound)
    (h : t.expand store s = .error (.fault f)) : f.OfValue := by
  obtain ⟨x, -, r, hmeaning, hfailure⟩ := exists_of_expand_eq_error ht h
  cases r with
  | cause c => cases hfailure
  | fault f' =>
    obtain rfl := Failure.fault.inj hfailure
    exact Store.fault_of_meaning hmeaning

theorem fault_of_expandPartial (ht : ∀ c ∈ t.components, c.Sound)
    (h : t.expandPartial store s = .error (.fault f)) : f.OfValue := by
  have hexpand : t.expand store s = .error (.fault f) := by
    rw [← error?_eq_some, ← error?_expandPartial_eq_expand ht, error?_eq_some]
    exact h
  exact fault_of_expand ht hexpand

end Template

end UriExpansion
