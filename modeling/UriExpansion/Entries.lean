/-
UriExpansion/Entries.lean

Ordered maps as lists of entries.

Keys come in the order in which they were first bound.  Binding a key again
changes its value and keeps its place; a key that was erased and is bound
again goes to the end.  `keys_set` and `get?_set` say what binding does to the
keys and to the values, and `nodup_keys_set` that no key occurs twice.
-/

namespace UriExpansion

/-- Entries in order, each a key and a value. -/
abbrev Entries (κ ν : Type) := List (κ × ν)

namespace Entries

variable {κ ν : Type} [DecidableEq κ]

/-- The keys in order. -/
def keys (m : Entries κ ν) : List κ := m.map Prod.fst

/-- The value of a key. -/
def get? (m : Entries κ ν) (key : κ) : Option ν :=
  match m with
  | [] => none
  | (k, v) :: rest => if k = key then some v else get? rest key

/-- Binds a key to a value. -/
def set (m : Entries κ ν) (key : κ) (value : ν) : Entries κ ν :=
  match m with
  | [] => [(key, value)]
  | (k, v) :: rest => if k = key then (key, value) :: rest else (k, v) :: set rest key value

/-- Removes a key. -/
def erase (m : Entries κ ν) (key : κ) : Entries κ ν := m.filter fun e => e.1 ≠ key

/-- Binds further entries one after the other. -/
def setAll (m : Entries κ ν) (entries : List (κ × ν)) : Entries κ ν :=
  entries.foldl (fun m e => set m e.1 e.2) m

/-- Binds entries one after the other, beginning with none. -/
def ofList (entries : List (κ × ν)) : Entries κ ν := setAll [] entries

/-! ### What binding does -/

omit [DecidableEq κ] in
@[simp] theorem keys_nil : keys ([] : Entries κ ν) = [] := rfl

omit [DecidableEq κ] in
@[simp] theorem keys_cons (e : κ × ν) (m : Entries κ ν) : keys (e :: m) = e.1 :: keys m := rfl

/-- A new key goes to the end; a bound key keeps its place. -/
theorem keys_set (m : Entries κ ν) (key : κ) (value : ν) :
    keys (set m key value) = if key ∈ keys m then keys m else keys m ++ [key] := by
  induction m with
  | nil => simp [set]
  | cons e m ih =>
    obtain ⟨k, v⟩ := e
    by_cases h : k = key
    · subst h; simp [set]
    · have h' : ¬ key = k := fun hk => h hk.symm
      by_cases hm : key ∈ keys m <;> simp [set, h, h', hm, ih]

/-- The key that was bound has the new value and all others keep theirs. -/
theorem get?_set (m : Entries κ ν) (key other : κ) (value : ν) :
    get? (set m key value) other = if key = other then some value else get? m other := by
  induction m with
  | nil => simp [set, get?]
  | cons e m ih =>
    obtain ⟨k, v⟩ := e
    by_cases h : k = key
    · subst h
      by_cases ho : k = other <;> simp [set, get?, ho]
    · by_cases ho : k = other
      · subst ho
        have : ¬ key = k := fun hk => h hk.symm
        simp [set, get?, h, this]
      · simp [set, get?, h, ho, ih]

/-- Binding keeps the keys distinct. -/
theorem nodup_keys_set (m : Entries κ ν) (key : κ) (value : ν) (h : (keys m).Nodup) :
    (keys (set m key value)).Nodup := by
  rw [keys_set]
  split
  · exact h
  · next hm =>
    refine List.nodup_append.2 ⟨h, by simp, ?_⟩
    intro a ha b hb
    simp only [List.mem_singleton] at hb
    subst hb
    intro hab
    exact hm (hab ▸ ha)

theorem nodup_keys_setAll (m : Entries κ ν) (entries : List (κ × ν)) (h : (keys m).Nodup) :
    (keys (setAll m entries)).Nodup := by
  induction entries generalizing m with
  | nil => exact h
  | cons e rest ih => exact ih _ (nodup_keys_set m e.1 e.2 h)

/-- Entries bound one after the other have distinct keys. -/
theorem nodup_keys_ofList (entries : List (κ × ν)) : (keys (ofList entries)).Nodup :=
  nodup_keys_setAll [] entries (by simp)

/-- A key has a value exactly if it is among the keys. -/
theorem isSome_get? (m : Entries κ ν) (key : κ) : (get? m key).isSome ↔ key ∈ keys m := by
  induction m with
  | nil => simp [get?]
  | cons e m ih =>
    obtain ⟨k, v⟩ := e
    by_cases h : k = key
    · subst h; simp [get?]
    · have h' : ¬ key = k := fun hk => h hk.symm
      simp [get?, h, h', ih]

/-- The value of a key stands in an entry with it. -/
theorem mem_of_get?_eq_some {m : Entries κ ν} {key : κ} {v : ν} (h : get? m key = some v) :
    (key, v) ∈ m := by
  induction m with
  | nil => cases h
  | cons e m ih =>
    obtain ⟨k, w⟩ := e
    unfold get? at h
    split at h
    · next hkey =>
      obtain rfl := Option.some.inj h
      rw [hkey]
      exact List.mem_cons_self
    · exact List.mem_cons_of_mem _ (ih h)

theorem get?_append (m n : Entries κ ν) (key : κ) :
    get? (m ++ n) key = (get? m key).or (get? n key) := by
  induction m with
  | nil => rfl
  | cons e m ih =>
    obtain ⟨k, v⟩ := e
    by_cases h : k = key <;> simp [get?, h, ih]

/-- Of several entries with one key the last one counts, and all of them before
what was bound already. -/
theorem get?_setAll (m : Entries κ ν) (entries : List (κ × ν)) (key : κ) :
    get? (setAll m entries) key = (get? entries.reverse key).or (get? m key) := by
  induction entries generalizing m with
  | nil => rfl
  | cons e rest ih =>
    obtain ⟨k, v⟩ := e
    have hstep : setAll m ((k, v) :: rest) = setAll (set m k v) rest := rfl
    rw [hstep, ih, get?_set, List.reverse_cons, get?_append, Option.or_assoc]
    by_cases h : k = key <;> simp [get?, h]

/-- Leaving out entries by their keys leaves those keys without a value and
keeps all others. -/
theorem get?_filter (m : Entries κ ν) (keep : κ → Bool) (key : κ) :
    get? (m.filter fun e => keep e.1) key = if keep key then get? m key else none := by
  induction m with
  | nil => exact (ite_self none).symm
  | cons e m ih =>
    obtain ⟨k, v⟩ := e
    by_cases hkey : k = key
    · subst hkey
      cases hkeep : keep k <;> simp [get?, hkeep, ih]
    · cases hkeep : keep k <;> simp [get?, hkeep, hkey, ih]

end Entries

end UriExpansion
