/-
UriExpansion/Proofs/Entries.lean

Ordered maps told by their keys and their values.

A map with distinct keys is known by the order of its keys and the value of each
(`eq_tabulate`).  `alter` is the one change that a map can undergo at one key:
whatever the key was bound to decides what it is bound to afterwards, if to
anything.  Changes at distinct keys, made one after the other, do not get in each
other's way, and only the order in which keys are bound for the first time tells
that they were made one after the other (`alterAll_eq_tabulate`).
-/
import UriExpansion.Entries
import Mathlib.Data.List.Induction
import Mathlib.Data.List.Nodup

namespace UriExpansion.Entries

variable {κ ν μ : Type} [DecidableEq κ] {m : Entries κ ν} {key : κ} {v : ν}

/-! ### Values of distinct keys -/

theorem get?_eq_none_iff : get? m key = none ↔ key ∉ keys m := by
  rw [← isSome_get?, Option.not_isSome_iff_eq_none]

/-- Of entries with distinct keys each one is found by its key. -/
theorem get?_of_mem (hnodup : (keys m).Nodup) (h : (key, v) ∈ m) : get? m key = some v := by
  induction m with
  | nil => cases h
  | cons e m ih =>
    obtain ⟨k, w⟩ := e
    obtain ⟨hk, hnodup⟩ := List.nodup_cons.mp hnodup
    rcases List.mem_cons.mp h with heq | hmem
    · obtain ⟨rfl, rfl⟩ := Prod.mk.inj heq
      exact if_pos rfl
    · have hne : k ≠ key := by
        rintro rfl
        exact hk (List.mem_map.mpr ⟨(k, v), hmem, rfl⟩)
      rw [get?, if_neg hne, ih hnodup hmem]

theorem get?_eq_some_iff (hnodup : (keys m).Nodup) : get? m key = some v ↔ (key, v) ∈ m :=
  ⟨mem_of_get?_eq_some, get?_of_mem hnodup⟩

theorem get?_reverse (hnodup : (keys m).Nodup) (key : κ) : get? m.reverse key = get? m key := by
  have hreverse : (keys m.reverse).Nodup := by
    rw [keys, List.map_reverse]
    exact List.nodup_reverse.mpr hnodup
  ext v
  rw [get?_eq_some_iff hreverse, get?_eq_some_iff hnodup, List.mem_reverse]

theorem get?_setAll_of_nodup (m : Entries κ ν) {entries : Entries κ ν}
    (hnodup : (keys entries).Nodup) (key : κ) :
    get? (setAll m entries) key = (get? entries key).or (get? m key) := by
  rw [get?_setAll, get?_reverse hnodup]

theorem get?_map (m : Entries κ ν) (f : κ → ν → μ) (key : κ) :
    get? (m.map fun e => (e.1, f e.1 e.2)) key = (get? m key).map (f key) := by
  induction m with
  | nil => rfl
  | cons e m ih =>
    obtain ⟨k, w⟩ := e
    rw [List.map_cons, get?, get?]
    split
    · next h => rw [h, Option.map_some]
    · exact ih

omit [DecidableEq κ] in
theorem keys_map (m : Entries κ ν) (f : κ → ν → μ) :
    keys (m.map fun e => (e.1, f e.1 e.2)) = keys m := by
  rw [keys, List.map_map]
  rfl

/-- Of several things with one name the first is found. -/
theorem get?_map_name (name : ν → κ) (things : List ν) (key : κ) :
    get? (things.map fun v => (name v, v)) key = things.find? fun v => name v = key := by
  induction things with
  | nil => rfl
  | cons v things ih =>
    rw [List.map_cons, get?, List.find?_cons]
    by_cases h : name v = key
    · rw [if_pos h, decide_eq_true h]
    · rw [if_neg h, decide_eq_false h, ih]

/-! ### Entries bound one after the other -/

theorem get?_ofList (entries : List (κ × ν)) (key : κ) :
    get? (ofList entries) key = get? entries.reverse key := by
  rw [ofList, get?_setAll, get?, Option.or_none]

theorem mem_of_mem_ofList {entries : List (κ × ν)} {e : κ × ν} (h : e ∈ ofList entries) :
    e ∈ entries := by
  have hlast := get?_of_mem (nodup_keys_ofList entries) h
  rw [get?_ofList] at hlast
  exact List.mem_reverse.mp (mem_of_get?_eq_some hlast)

/-- The keys come in the order in which they are bound for the first time. -/
theorem keys_ofList [BEq κ] [LawfulBEq κ] (entries : List (κ × ν)) :
    keys (ofList entries) = (keys entries).eraseDups := by
  induction entries using List.reverseRecOn with
  | nil => rfl
  | append_singleton entries e ih =>
    have hset : ofList (entries ++ [e]) = set (ofList entries) e.1 e.2 :=
      List.foldl_append
    have hkeys : keys (entries ++ [e]) = keys entries ++ [e.1] := List.map_append
    rw [hset, keys_set, ih, hkeys, List.eraseDups_append]
    by_cases h : e.1 ∈ keys entries <;> simp [List.removeAll, h, List.eraseDups_cons]

/-! ### Maps as tables -/

/-- The entries of those keys that have a value, in order. -/
def tabulate (order : List κ) (g : κ → Option ν) : Entries κ ν :=
  order.filterMap fun key => (g key).map (key, ·)

omit [DecidableEq κ] in
theorem tabulate_cons (key : κ) (order : List κ) (g : κ → Option ν) :
    tabulate (key :: order) g = ((g key).map (key, ·)).toList ++ tabulate order g := by
  rw [tabulate, List.filterMap_cons]
  cases g key <;> rfl

omit [DecidableEq κ] in
theorem tabulate_append (order order' : List κ) (g : κ → Option ν) :
    tabulate (order ++ order') g = tabulate order g ++ tabulate order' g := List.filterMap_append

omit [DecidableEq κ] in
theorem tabulate_congr {order : List κ} {g g' : κ → Option ν} (h : ∀ key ∈ order, g key = g' key) :
    tabulate order g = tabulate order g' :=
  List.filterMap_congr fun key hkey => by rw [h key hkey]

omit [DecidableEq κ] in
theorem keys_tabulate (order : List κ) (g : κ → Option ν) :
    keys (tabulate order g) = order.filter fun key => (g key).isSome := by
  rw [keys, tabulate, List.map_filterMap, ← List.filterMap_eq_filter]
  refine List.filterMap_congr fun key _ => ?_
  cases h : g key <;> simp [Option.guard, h]

theorem get?_tabulate (order : List κ) (g : κ → Option ν) (key : κ) :
    get? (tabulate order g) key = if key ∈ order then g key else none := by
  induction order with
  | nil => rfl
  | cons k order ih =>
    rw [tabulate_cons, get?_append, ih]
    by_cases h : key = k
    · subst h
      cases g key <;> simp [get?]
    · cases g k <;> simp [get?, h, Ne.symm h]

/-- A map with distinct keys, changed value by value. -/
theorem filterMap_eq_tabulate (hnodup : (keys m).Nodup) (f : κ → ν → Option μ) :
    (m.filterMap fun e => (f e.1 e.2).map (e.1, ·))
      = tabulate (keys m) fun key => (get? m key).bind (f key) := by
  rw [tabulate, keys, List.filterMap_map]
  refine List.filterMap_congr fun e he => ?_
  rw [Function.comp_apply, get?_of_mem hnodup he, Option.bind_some]

theorem get?_filterMap (hnodup : (keys m).Nodup) (f : κ → ν → Option μ) (key : κ) :
    get? (m.filterMap fun e => (f e.1 e.2).map (e.1, ·)) key = (get? m key).bind (f key) := by
  rw [filterMap_eq_tabulate hnodup, get?_tabulate]
  split
  · rfl
  · next h => rw [get?_eq_none_iff.mpr h, Option.bind_none]

theorem nodup_keys_filterMap (hnodup : (keys m).Nodup) (f : κ → ν → Option μ) :
    (keys (m.filterMap fun e => (f e.1 e.2).map (e.1, ·))).Nodup := by
  rw [filterMap_eq_tabulate hnodup, keys_tabulate]
  exact hnodup.filter _

/-- **A map with distinct keys is told by their order and their values.** -/
theorem eq_tabulate (hnodup : (keys m).Nodup) : m = tabulate (keys m) (get? m) := by
  have hsame := filterMap_eq_tabulate hnodup fun _ => some
  have hvalues : (fun key => (get? m key).bind some) = get? m :=
    funext fun key => Option.bind_fun_some (get? m key)
  rw [hvalues] at hsame
  exact List.filterMap_some.symm.trans hsame

omit [DecidableEq κ] in
/-- Keys without a value can be left out. -/
theorem tabulate_filter (order : List κ) {kept : κ → Bool} {g : κ → Option ν}
    (h : ∀ key, kept key = false → g key = none) :
    tabulate (order.filter kept) g = tabulate order g := by
  rw [tabulate, tabulate, List.filterMap_filter]
  refine List.filterMap_congr fun key _ => ?_
  cases hkept : kept key with
  | true => rfl
  | false => rw [h key hkept]; rfl

/-! ### Changes at one key -/

/-- Keys, and behind them those of others that are new. -/
def extended (order more : List κ) : List κ := order ++ more.filter fun key => key ∉ order

theorem mem_extended_iff {order more : List κ} :
    key ∈ extended order more ↔ key ∈ order ∨ key ∈ more := by
  rw [extended, List.mem_append, List.mem_filter, decide_eq_true_eq]
  constructor
  · exact Or.imp_right And.left
  · rintro (horder | hmore)
    · exact .inl horder
    · by_cases horder : key ∈ order
      · exact .inl horder
      · exact .inr ⟨hmore, horder⟩

theorem filter_extended (order more : List κ) (kept : κ → Bool) :
    (extended order more).filter kept = extended (order.filter kept) (more.filter kept) := by
  rw [extended, extended, List.filter_append, List.filter_filter, List.filter_filter]
  refine congrArg (_ ++ ·) (List.filter_congr fun key _ => ?_)
  cases hkept : kept key with
  | true => simp [hkept]
  | false => rw [Bool.false_and, Bool.and_false]

theorem nodup_extended {order more : List κ} (h : order.Nodup) (hmore : more.Nodup) :
    (extended order more).Nodup := by
  refine List.nodup_append.mpr ⟨h, hmore.filter _, ?_⟩
  rintro key hkey other hother rfl
  exact of_decide_eq_true (List.mem_filter.mp hother).2 hkey

/-- Changes what a key is bound to, if it is bound or gets a value. -/
def alter (m : Entries κ ν) (key : κ) (f : Option ν → Option ν) : Entries κ ν :=
  match f (get? m key) with
  | none => erase m key
  | some v => set m key v

theorem get?_erase (m : Entries κ ν) (key other : κ) :
    get? (erase m key) other = if key = other then none else get? m other := by
  refine (get?_filter m (fun k => decide (k ≠ key)) other).trans ?_
  by_cases h : key = other
  · subst h
    simp
  · rw [if_neg h, if_pos (decide_eq_true (Ne.symm h))]

theorem keys_erase (m : Entries κ ν) (key : κ) :
    keys (erase m key) = (keys m).filter fun k => k ≠ key := by
  rw [keys, erase, keys, List.filter_map]
  rfl

theorem get?_alter (m : Entries κ ν) (key other : κ) (f : Option ν → Option ν) :
    get? (alter m key f) other = if key = other then f (get? m key) else get? m other := by
  rw [alter]
  split
  · next h => rw [get?_erase, h]
  · next h => rw [get?_set, h]

theorem set_of_get?_eq_some (h : get? m key = some v) : set m key v = m := by
  induction m with
  | nil => cases h
  | cons e m ih =>
    obtain ⟨k, w⟩ := e
    rw [get?] at h
    rw [set]
    split
    · next hkey =>
      rw [if_pos hkey] at h
      rw [hkey, Option.some.inj h]
    · next hkey =>
      rw [if_neg hkey] at h
      rw [ih h]

theorem erase_of_get?_eq_none (h : get? m key = none) : erase m key = m := by
  refine List.filter_eq_self.mpr fun e he => decide_eq_true ?_
  rintro rfl
  exact get?_eq_none_iff.mp h (List.mem_map_of_mem he)

/-- A change that changes nothing. -/
theorem alter_eq_self {f : Option ν → Option ν} (h : f (get? m key) = get? m key) :
    alter m key f = m := by
  rw [alter, h]
  split
  · next hnone => exact erase_of_get?_eq_none hnone
  · next hsome => exact set_of_get?_eq_some hsome

/-- Changes made one after the other. -/
def alterAll (m : Entries κ ν) (steps : Entries κ (Option ν → Option ν)) : Entries κ ν :=
  steps.foldl (fun m e => alter m e.1 e.2) m

theorem alterAll_cons (m : Entries κ ν) (key : κ) (f : Option ν → Option ν)
    (steps : Entries κ (Option ν → Option ν)) :
    alterAll m ((key, f) :: steps) = alterAll (alter m key f) steps := rfl

variable {steps : Entries κ (Option ν → Option ν)}

/-- Changes at distinct keys do not get in each other's way. -/
theorem get?_alterAll (hnodup : (keys steps).Nodup) (m : Entries κ ν) (key : κ) :
    get? (alterAll m steps) key = (get? steps key).getD id (get? m key) := by
  induction steps generalizing m with
  | nil => rfl
  | cons e steps ih =>
    obtain ⟨k, f⟩ := e
    obtain ⟨hk, hnodup⟩ := List.nodup_cons.mp hnodup
    rw [alterAll_cons, ih hnodup, get?_alter, get?]
    split
    · next h =>
      subst h
      rw [get?_eq_none_iff.mpr hk]
      rfl
    · rfl

theorem nodup_keys_alter (hm : (keys m).Nodup) (key : κ) (f : Option ν → Option ν) :
    (keys (alter m key f)).Nodup := by
  rw [alter]
  split
  · exact hm.sublist (List.filter_sublist.map Prod.fst)
  · exact nodup_keys_set m key _ hm

theorem nodup_keys_alterAll (hm : (keys m).Nodup) (steps : Entries κ (Option ν → Option ν)) :
    (keys (alterAll m steps)).Nodup := by
  induction steps generalizing m with
  | nil => exact hm
  | cons e steps ih => exact ih (nodup_keys_alter hm e.1 e.2)

theorem mem_keys_alter_of_ne {other : κ} (h : key ≠ other) (m : Entries κ ν)
    (f : Option ν → Option ν) : other ∈ keys (alter m key f) ↔ other ∈ keys m := by
  rw [← isSome_get?, ← isSome_get?, get?_alter, if_neg h]

/-- A change takes no key from its place and puts a new one behind the others. -/
theorem filter_keys_alter {f : Option ν → Option ν} {kept : κ → Bool}
    (h : kept key = (f (get? m key)).isSome) :
    (keys (alter m key f)).filter kept = (extended (keys m) [key]).filter kept := by
  rw [alter, extended, List.filter_append]
  cases hf : f (get? m key) with
  | none =>
    have hkey : kept key = false := by rw [h, hf, Option.isSome_none]
    have hnew : ([key].filter fun k => k ∉ keys m).filter kept = [] := by
      refine List.filter_eq_nil_iff.mpr fun k hk => ?_
      obtain rfl := List.mem_singleton.mp (List.mem_of_mem_filter hk)
      exact ne_true_of_eq_false hkey
    show (keys (erase m key)).filter kept = _
    rw [hnew, List.append_nil, keys_erase, List.filter_filter]
    refine List.filter_congr fun k _ => ?_
    by_cases hk : k = key
    · rw [hk, hkey, Bool.false_and]
    · rw [decide_eq_true hk, Bool.and_true]
  | some v =>
    show (keys (set m key v)).filter kept = _
    rw [keys_set]
    split
    · next hmem => simp [hmem]
    · next hmem => simp [hmem]

/-- The keys that are left: those of the map and behind them those that are changed. -/
theorem keys_alterAll (hnodup : (keys steps).Nodup) (m : Entries κ ν) :
    keys (alterAll m steps)
      = (extended (keys m) (keys steps)).filter fun k => (get? (alterAll m steps) k).isSome := by
  induction steps generalizing m with
  | nil =>
    rw [keys_nil, extended, List.filter_nil, List.append_nil]
    exact (List.filter_eq_self.mpr fun k hk => (isSome_get? m k).mpr hk).symm
  | cons e steps ih =>
    obtain ⟨k, f⟩ := e
    obtain ⟨hk, hrest⟩ := List.nodup_cons.mp hnodup
    -- the other changes neither see the first nor change what it has done
    have hfresh : ((keys steps).filter fun x => x ∉ keys (alter m k f))
        = (keys steps).filter fun x => x ∉ keys m := by
      refine List.filter_congr fun x hx => ?_
      have hne : k ≠ x := by
        rintro rfl
        exact hk hx
      exact decide_eq_decide.mpr (not_congr (mem_keys_alter_of_ne hne m f))
    have hkept : (get? (alterAll (alter m k f) steps) k).isSome = (f (get? m k)).isSome := by
      rw [get?_alterAll hrest, get?_eq_none_iff.mpr hk, get?_alter, if_pos rfl]
      rfl
    have hkeys : extended (keys m) (keys ((k, f) :: steps))
        = extended (keys m) [k] ++ (keys steps).filter fun x => x ∉ keys m := by
      rw [extended, extended, List.append_assoc, ← List.filter_append]
      rfl
    rw [alterAll_cons, ih hrest, extended, hfresh, hkeys, List.filter_append, List.filter_append,
      filter_keys_alter hkept]

/-- **Changes at distinct keys** leave the keys in place and put new ones behind
them. -/
theorem alterAll_eq_tabulate (hm : (keys m).Nodup) (hnodup : (keys steps).Nodup) :
    alterAll m steps = tabulate (extended (keys m) (keys steps))
      fun k => (get? steps k).getD id (get? m k) := by
  have hvalues : (fun k => (get? steps k).getD id (get? m k)) = get? (alterAll m steps) :=
    funext fun k => (get?_alterAll hnodup m k).symm
  have hkept : ∀ k, (get? (alterAll m steps) k).isSome = false → get? (alterAll m steps) k = none :=
    fun k hk => Option.not_isSome_iff_eq_none.mp (ne_true_of_eq_false hk)
  rw [hvalues, ← tabulate_filter _ hkept, ← keys_alterAll hnodup m]
  exact eq_tabulate (nodup_keys_alterAll hm steps)

/-- Changes that bind no new keys, made to a table. -/
theorem alterAll_tabulate {order : List κ} {g : κ → Option ν}
    (hm : (keys (tabulate order g)).Nodup) (hnodup : (keys steps).Nodup)
    (hnone : ∀ k, (get? steps k).getD id none = none) :
    alterAll (tabulate order g) steps
      = tabulate order fun k => (get? steps k).getD id (g k) := by
  have hnew : tabulate ((keys steps).filter fun k => k ∉ keys (tabulate order g))
      (fun k => (get? steps k).getD id (get? (tabulate order g) k)) = [] := by
    refine List.filterMap_eq_nil_iff.mpr fun k hk => ?_
    obtain ⟨-, hk⟩ := List.mem_filter.mp hk
    have hunbound : get? (tabulate order g) k = none :=
      get?_eq_none_iff.mpr (of_decide_eq_true hk)
    simp only [hunbound, hnone, Option.map_none]
  have hvalues : ∀ k ∈ order, get? (tabulate order g) k = g k :=
    fun k hk => (get?_tabulate order g k).trans (if_pos hk)
  rw [alterAll_eq_tabulate hm hnodup, extended, tabulate_append, hnew, List.append_nil,
    keys_tabulate, tabulate_congr fun k hk => by rw [hvalues k (List.mem_of_mem_filter hk)]]
  refine tabulate_filter order fun k hk => ?_
  rw [Option.not_isSome_iff_eq_none.mp (ne_true_of_eq_false hk), hnone]

end UriExpansion.Entries
