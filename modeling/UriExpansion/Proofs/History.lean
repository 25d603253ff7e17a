/-
UriExpansion/Proofs/History.lean

Stores and the bindings that they are made of.

However a store comes about, its bindings are made one after the other: those
that it begins with, those given by keyword, and those set later on
(`Store.History`).  The store `Reflects` them: it has each name once, in the order
in which the names are bound for the first time, and with each name the value of
its last binding.  One more binding is reflected by `Store.set`
(`Store.Reflects.set`), and so are any number of them, by induction
(`Store.Reflects.foldl_set`); everything that a store can be asked follows from
that (`Store.history_lastWins`).

Stores count as the same if they have the same names with values that count as
the same (`Store.same_iff`), and every value counts as the same as itself
(`Value.same_self`).  Neither this nor an expansion looks at the order of the
names, so that histories which leave the same values behind cannot be told apart
by them.
-/
import Mathlib.Data.Finset.Card
import UriExpansion.Proofs.Entries
import UriExpansion.Proofs.Keywords

namespace UriExpansion

/-! ### Values that count as the same -/

namespace Value

mutual

/-- Every value counts as the same as itself, numbers that are not numbers
included. -/
theorem same_self : ∀ v : Value, v.same v = true
  | list items => by rw [same, sameItems_self items]
  | tuple items => by rw [same, sameItems_self items]
  | map entries => by
    rw [same, sameEntries_of_subset entries entries fun _ h => h, beq_self_eq_true, Bool.and_self]
  | store entries => by
    rw [same, sameEntries_of_subset entries entries fun _ h => h, beq_self_eq_true, Bool.and_self]
  | set members => by
    rw [same, sameMembers_of_subset members members fun _ h => h, beq_self_eq_true, Bool.and_self]
  | bool b => by cases b <;> simp [same, sameAtom, quantity?, Quantity.same, Quantity.order]
  | int n => by simp [same, sameAtom, quantity?, Quantity.same, Quantity.order]
  | none => by simp [same, sameAtom]
  | float _ => by simp [same, sameAtom]
  | decimal _ => by simp [same, sameAtom]
  | str _ => by simp [same, sameAtom]
  | uuid _ => by simp [same, sameAtom]
  | date _ => by simp [same, sameAtom]
  | moment _ => by simp [same, sameAtom]
  | time _ => by simp [same, sameAtom]
  | enumMember .. => by simp [same, sameAtom]
  | bytes _ => by simp [same, sameAtom]
  | classObject .. => by simp [same, sameAtom]
  | function .. => by simp [same, sameAtom]
  | object _ => by simp [same, sameAtom]

theorem sameItems_self : ∀ items : List Value, sameItems items items = true
  | [] => by rw [sameItems]
  | v :: rest => by rw [sameItems, same_self v, sameItems_self rest, Bool.and_self]

/-- The second list stays whole while the first is gone through, so that the
induction is about any part of it. -/
theorem sameEntries_of_subset : ∀ entries other : List (Value × Value), entries ⊆ other →
    sameEntries entries other = true
  | [], _, _ => by rw [sameEntries]
  | (k, v) :: rest, other, h => by
    obtain ⟨hmem, hrest⟩ := List.cons_subset.mp h
    have hsame : (same k k && same v v) = true := by rw [same_self k, same_self v, Bool.and_self]
    rw [sameEntries, sameEntries_of_subset rest other hrest, Bool.and_true]
    exact List.any_eq_true.mpr ⟨(k, v), hmem, hsame⟩

theorem sameMembers_of_subset : ∀ members other : List Value, members ⊆ other →
    sameMembers members other = true
  | [], _, _ => by rw [sameMembers]
  | v :: rest, other, h => by
    obtain ⟨hmem, hrest⟩ := List.cons_subset.mp h
    rw [sameMembers, sameMembers_of_subset rest other hrest, Bool.and_true]
    exact List.any_eq_true.mpr ⟨v, hmem, same_self v⟩

end

end Value

namespace Store

variable {a b s : Store} {made more : List (Text × Value)} {name : Text} {v : Value}

/-! ### Stores that count as the same -/

theorem mem_names_iff : name ∈ s.names ↔ ∃ v, s.get? name = some v :=
  (Entries.isSome_get? s.entries name).symm.trans Option.isSome_iff_exists

theorem size_eq_length_names (s : Store) : s.size = s.names.length :=
  (List.length_map Prod.fst).symm

/-- Stores count as the same if they have the same names, and values with them
that count as the same. -/
theorem same_iff : a.same b = true ↔ ∀ name,
    (a.get? name = none ∧ b.get? name = none) ∨
      ∃ v w, a.get? name = some v ∧ b.get? name = some w ∧ v.same w = true := by
  have hsplit : a.same b = true ↔ a.names.length = b.names.length ∧
      ∀ name v, a.get? name = some v → ∃ w, b.get? name = some w ∧ v.same w = true := by
    rw [same, Bool.and_eq_true, beq_iff_eq, size_eq_length_names, size_eq_length_names,
      List.all_eq_true]
    refine and_congr_right' ⟨fun h name v hv => ?_, fun h e he => ?_⟩
    · have hsame := h (name, v) (Entries.mem_of_get?_eq_some hv)
      dsimp only at hsame
      split at hsame
      · next w hw => exact ⟨w, hw, hsame⟩
      · cases hsame
    · obtain ⟨w, hw, hsame⟩ := h e.1 e.2 (Entries.get?_of_mem a.nodup he)
      rw [hw]
      exact hsame
  rw [hsplit]
  constructor
  · rintro ⟨hlength, hvalues⟩ name
    rcases ha : a.get? name with - | v
    · -- as many names as in the first store, and all names of the first: there is no other
      have hsubset : a.names ⊆ b.names := by
        intro other hother
        obtain ⟨v, hv⟩ := mem_names_iff.mp hother
        obtain ⟨w, hw, -⟩ := hvalues other v hv
        exact mem_names_iff.mpr ⟨w, hw⟩
      have hperm := (a.nodup.subperm hsubset).perm_of_length_le hlength.symm.le
      refine .inl ⟨rfl, Entries.get?_eq_none_iff.mpr fun hb => ?_⟩
      exact Entries.get?_eq_none_iff.mp ha (hperm.mem_iff.mpr hb)
    · obtain ⟨w, hw, hsame⟩ := hvalues name v ha
      exact .inr ⟨v, w, rfl, hw, hsame⟩
  · intro h
    constructor
    · refine ((List.perm_ext_iff_of_nodup a.nodup b.nodup).mpr fun name => ?_).length_eq
      rcases h name with ⟨ha, hb⟩ | ⟨v, w, ha, hb, -⟩
      · exact iff_of_false (Entries.get?_eq_none_iff.mp ha) (Entries.get?_eq_none_iff.mp hb)
      · exact iff_of_true (mem_names_iff.mpr ⟨v, ha⟩) (mem_names_iff.mpr ⟨w, hb⟩)
    · intro name v hv
      rcases h name with ⟨ha, -⟩ | ⟨v', w, ha, hb, hsame⟩
      · rw [hv] at ha
        cases ha
      · obtain rfl := Option.some.inj (hv.symm.trans ha)
        exact ⟨w, hb, hsame⟩

/-- The order of the names makes no difference. -/
theorem same_of_get?_eq (h : ∀ name, a.get? name = b.get? name) : a.same b = true := by
  refine same_iff.mpr fun name => ?_
  rcases ha : a.get? name with - | v
  · exact .inl ⟨rfl, (h name).symm.trans ha⟩
  · exact .inr ⟨v, v, rfl, (h name).symm.trans ha, v.same_self⟩

/-! ### Bindings made one after the other -/

/-- The value is that of the last binding of the name. -/
def LastBinding (made : List (Text × Value)) (name : Text) (v : Value) : Prop :=
  ∃ before after, made = before ++ (name, v) :: after ∧ name ∉ Entries.keys after

/-- The store has each name that is bound, in the order in which the names are
bound for the first time, and the values of the last bindings. -/
structure Reflects (s : Store) (made : List (Text × Value)) : Prop where
  mem : ∀ name, name ∈ s.names ↔ name ∈ Entries.keys made
  order : s.names.Pairwise fun m n =>
    (Entries.keys made).idxOf m < (Entries.keys made).idxOf n
  value : ∀ name v, s.get? name = some v ↔ LastBinding made name v

theorem not_lastBinding_nil : ¬ LastBinding [] name v := by
  rintro ⟨before, after, h, -⟩
  exact absurd h.symm (List.append_ne_nil_of_right_ne_nil before (List.cons_ne_nil _ _))

/-- One more binding is the last one of its name, and of no other. -/
theorem lastBinding_concat {other : Text} {w : Value} :
    LastBinding (made ++ [(other, w)]) name v ↔
      if other = name then v = w else LastBinding made name v := by
  constructor
  · rintro ⟨before, after, heq, hafter⟩
    rcases List.eq_nil_or_concat after with rfl | ⟨after, e, rfl⟩
    · obtain ⟨rfl, hlast⟩ := List.append_inj' heq rfl
      obtain ⟨rfl, rfl⟩ := Prod.mk.inj (List.singleton_inj.mp hlast)
      rw [if_pos rfl]
    · rw [List.concat_eq_append, ← List.cons_append, ← List.append_assoc] at heq
      obtain ⟨rfl, hlast⟩ := List.append_inj' heq rfl
      obtain rfl := List.singleton_inj.mp hlast
      rw [List.concat_eq_append, Entries.keys, List.map_append, List.mem_append, not_or] at hafter
      rw [if_neg fun h => hafter.2 (List.mem_singleton.mpr h.symm)]
      exact ⟨before, after, rfl, hafter.1⟩
  · intro h
    split at h
    · next hname =>
      obtain rfl := h
      exact ⟨made, [], by rw [hname], List.not_mem_nil⟩
    · next hname =>
      obtain ⟨before, after, rfl, hafter⟩ := h
      refine ⟨before, after ++ [(other, w)], by simp, ?_⟩
      rw [Entries.keys, List.map_append, List.mem_append, not_or]
      exact ⟨hafter, fun h => hname (List.mem_singleton.mp h).symm⟩

/-- The store that binds nothing is what no bindings lead to. -/
theorem reflects_empty : empty.Reflects [] :=
  ⟨fun _ => Iff.rfl, .nil, fun _ _ => iff_of_false nofun not_lastBinding_nil⟩

/-- Binding a name leaves the names alone if it is among them, and otherwise puts it
behind them. -/
theorem names_set (s : Store) (name : Text) (v : Value) :
    (name ∈ s.names ∧ (s.set name v).names = s.names) ∨
      (name ∉ s.names ∧ (s.set name v).names = s.names ++ [name]) := by
  have hkeys := Entries.keys_set s.entries name v
  by_cases hmem : name ∈ Entries.keys s.entries
  · exact .inl ⟨hmem, hkeys.trans (if_pos hmem)⟩
  · exact .inr ⟨hmem, hkeys.trans (if_neg hmem)⟩

/-- **One more binding**: the value of its name changes, and the name goes to the
end unless it has a place already. -/
theorem Reflects.set (h : s.Reflects made) (name : Text) (v : Value) :
    (s.set name v).Reflects (made ++ [(name, v)]) := by
  have hkeys : Entries.keys (made ++ [(name, v)]) = Entries.keys made ++ [name] :=
    List.map_append
  -- a name that is bound already is found at the same place
  have hplace : ∀ m ∈ s.names,
      (Entries.keys made ++ [name]).idxOf m = (Entries.keys made).idxOf m :=
    fun m hm => List.idxOf_append_of_mem ((h.mem m).mp hm)
  have hkept : s.names.Pairwise fun m n => (Entries.keys made ++ [name]).idxOf m
      < (Entries.keys made ++ [name]).idxOf n :=
    h.order.imp_of_mem fun {m n} hm hn hlt => by rwa [hplace m hm, hplace n hn]
  have hvalue : ∀ other w, (s.set name v).get? other = some w ↔
      LastBinding (made ++ [(name, v)]) other w := by
    intro other w
    have hget : (s.set name v).get? other = if name = other then some v else s.get? other :=
      Entries.get?_set s.entries name other v
    rw [hget, lastBinding_concat]
    split
    · exact Option.some_inj.trans eq_comm
    · exact h.value other w
  rcases s.names_set name v with ⟨hmem, hnames⟩ | ⟨hnew, hnames⟩
  · refine ⟨fun other => ?_, by rwa [hkeys, hnames], hvalue⟩
    rw [hkeys, hnames, List.mem_append, List.mem_singleton, ← h.mem]
    exact ⟨.inl, fun hor => hor.elim id fun heq => heq ▸ hmem⟩
  · refine ⟨fun other => ?_, ?_, hvalue⟩
    · rw [hkeys, hnames, List.mem_append, List.mem_append, h.mem]
    · rw [hkeys, hnames]
      refine List.pairwise_append.mpr ⟨hkept, List.pairwise_singleton _ _, fun m hm n hn => ?_⟩
      obtain rfl := List.mem_singleton.mp hn
      have hfresh : n ∉ Entries.keys made := fun hn => hnew ((h.mem n).mpr hn)
      rw [hplace m hm, List.idxOf_append_of_notMem hfresh]
      exact (List.idxOf_lt_length_of_mem ((h.mem m).mp hm)).trans_le (Nat.le_add_right _ _)

/-- Any number of further bindings. -/
theorem Reflects.foldl_set (h : s.Reflects made) (more : List (Text × Value)) :
    (more.foldl (fun s e => s.set e.1 e.2) s).Reflects (made ++ more) := by
  induction more generalizing s made with
  | nil => rwa [List.append_nil]
  | cons e more ih =>
    have hmore := ih (h.set e.1 e.2)
    rwa [List.append_assoc, List.singleton_append] at hmore

theorem setAll_eq_foldl (s : Store) (more : List (Text × Value)) :
    s.setAll more = more.foldl (fun s e => s.set e.1 e.2) s := by
  induction more generalizing s with
  | nil => rfl
  | cons e more ih => exact ih (s.set e.1 e.2)

theorem Reflects.setAll (h : s.Reflects made) (more : List (Text × Value)) :
    (s.setAll more).Reflects (made ++ more) := by
  rw [setAll_eq_foldl]
  exact h.foldl_set more

/-- What is looked up is the value of the last binding; without one there is
nothing to be found. -/
theorem Reflects.index (h : s.Reflects made) (name : Text) :
    (∀ v, s.index name = .ok v ↔ LastBinding made name v) ∧
      (name ∉ Entries.keys made → s.index name = .error (.unboundName name)) := by
  rw [Store.index]
  rcases hget : s.get? name with - | w
  · refine ⟨fun v => iff_of_false nofun fun hlast => ?_, fun _ => rfl⟩
    rw [(h.value name v).mpr hlast] at hget
    cases hget
  · refine ⟨fun v => ?_, fun hnot => ?_⟩
    · rw [← h.value, hget, Except.ok.injEq, Option.some_inj]
    · exact absurd ((h.mem name).mp (mem_names_iff.mpr ⟨w, hget⟩)) hnot

/-- There are as many entries as different names. -/
theorem Reflects.size_eq (h : s.Reflects made) :
    s.size = (Entries.keys made).toFinset.card := by
  have hnames : s.names.toFinset = (Entries.keys made).toFinset := by
    ext name
    rw [List.mem_toFinset, List.mem_toFinset, h.mem]
  have hcard : s.names.toFinset.card = s.names.length := List.toFinset_card_of_nodup s.nodup
  rw [size_eq_length_names, ← hnames, hcard]

theorem Reflects.get?_eq {more : List (Text × Value)} (ha : a.Reflects made)
    (hb : b.Reflects more) (h : ∀ name v, LastBinding made name v ↔ LastBinding more name v)
    (name : Text) : a.get? name = b.get? name := by
  ext v
  rw [ha.value, hb.value, h]

/-! ### Histories -/

/-- How a store comes about: from the bindings that it begins with, those given
by keyword, and those that are set, one after the other. -/
structure History where
  initial : List (Text × Value)
  keywords : List (Text × Value)
  later : List (Text × Value)

namespace History

/-- All bindings in the order in which they are made. -/
def bindings (h : History) : List (Text × Value) := h.initial ++ h.keywords ++ h.later

/-- The store that is there in the end. -/
def store (h : History) : Except Fault Store := do
  let s ← (ofList h.initial).withKeywords buildParameters h.keywords
  return h.later.foldl (fun s e => s.set e.1 e.2) s

/-- Keywords that are no parameters lead to a store, and it reflects all bindings. -/
theorem exists_store {h : History} (hfree : ∀ e ∈ h.keywords, e.1 ∉ buildParameters) :
    ∃ s, h.store = .ok s ∧ s.Reflects h.bindings := by
  rcases (ofList h.initial).withKeywords_cases buildParameters h.keywords with
    ⟨-, hkeywords⟩ | ⟨e, he, hmem, -⟩
  · refine ⟨_, by rw [store, hkeywords]; rfl, ?_⟩
    have hinitial : (ofList h.initial).Reflects h.initial := reflects_empty.setAll h.initial
    exact (hinitial.setAll h.keywords).foldl_set h.later
  · exact absurd hmem (hfree e he)

end History

/-- **The last binding wins, after any history.**  Keywords that are no parameters
lead to a store.  It has each name that was bound once, in the order of the first
bindings, and gives it the value of its last binding; names that were never bound
are not found; its size is the number of different names.  A second history, in
whatever order and with whatever bindings that were overridden, which leaves the
same last values leads to a store that counts as the same, and no template expands
differently. -/
theorem history_lastWins {h : History} (hfree : ∀ e ∈ h.keywords, e.1 ∉ buildParameters) :
    ∃ s, h.store = .ok s ∧
      (s.names.Nodup ∧ s.Reflects h.bindings) ∧
      (∀ name, (∀ v, s.index name = .ok v ↔ LastBinding h.bindings name v) ∧
        (name ∉ Entries.keys h.bindings → s.index name = .error (.unboundName name))) ∧
      s.size = (Entries.keys h.bindings).toFinset.card ∧
      (∀ name, s.contains name = true ↔ name ∈ s.names) ∧
      ∀ h' : History, (∀ e ∈ h'.keywords, e.1 ∉ buildParameters) →
        (∀ name v, LastBinding h.bindings name v ↔ LastBinding h'.bindings name v) →
        ∃ s', h'.store = .ok s' ∧ s.same s' = true ∧ s'.same s = true ∧
          ∀ (t : Template) (cfg : Settings), t.expand s cfg = t.expand s' cfg ∧
            t.expandPartial s cfg = t.expandPartial s' cfg := by
  obtain ⟨s, hs, hreflects⟩ := History.exists_store hfree
  refine ⟨s, hs, ⟨s.nodup, hreflects⟩, hreflects.index, hreflects.size_eq,
    fun name => List.contains_iff_mem, fun h' hfree' hlast => ?_⟩
  obtain ⟨s', hs', hreflects'⟩ := History.exists_store hfree'
  have hget := hreflects.get?_eq hreflects' hlast
  refine ⟨s', hs', same_of_get?_eq hget, same_of_get?_eq fun name => (hget name).symm,
    fun t cfg => ?_⟩
  have hagree : s.Agree s' t.variableNames := fun name _ =>
    congrArg (Option.getD · Value.none) (hget name)
  exact ⟨congrArg Traced.outcome (Template.expandTraced_congr hagree cfg),
    congrArg Traced.outcome (Template.expandPartialTraced_congr hagree cfg)⟩

/-- Two histories that bind the same three names, one of them by keywords that
override, the other in another order and with values that are overridden. -/
theorem history_lastWins_overridden :
    let a := lit "a"
    let b := lit "b"
    let c := lit "c"
    let h : History := ⟨[(a, .int 1), (b, .int 2)], [(b, .int 3), (c, .float .nan)], [(a, .int 5)]⟩
    let h' : History := ⟨[(c, .float .nan), (b, .none)], [], [(a, .int 1), (b, .int 3), (a, .int 5)]⟩
    (∀ e ∈ h.keywords, e.1 ∉ buildParameters) ∧ (∀ e ∈ h'.keywords, e.1 ∉ buildParameters) ∧
      (∀ name v, LastBinding h.bindings name v ↔ LastBinding h'.bindings name v) ∧
      ∃ s s', h.store = .ok s ∧ h'.store = .ok s' ∧ s.names = [a, b, c] ∧ s'.names = [c, b, a] ∧
        s.size = 3 ∧ s.index a = .ok (.int 5) ∧ s.index (lit "d") = .error (.unboundName (lit "d")) ∧
        s.same s' = true ∧
        ∀ (t : Template) (cfg : Settings), t.expand s cfg = t.expand s' cfg := by
  intro a b c h h'
  have hfree : ∀ e ∈ h.keywords, e.1 ∉ buildParameters := by decide
  have hfree' : ∀ e ∈ h'.keywords, e.1 ∉ buildParameters := by decide
  have hlast : ∀ name v, LastBinding h.bindings name v ↔ LastBinding h'.bindings name v := by
    intro name v
    have hbindings : h.bindings = [] ++ [(a, .int 1)] ++ [(b, .int 2)] ++ [(b, .int 3)]
        ++ [(c, .float .nan)] ++ [(a, .int 5)] := rfl
    have hbindings' : h'.bindings = [] ++ [(c, .float .nan)] ++ [(b, .none)] ++ [(a, .int 1)]
        ++ [(b, .int 3)] ++ [(a, .int 5)] := rfl
    rw [hbindings, hbindings']
    simp only [lastBinding_concat, not_lastBinding_nil]
    by_cases ha : a = name
    · simp only [if_pos ha]
    · by_cases hb : b = name
      · subst hb
        simp only [if_neg ha, if_neg (show c ≠ b by decide), if_true]
      · simp only [if_neg ha, if_neg hb]
  obtain ⟨s, hs, -, hindex, hsize, -, hothers⟩ := history_lastWins hfree
  obtain ⟨s', hs', hsame, -, hexpand⟩ := hothers h' hfree' hlast
  have hnames : s.names = [a, b, c] := congrArg names (Except.ok.inj hs).symm
  have hnames' : s'.names = [c, b, a] := congrArg names (Except.ok.inj hs').symm
  have hvalue : LastBinding h.bindings a (.int 5) :=
    ⟨_, [], (rfl : h.bindings = h.initial ++ h.keywords ++ [(a, .int 5)]), List.not_mem_nil⟩
  exact ⟨hfree, hfree', hlast, s, s', hs, hs', hnames, hnames', hsize.trans (by decide),
    ((hindex a).1 _).mpr hvalue, (hindex (lit "d")).2 (by decide), hsame,
    fun t cfg => (hexpand t cfg).1⟩

end Store

end UriExpansion
