/-
UriExpansion/Proofs/DocumentValues.lean

What documents denote.

The value of a document is built of atoms, lists, tuples and mappings
(`Value.OfDocument`), and the keys of its mappings are atoms.

A JSON document is read from its beginning to its end, and each step of the reader
returns such a value (`Json.ofDocument_of_read`).

The nodes of a YAML document are judged first.  The keys of a mapping are judged as nodes
of their own, and only atoms are taken (`Judge.keeps_pairsOf`).  Judging a node finds an
atom by reading a scalar, or what was found before; so every atom that is recorded is one
of the few that scalars denote (`Judgement.Keyed`).  Every step of judging keeps this
(`Judge.keeps_visit`, `Judge.retains_fill`), and hence the whole of it does
(`keyed_of_shapes`).  The value of the document is put together from the shapes of its
nodes (`Yaml.ofDocument_of_read`).
-/
import UriExpansion.Json.Reader
import UriExpansion.Proofs.Outcome
import UriExpansion.Yaml.Meaning

namespace UriExpansion

/-! ### Computations that keep an invariant -/

/-- Run in a state with the invariant, the computation ends in a state with the
invariant and in a value with the property, unless it fails. -/
def Keeps {σ ε α : Type} (I : σ → Prop) (Q : α → Prop) (x : StateT σ (Except ε) α) : Prop :=
  ∀ s a s', I s → x.run s = .ok (a, s') → I s' ∧ Q a

namespace Keeps

variable {σ ε α β : Type} {I : σ → Prop} {P : α → Prop} {Q : β → Prop}

theorem pure {a : α} (h : P a) : Keeps I P (Pure.pure a : StateT σ (Except ε) α) := by
  intro s b s' hs hrun
  obtain ⟨rfl, rfl⟩ := Prod.mk.inj (Except.ok.inj hrun)
  exact ⟨hs, h⟩

theorem throw (e : ε) : Keeps I P (throwThe ε e : StateT σ (Except ε) α) :=
  fun _ _ _ _ hrun => nomatch hrun

theorem bind {x : StateT σ (Except ε) α} {f : α → StateT σ (Except ε) β} (hx : Keeps I P x)
    (hf : ∀ a, P a → Keeps I Q (f a)) : Keeps I Q (x >>= f) := by
  intro s b s' hs hrun
  rw [StateT.run_bind] at hrun
  obtain ⟨⟨a, t⟩, hfirst, hrest⟩ := bind_eq_ok.mp hrun
  obtain ⟨ht, ha⟩ := hx s a t hs hfirst
  exact hf a ha t b s' ht hrest

theorem mono {P' : α → Prop} {x : StateT σ (Except ε) α} (hx : Keeps I P x)
    (h : ∀ a, P a → P' a) : Keeps I P' x :=
  fun s a s' hs hrun => ⟨(hx s a s' hs hrun).1, h a (hx s a s' hs hrun).2⟩

theorem map {x : StateT σ (Except ε) α} {g : α → β} (hx : Keeps I P x) (hg : ∀ a, P a → Q (g a)) :
    Keeps I Q (g <$> x) :=
  hx.bind fun a ha => pure (hg a ha)

theorem get : Keeps I I (MonadState.get : StateT σ (Except ε) σ) := by
  intro s a s' hs hrun
  obtain ⟨rfl, rfl⟩ := Prod.mk.inj (Except.ok.inj hrun)
  exact ⟨hs, hs⟩

theorem modify {g : σ → σ} (hg : ∀ s, I s → I (g s)) :
    Keeps I (fun _ => True) (modify g : StateT σ (Except ε) PUnit) := by
  intro s a s' hs hrun
  obtain ⟨-, rfl⟩ := Prod.mk.inj (Except.ok.inj hrun)
  exact ⟨hg s hs, trivial⟩

/-- A computation without a state. -/
theorem lift (x : Except ε α) (h : ∀ a, x = .ok a → P a) :
    Keeps I P (liftM x : StateT σ (Except ε) α) := by
  intro s a s' hs hrun
  rcases x with e | b
  · cases hrun
  · obtain ⟨rfl, rfl⟩ := Prod.mk.inj (Except.ok.inj hrun)
    exact ⟨hs, h b rfl⟩

theorem mapM {f : α → StateT σ (Except ε) β} (h : ∀ a, Keeps I Q (f a)) (as : List α) :
    Keeps I (fun bs => ∀ b ∈ bs, Q b) (as.mapM f) := by
  induction as with
  | nil => exact pure fun b hb => absurd hb List.not_mem_nil
  | cons a as ih =>
    rw [List.mapM_cons]
    exact (h a).bind fun b hb => ih.bind fun bs hbs => pure (List.forall_mem_cons.mpr ⟨hb, hbs⟩)

theorem forM {f : α → StateT σ (Except ε) PUnit} (h : ∀ a, Keeps I (fun _ => True) (f a))
    (as : List α) : Keeps I (fun _ => True) (as.forM f) := by
  induction as with
  | nil => exact pure trivial
  | cons a as ih => exact (h a).bind fun _ _ => ih

theorem filterM {f : α → StateT σ (Except ε) Bool} (h : ∀ a, Keeps I (fun _ => True) (f a))
    (as : List α) : Keeps I (fun _ => True) (as.filterM f) := by
  -- a filter collects what it keeps in a list of its own
  have hcollect : ∀ as kept : List α, Keeps I (fun _ => True) (List.filterAuxM f as kept) := by
    intro as
    induction as with
    | nil => exact fun kept => pure trivial
    | cons a as ih =>
      intro kept
      rw [List.filterAuxM]
      exact (h a).bind fun b _ => ih _
  exact (hcollect as []).bind fun _ _ => pure trivial

end Keeps

/-! ### Values -/

/-- The values of the scalars of a document. -/
inductive Value.OfScalar : Value → Prop
  | none : OfScalar .none
  | bool (b : Bool) : OfScalar (.bool b)
  | int (n : Int) : OfScalar (.int n)
  | float (x : Binary64) : OfScalar (.float x)
  | str (t : Text) : OfScalar (.str t)
  | bytes (octets : List UInt8) : OfScalar (.bytes octets)
  | date (d : Date) : OfScalar (.date d)
  | moment (m : Moment) : OfScalar (.moment m)

/-- The values of documents.  Of the members of a set nothing is said. -/
inductive Value.OfDocument : Value → Prop
  | scalar {v : Value} : v.OfScalar → OfDocument v
  | list {items : List Value} : (∀ v ∈ items, OfDocument v) → OfDocument (.list items)
  | tuple {items : List Value} : (∀ v ∈ items, OfDocument v) → OfDocument (.tuple items)
  | map {entries : List (Value × Value)} : (∀ e ∈ entries, e.1.OfScalar) →
      (∀ e ∈ entries, OfDocument e.2) → OfDocument (.map entries)
  | set (members : List Value) : OfDocument (.set members)

theorem Value.ofDocument_none : Value.OfDocument .none := .scalar .none

/-- If the value is a mapping, its keys are such as scalars denote. -/
def Value.Keyed (v : Value) : Prop := ∀ entries, v = .map entries → ∀ e ∈ entries, e.1.OfScalar

theorem Value.OfDocument.keyed {v : Value} (h : v.OfDocument) : v.Keyed := by
  rintro entries rfl
  cases h with
  | scalar h => cases h
  | map hkeys _ => exact hkeys

namespace Value

variable {α : Type} {P : Value → Prop} {Q : α → Prop}

theorem forall_mem_bind {key : Value} (hkey : P key) {value : α} (hvalue : Q value)
    {bound : List (Value × α)} (hbound : ∀ e ∈ bound, P e.1 ∧ Q e.2) :
    ∀ e ∈ bind key value bound, P e.1 ∧ Q e.2 := by
  induction bound with
  | nil => exact List.forall_mem_singleton.mpr ⟨hkey, hvalue⟩
  | cons e bound ih =>
    obtain ⟨he, hrest⟩ := List.forall_mem_cons.mp hbound
    rw [bind]
    split
    · exact List.forall_mem_cons.mpr ⟨⟨he.1, hvalue⟩, hrest⟩
    · exact List.forall_mem_cons.mpr ⟨he, ih hrest⟩

/-- Keys and values are bound as they are given. -/
theorem forall_mem_bindAll {entries : List (Value × α)} (h : ∀ e ∈ entries, P e.1 ∧ Q e.2) :
    ∀ e ∈ bindAll entries, P e.1 ∧ Q e.2 := by
  have hfold : ∀ bound : List (Value × α), (∀ e ∈ bound, P e.1 ∧ Q e.2) →
      ∀ e ∈ entries.foldl (fun m e => bind e.1 e.2 m) bound, P e.1 ∧ Q e.2 := by
    induction entries with
    | nil => exact fun bound hbound => hbound
    | cons e entries ih =>
      obtain ⟨he, hrest⟩ := List.forall_mem_cons.mp h
      exact fun bound hbound => ih hrest _ (forall_mem_bind he.1 he.2 hbound)
  exact hfold [] fun e he => absurd he List.not_mem_nil

end Value

/-! ### JSON -/

namespace Json

theorem ofScalar_of_named? {cs rest : List Char} {v : Value} (h : named? cs = some (v, rest)) :
    v.OfScalar := by
  obtain ⟨e, he, heq⟩ := Option.map_eq_some_iff.mp h
  obtain ⟨rfl, -⟩ := Prod.mk.inj heq
  have hmem := List.mem_of_find?_eq_some he
  simp only [List.mem_cons, List.not_mem_nil, or_false] at hmem
  rcases hmem with rfl | rfl | rfl | rfl | rfl | rfl
  · exact .none
  · exact .bool true
  · exact .bool false
  · exact .float _
  · exact .float _
  · exact .float _

theorem ofScalar_of_number {cs rest : List Char} {v : Value} (h : number cs = .ok (v, rest)) :
    v.OfScalar := by
  unfold number at h
  dsimp only at h
  split at h
  · cases h
  · split at h
    · split at h
      · cases h
      · obtain ⟨rfl, -⟩ := Prod.mk.inj (Except.ok.inj h)
        exact .int _
    · obtain ⟨rfl, -⟩ := Prod.mk.inj (Except.ok.inj h)
      exact .float _

/-- Values, arrays and objects, within a bound on the steps. -/
theorem ofDocument_of_value (bound : Nat) :
    (∀ room cs v rest, value room bound cs = .ok (v, rest) → v.OfDocument) ∧
    (∀ room cs items rest, array room bound cs = .ok (items, rest) →
      ∀ v ∈ items, v.OfDocument) ∧
    ∀ room cs entries rest, object room bound cs = .ok (entries, rest) →
      ∀ e ∈ entries, e.1.OfScalar ∧ e.2.OfDocument := by
  induction bound with
  | zero => simp [value, array, object, refuse]
  | succ bound ih =>
    obtain ⟨hvalue, harray, hobject⟩ := ih
    refine ⟨fun room cs v rest h => ?_, fun room cs items rest h => ?_,
      fun room cs entries rest h => ?_⟩
    · unfold value at h
      split at h
      · obtain ⟨⟨t, after⟩, -, h⟩ := bind_eq_ok.mp h
        obtain ⟨rfl, -⟩ := Prod.mk.inj (Except.ok.inj h)
        exact .scalar (.str t)
      · split at h
        · cases h
        · split at h
          · obtain ⟨rfl, -⟩ := Prod.mk.inj (Except.ok.inj h)
            exact .map (fun e he => absurd he List.not_mem_nil) fun e he => absurd he List.not_mem_nil
          · obtain ⟨⟨entries, after⟩, hentries, h⟩ := bind_eq_ok.mp h
            obtain ⟨rfl, -⟩ := Prod.mk.inj (Except.ok.inj h)
            have hbound := Value.forall_mem_bindAll (hobject _ _ _ _ hentries)
            exact .map (fun e he => (hbound e he).1) fun e he => (hbound e he).2
      · split at h
        · cases h
        · split at h
          · obtain ⟨rfl, -⟩ := Prod.mk.inj (Except.ok.inj h)
            exact .list fun v hv => absurd hv List.not_mem_nil
          · obtain ⟨⟨items, after⟩, hitems, h⟩ := bind_eq_ok.mp h
            obtain ⟨rfl, -⟩ := Prod.mk.inj (Except.ok.inj h)
            exact .list (harray _ _ _ _ hitems)
      · split at h
        · next r hnamed =>
          obtain rfl := Except.ok.inj h
          exact .scalar (ofScalar_of_named? hnamed)
        · exact .scalar (ofScalar_of_number h)
    · unfold array at h
      obtain ⟨⟨v, after⟩, hv, h⟩ := bind_eq_ok.mp h
      dsimp only at h
      split at h
      · obtain ⟨rfl, -⟩ := Prod.mk.inj (Except.ok.inj h)
        exact List.forall_mem_singleton.mpr (hvalue _ _ _ _ hv)
      · obtain ⟨⟨vs, after⟩, hvs, h⟩ := bind_eq_ok.mp h
        obtain ⟨rfl, -⟩ := Prod.mk.inj (Except.ok.inj h)
        exact List.forall_mem_cons.mpr ⟨hvalue _ _ _ _ hv, harray _ _ _ _ hvs⟩
      · cases h
    · unfold object at h
      split at h
      · obtain ⟨⟨name, after⟩, -, h⟩ := bind_eq_ok.mp h
        dsimp only at h
        split at h
        · obtain ⟨⟨v, after⟩, hv, h⟩ := bind_eq_ok.mp h
          have hfirst : (Value.str name).OfScalar ∧ v.OfDocument := ⟨.str name, hvalue _ _ _ _ hv⟩
          dsimp only at h
          split at h
          · obtain ⟨rfl, -⟩ := Prod.mk.inj (Except.ok.inj h)
            exact List.forall_mem_singleton.mpr hfirst
          · obtain ⟨⟨members, after⟩, hmembers, h⟩ := bind_eq_ok.mp h
            obtain ⟨rfl, -⟩ := Prod.mk.inj (Except.ok.inj h)
            exact List.forall_mem_cons.mpr ⟨hfirst, hobject _ _ _ _ hmembers⟩
          · cases h
        · cases h
      · cases h

theorem ofDocument_of_read {cs : List Char} {v : Value} (h : read cs = .ok v) : v.OfDocument := by
  unfold read at h
  split at h
  · cases h
  · obtain ⟨⟨v', after⟩, hv, h⟩ := bind_eq_ok.mp h
    dsimp only at h
    split at h
    · obtain rfl := Except.ok.inj h
      exact (ofDocument_of_value _).1 _ _ _ _ hv
    · cases h

end Json

/-! ### Scalars and shapes -/

namespace Yaml

theorem ofScalar_of_dateOf {t : Text} {v : Value} (h : dateOf t = .ok v) : v.OfScalar := by
  unfold dateOf at h
  dsimp only at h
  split at h
  · cases h
  · split at h
    · split at h
      · obtain rfl := Except.ok.inj h
        exact .date _
      · cases h
    · obtain ⟨offset, -, h⟩ := bind_eq_ok.mp h
      split at h
      · obtain rfl := Except.ok.inj h
        exact .moment _
      · cases h

/-- What is found in an array stands in it. -/
theorem mem_of_getD_eq_some {α : Type} {xs : Array (Option α)} {i : Nat} {a : α}
    (h : xs.getD i none = some a) : some a ∈ xs := by
  rw [Array.getD_eq_getD_getElem?] at h
  rcases hget : xs[i]? with - | found
  · rw [hget] at h
    cases h
  · rw [hget] at h
    obtain rfl : found = some a := h
    exact Array.mem_of_getElem? hget

/-- The atoms of a shape are such as scalars denote. -/
inductive Shape.Keyed : Shape → Prop
  | atom {v} : v.OfScalar → Keyed (.atom v)
  | list (items) : Keyed (.list items)
  | pairs (items) : Keyed (.pairs items)
  | map {entries} : (∀ e ∈ entries, e.1.OfScalar) → Keyed (.map entries)
  | set (members) : Keyed (.set members)

/-- So are those of all shapes that have been found. -/
def Judgement.Keyed (j : Judgement) : Prop := ∀ s, some s ∈ j.shapes → s.Keyed

namespace Judge

/-- The step keeps the atoms of all shapes such as scalars denote. -/
abbrev Retains {α : Type} (x : Judge α) : Prop := Keeps Judgement.Keyed (fun _ => True) x

variable (id : NodeId)

theorem retains_node : Retains (node id) := Keeps.get.bind fun _ _ => .pure trivial

theorem retains_tag : Retains (tag id) := (retains_node id).bind fun _ _ => .pure trivial

theorem retains_start : Retains (start id) := (retains_node id).bind fun _ _ => .pure trivial

theorem retains_entries : Retains (entries id) := by
  refine (retains_node id).bind fun n _ => ?_
  split
  · exact .pure trivial
  · exact .throw _

theorem retains_setEntries (es : List (NodeId × NodeId)) : Retains (setEntries id es) :=
  .modify fun _ h => h

theorem retains_record {s : Shape} (h : s.Keyed) : Retains (record id s) := by
  refine .modify fun j hj s' hmem => ?_
  rcases Array.mem_or_eq_of_mem_setIfInBounds hmem with hmem | heq
  · exact hj s' hmem
  · rw [Option.some.inj heq]
    exact h

theorem retains_textOf (bound : Nat) : Retains (textOf bound id) := by
  induction bound generalizing id with
  | zero => exact .throw _
  | succ bound ih =>
    rw [textOf]
    refine (retains_node id).bind fun n _ => ?_
    split
    · exact .pure trivial
    · exact .throw _
    · have htagged : ∀ e : NodeId × NodeId,
          Retains (do return decide ((← tag e.1) = standardTag "value")) :=
        fun e => (retains_tag e.1).bind fun _ _ => .pure trivial
      refine (Keeps.filterM htagged _).bind fun marked _ => ?_
      split
      · exact ih _
      · exact .throw _

theorem retains_text : Retains (text id) := Keeps.get.bind fun _ _ => retains_textOf id _

theorem keeps_date : Keeps Judgement.Keyed Value.OfScalar (date id) := by
  refine (retains_text id).bind fun _ _ => (retains_node id).bind fun n _ => ?_
  split
  · exact .lift _ fun _ => ofScalar_of_dateOf
  · exact .throw _

theorem retains_withoutMerges (es : List (NodeId × NodeId)) : Retains (withoutMerges es) := by
  induction es with
  | nil => exact .pure trivial
  | cons e es ih =>
    rw [withoutMerges]
    refine (retains_tag e.1).bind fun key _ => ?_
    split
    · exact .pure trivial
    · have hrest : Retains (do return e :: (← withoutMerges es)) :=
        ih.bind fun _ _ => .pure trivial
      dsimp only
      split
      · refine Keeps.bind (Keeps.modify ?_) fun _ _ => hrest
        exact fun _ hj => hj
      · exact hrest

/-- Merging, within a bound on the steps. -/
theorem retains_flattened (bound : Nat) : (∀ id, Retains (takeMerges bound id)) ∧
    (∀ into source, Retains (mergedFrom bound into source)) ∧
    ∀ id, Retains (flattened bound id) := by
  induction bound with
  | zero => exact ⟨fun _ => .throw _, fun _ _ => .throw _, fun _ => .throw _⟩
  | succ bound ih =>
    obtain ⟨htake, hmerged, hflattened⟩ := ih
    refine ⟨fun id => ?_, fun into source => ?_, fun id => ?_⟩
    · rw [takeMerges]
      refine (retains_entries id).bind fun all _ => (retains_withoutMerges all).bind fun before _ => ?_
      split
      · exact .pure trivial
      · exact (retains_setEntries id _).bind fun _ _ => (retains_start id).bind fun _ _ =>
          (hmerged _ _).bind fun _ _ => (htake id).bind fun _ _ => .pure trivial
    · rw [mergedFrom]
      refine (retains_node source).bind fun n _ => ?_
      split
      · exact hflattened source
      · refine (Keeps.mapM (Q := fun _ => True) (fun item => ?_) _).bind fun _ _ => .pure trivial
        refine (retains_node item).bind fun part _ => ?_
        split
        · exact hflattened item
        · exact .throw _
      · exact .throw _
    · rw [flattened]
      refine (htake id).bind fun brought _ => (retains_entries id).bind fun own _ => ?_
      split
      · exact .pure trivial
      · exact (retains_setEntries id _).bind fun _ _ => .pure trivial

theorem keeps_begin {empty : Shape} (h : empty.Keyed) :
    Keeps Judgement.Keyed Shape.Keyed (begin id empty) := by
  refine Keeps.bind (Keeps.modify ?_) fun _ _ => .pure h
  exact fun _ hj => hj

theorem retains_lift {α : Type} (x : Except Failure α) : Retains (liftM x : Judge α) :=
  .lift x fun _ _ => trivial

/-- **Judging a node finds an atom that a scalar denotes, or a collection.** -/
theorem keeps_visit : Keeps Judgement.Keyed Shape.Keyed (visit id) := by
  have hrecord : ∀ s : Shape, s.Keyed →
      Keeps Judgement.Keyed Shape.Keyed (do record id s; return s) :=
    fun s hs => (retains_record id hs).bind fun _ _ => .pure hs
  have hatom : ∀ v : Value, v.OfScalar → Keeps Judgement.Keyed Shape.Keyed
      (do let s ← Pure.pure (Shape.atom v); record id s; return s) :=
    fun v hv => (Keeps.pure (.atom hv)).bind hrecord
  have hstr : Keeps Judgement.Keyed Value.OfScalar (Value.str <$> text id) :=
    (retains_text id).map fun t _ => .str t
  unfold visit
  refine Keeps.get.bind fun j hj => ?_
  split
  · next s hs =>
    exact .pure (hj s (mem_of_getD_eq_some hs))
  · refine (retains_tag id).bind fun t _ => ?_
    dsimp only
    -- one case for each kind of node
    split
    · exact (hstr.map fun _ => .atom).bind hrecord
    · exact (retains_text id).bind fun _ _ => hatom _ .none
    · exact (retains_text id).bind fun _ _ => (retains_lift _).bind fun b _ => hatom _ (.bool b)
    · exact (retains_text id).bind fun _ _ => (retains_lift _).bind fun n _ => hatom _ (.int n)
    · exact (retains_text id).bind fun _ _ => (retains_lift _).bind fun x _ => hatom _ (.float x)
    · exact ((keeps_date id).map fun _ => .atom).bind hrecord
    · exact (retains_start id).bind fun _ _ => (retains_text id).bind fun _ _ =>
        (retains_lift _).bind fun o _ => hatom _ (.bytes o)
    · exact (keeps_begin id (.list [])).bind hrecord
    · exact (keeps_begin id (.pairs [])).bind hrecord
    · exact (keeps_begin id (.map fun e he => absurd he List.not_mem_nil)).bind hrecord
    · exact (keeps_begin id (.set [])).bind hrecord
    · refine (retains_start id).bind fun _ _ => (retains_tag id).bind fun _ _ => ?_
      exact (Keeps.throw _).bind hrecord

/-- The keys of a mapping are atoms. -/
theorem keeps_pairsOf :
    Keeps Judgement.Keyed (fun entries => ∀ e ∈ entries, e.1.OfScalar) (pairsOf id) := by
  unfold pairsOf
  refine Keeps.get.bind fun j _ => ((retains_flattened _).2.2 id).bind fun all _ => ?_
  refine Keeps.mapM (fun e => ?_) all
  refine (keeps_visit e.1).bind fun s hs => ?_
  split
  · cases hs with
    | atom hkey => exact (keeps_visit e.2).bind fun _ _ => .pure hkey
  · exact (retains_start e.1).bind fun _ _ => (retains_start id).bind fun _ _ => .throw _

theorem retains_pairOf (ordered : Bool) (since : Mark) : Retains (pairOf ordered since id) := by
  refine (retains_node id).bind fun n _ => ?_
  split
  · exact (keeps_visit _).bind fun _ _ => (keeps_visit _).bind fun _ _ => .pure trivial
  · exact .throw _
  · exact .throw _

theorem retains_items (otherwise : Node → Failure) : Retains (items id otherwise) := by
  refine (retains_node id).bind fun n _ => ?_
  split
  · exact .pure trivial
  · exact .throw _

theorem retains_pairedItems (ordered : Bool) : Retains (pairedItems ordered id) := by
  refine (retains_start id).bind fun since _ => (retains_items id _).bind fun items _ => ?_
  exact (Keeps.mapM (fun item => retains_pairOf item ordered since) items).mono fun _ _ => trivial

/-- **Filling a collection keeps them.** -/
theorem retains_fill : Retains (fill id) := by
  refine (retains_tag id).bind fun t _ => ?_
  split
  · refine (retains_items id _).bind fun items _ => ?_
    refine (Keeps.forM (fun item => (keeps_visit item).bind fun _ _ => .pure trivial) items).bind
      fun _ _ => retains_record id (.list items)
  · exact (retains_pairedItems id _).bind fun pairs _ => retains_record id (.pairs pairs)
  · refine (keeps_pairsOf id).bind fun entries h => retains_record id (.map fun e he => ?_)
    exact (Value.forall_mem_bindAll (Q := fun _ => True) (fun e he => ⟨h e he, trivial⟩) e he).1
  · exact (keeps_pairsOf id).bind fun entries _ => retains_record id (.set _)
  · exact .pure trivial

theorem retains_fillFrom (bound k : Nat) : Retains (fillFrom bound k) := by
  induction bound generalizing k with
  | zero => exact .pure trivial
  | succ bound ih =>
    rw [fillFrom]
    refine Keeps.get.bind fun j _ => ?_
    split
    · exact (retains_fill _).bind fun _ _ => ih (k + 1)
    · exact .pure trivial

end Judge

/-- Judging begins without shapes, so that the atoms of all are such as scalars denote. -/
theorem keyed_of_shapes {g : Graph} {root : NodeId} {shapes : Array (Option Shape)}
    (h : g.shapes root = .ok shapes) : ∀ s, some s ∈ shapes → s.Keyed := by
  unfold Graph.shapes at h
  obtain ⟨⟨_, j⟩, hrun, hdone⟩ := bind_eq_ok.mp h
  obtain rfl := Except.ok.inj hdone
  have hbegin : ∀ count, Judgement.Keyed ⟨g, Array.replicate g.size none, #[], count⟩ :=
    fun count s hs => nomatch (Array.mem_replicate.mp hs).2
  have hjudge : Judge.Retains (do
      let _ ← Judge.visit root
      Judge.fillFrom (g.size + 1) 0) :=
    (Judge.keeps_visit root).bind fun _ _ => Judge.retains_fillFrom (g.size + 1) 0
  exact (hjudge _ _ _ (hbegin _) hrun).1

/-! ### The value of a document -/

theorem Shape.Keyed.value {s : Shape} (h : s.Keyed) {valueOf : NodeId → Value}
    (hvalueOf : ∀ id, (valueOf id).OfDocument) : (s.value valueOf).OfDocument := by
  cases h with
  | atom hv => exact .scalar hv
  | list items => exact .list (List.forall_mem_map.mpr fun item _ => hvalueOf item)
  | pairs items =>
    refine .list (List.forall_mem_map.mpr fun e _ => .tuple ?_)
    exact List.forall_mem_cons.mpr ⟨hvalueOf e.1, List.forall_mem_singleton.mpr (hvalueOf e.2)⟩
  | map hentries =>
    exact .map (List.forall_mem_map.mpr hentries) (List.forall_mem_map.mpr fun e _ => hvalueOf e.2)
  | set members => exact .set _

namespace Known

variable {shapes : Array (Option Shape)}

/-- The values that are known are such as documents denote. -/
def OfDocument (known : Known) : Prop := ∀ v, some (some v) ∈ known → v.OfDocument

namespace OfDocument

variable {known : Known} (h : known.OfDocument)
include h

theorem set (id : NodeId) {x : Option Value} (hx : ∀ v, x = some v → v.OfDocument) :
    OfDocument (known.setIfInBounds id (some x)) := by
  intro v hmem
  rcases Array.mem_or_eq_of_mem_setIfInBounds hmem with hmem | heq
  · exact h v hmem
  · exact hx v (Option.some.inj heq).symm

theorem of_value? {id : NodeId} {v : Value} (hv : known.value? id = some v) : v.OfDocument := by
  rw [value?, Option.join_eq_some_iff] at hv
  exact h v (mem_of_getD_eq_some hv)

/-- What is not known counts as absent. -/
theorem getD_value? (id : NodeId) : ((known.value? id).getD .none).OfDocument := by
  rcases hv : known.value? id with - | v
  · exact Value.ofDocument_none
  · exact h.of_value? hv

end OfDocument

/-- Finding values keeps them. -/
theorem ofDocument_visit (hshapes : ∀ s, some s ∈ shapes → s.Keyed) (bound : Nat) (id : NodeId)
    {known : Known} (h : known.OfDocument) :
    ((visit shapes bound id).run known).2.OfDocument := by
  induction bound generalizing id known with
  | zero => exact h
  | succ bound ih =>
    have hparts : ∀ (parts : List NodeId) {known : Known}, known.OfDocument →
        ((parts.forM (visit shapes bound)).run known).2.OfDocument := by
      intro parts
      induction parts with
      | nil => exact fun h => h
      | cons part parts ihparts => exact fun h => ihparts (ih part h)
    unfold visit
    simp only [StateT.run_bind, StateT.run_get, pure_bind]
    split
    · -- while the parts of a node are visited, the node itself has no value
      have hopen := h.set id (x := none) (fun v hv => nomatch hv)
      simp only [StateT.run_bind, StateT.run_modify, pure_bind]
      split
      · exact hopen
      · next shape hshape =>
        have hshape := hshapes shape (mem_of_getD_eq_some hshape)
        have hvisited := hparts shape.parts hopen
        simp only [StateT.run_bind, StateT.run_modify]
        show OfDocument (if _ then _ else _)
        split
        · refine hvisited.set id fun v hv => ?_
          rw [← Option.some.inj hv]
          exact hshape.value fun part => hvisited.getD_value? part
        · exact hvisited
    · exact h

theorem ofDocument_approximate (hshapes : ∀ s, some s ∈ shapes → s.Keyed) {known : Known}
    (h : known.OfDocument) (depth : Nat) :
    ∀ v ∈ approximate shapes known depth, v.OfDocument := by
  have happroach : ∀ valueOf : NodeId → Value, (∀ id, (valueOf id).OfDocument) →
      ∀ v ∈ approximate.approach shapes known valueOf, v.OfDocument := by
    intro valueOf hvalueOf v hv
    obtain ⟨id, hid, rfl⟩ := Array.mem_mapIdx.mp hv
    split
    · next v hv => exact h.of_value? hv
    · rcases hshape : shapes[id] with - | shape
      · exact Value.ofDocument_none
      · exact (hshapes shape (hshape ▸ Array.getElem_mem hid)).value hvalueOf
  induction depth with
  | zero => exact happroach _ fun _ => Value.ofDocument_none
  | succ depth ih =>
    refine happroach _ fun part => ?_
    rw [Array.getD_eq_getD_getElem?]
    rcases hget : (approximate shapes known depth)[part]? with - | v
    · exact Value.ofDocument_none
    · exact ih v (Array.mem_of_getElem? hget)

end Known

theorem ofDocument_valueOf {shapes : Array (Option Shape)}
    (hshapes : ∀ s, some s ∈ shapes → s.Keyed) (root : NodeId) :
    (valueOf shapes root).OfDocument := by
  have hbegin : Known.OfDocument (Array.replicate shapes.size none) :=
    fun v hv => nomatch (Array.mem_replicate.mp hv).2
  have hknown := Known.ofDocument_visit hshapes (shapes.size + 1) root hbegin
  rw [valueOf]
  generalize (Known.visit shapes (shapes.size + 1) root).run
    (Array.replicate shapes.size none) = found at hknown
  obtain ⟨_, known⟩ := found
  dsimp only
  split
  · next v hv => exact hknown.of_value? hv
  · rw [Array.getD_eq_getD_getElem?]
    rcases hget : (Known.approximate shapes known shownDepth)[root]? with - | v
    · exact Value.ofDocument_none
    · exact Known.ofDocument_approximate hshapes hknown shownDepth v (Array.mem_of_getElem? hget)

/-- **A document denotes atoms, lists, tuples and mappings with atoms for keys.** -/
theorem ofDocument_of_read {cs : List Char} {v : Value} (h : read cs = .ok v) : v.OfDocument := by
  unfold read at h
  obtain ⟨document, -, h⟩ := bind_eq_ok.mp h
  split at h
  · obtain rfl := Except.ok.inj h
    exact Value.ofDocument_none
  · next root _ =>
    obtain ⟨shapes, hshapes, h⟩ := bind_eq_ok.mp h
    obtain rfl := Except.ok.inj h
    exact ofDocument_valueOf (keyed_of_shapes hshapes) root

end Yaml

end UriExpansion
