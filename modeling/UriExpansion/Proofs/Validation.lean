/-
UriExpansion/Proofs/Validation.lean

Which documents are settings.

The absence of a value and a mapping with the two known keys at most, whose values
fit, describe settings (`Describes`), and reading gives them exactly then
(`ofValue_eq_ok_iff`).  What describes none is refused, but a refusal names the keys
that are unknown: in their order and by their texts.  Keys have an order if they are of
one kind (`Settings.isSome_keyOrder?_iff`), and a text unless they are integers that
are too long.  Where one of these is missing, the refusal ends in a fault
(`Unlistable`).

`ofValue_exact` says so of every value that a YAML document denotes.
-/
import UriExpansion.Proofs.Loading
import UriExpansion.Proofs.DocumentValues

namespace UriExpansion.Settings

/-! ### Settings that a value describes -/

/-- The value of `date_format` gives this pattern. -/
inductive GivesPattern : Option Value → Option Text → Prop
  | absent : GivesPattern none none
  | none : GivesPattern (some .none) none
  | text {t : Text} : (∃ c ∈ t, c.isSpace = false) → GivesPattern (some (.str t)) (some t)

/-- The value of `on_resolution_error` gives this policy. -/
inductive GivesPolicy : Option Value → Policy → Prop
  | absent : GivesPolicy none .abort
  | abort : GivesPolicy (some (.str (lit "abort"))) .abort
  | undefined : GivesPolicy (some (.str (lit "undefined"))) .undefined

/-- The key means nothing. -/
def Unknown (k : Value) : Prop :=
  k ≠ .str (lit "date_format") ∧ k ≠ .str (lit "on_resolution_error")

/-- The value of a document describes settings. -/
inductive Describes : Value → Settings → Prop
  | absent : Describes .none standard
  | mapping {entries s} : (∀ e ∈ entries, ¬ Unknown e.1) →
      GivesPattern (Value.lookup? (.str (lit "date_format")) entries) s.dateFormat →
      GivesPolicy (Value.lookup? (.str (lit "on_resolution_error")) entries) s.onResolutionError →
      Describes (.map entries) s

theorem dateFormatIn_eq_ok_iff {entries : List (Value × Value)} {pattern : Option Text} :
    dateFormatIn entries = .ok pattern ↔
      GivesPattern (Value.lookup? (.str (lit "date_format")) entries) pattern := by
  unfold dateFormatIn
  generalize Value.lookup? (.str (lit "date_format")) entries = value
  constructor
  · intro h
    split at h
    · obtain rfl := Except.ok.inj h
      exact .absent
    · obtain rfl := Except.ok.inj h
      exact .none
    · next t =>
      split at h
      · cases h
      · next hspace =>
        obtain rfl := Except.ok.inj h
        simp only [List.all_eq_true, not_forall, Bool.not_eq_true, exists_prop] at hspace
        exact .text hspace
    · cases h
  · intro h
    cases h with
    | absent => rfl
    | none => rfl
    | @text t hseen =>
      have hspace : ¬ t.all CodePoint.isSpace = true := by
        simp only [List.all_eq_true, not_forall, Bool.not_eq_true, exists_prop]
        exact hseen
      exact if_neg hspace

theorem policyIn_eq_ok_iff {entries : List (Value × Value)} {policy : Policy} :
    policyIn entries = .ok policy ↔
      GivesPolicy (Value.lookup? (.str (lit "on_resolution_error")) entries) policy := by
  unfold policyIn
  generalize Value.lookup? (.str (lit "on_resolution_error")) entries = value
  constructor
  · intro h
    split at h
    · obtain rfl := Except.ok.inj h
      exact .absent
    · split at h
      · next htext =>
        obtain rfl := Except.ok.inj h
        rw [htext]
        exact .abort
      · split at h
        · next htext =>
          obtain rfl := Except.ok.inj h
          rw [htext]
          exact .undefined
        · cases h
    · cases h
  · intro h
    cases h <;> rfl

/-- A bad pattern is refused, and nothing else goes wrong with a pattern. -/
theorem eq_of_dateFormatIn_eq_error {entries : List (Value × Value)} {failure : SettingsFailure}
    (h : dateFormatIn entries = .error failure) : failure = .invalid .badDateFormat := by
  unfold dateFormatIn at h
  split at h
  · cases h
  · cases h
  · split at h
    · exact (Except.error.inj h).symm
    · cases h
  · exact (Except.error.inj h).symm

theorem eq_of_policyIn_eq_error {entries : List (Value × Value)} {failure : SettingsFailure}
    (h : policyIn entries = .error failure) : failure = .invalid .badPolicy := by
  unfold policyIn at h
  split at h
  · cases h
  · split at h
    · cases h
    · split at h
      · cases h
      · exact (Except.error.inj h).symm
  · exact (Except.error.inj h).symm

/-! ### Unknown keys -/

/-- The kinds of keys, the members of each of which have an order. -/
inductive KeyKind
  | number
  | text
  | octets
  | date
  | moment (withOffset : Bool)
  deriving DecidableEq

/-- The kind of a key. -/
def kindOf? : Value → Option KeyKind
  | .bool _ => some .number
  | .int _ => some .number
  | .float _ => some .number
  | .str _ => some .text
  | .bytes _ => some .octets
  | .date _ => some .date
  | .moment m => some (.moment m.offset.isSome)
  | _ => none

/-- The keys are of one kind. -/
def Alike (a b : Value) : Prop := ∃ kind, kindOf? a = some kind ∧ kindOf? b = some kind

/-- **Keys of a document have an order if they are of one kind.** -/
theorem isSome_keyOrder?_iff {a b : Value} (ha : a.OfScalar) (hb : b.OfScalar) :
    (keyOrder? a b).isSome = true ↔ Alike a b := by
  cases ha <;> cases hb <;>
    simp [keyOrder?, atomOrder?, Alike, kindOf?, isCompared, Value.quantity?]
  case moment.moment => exact eq_comm
  -- what is left are numbers, one of them a float, which may be no number
  all_goals split <;> rfl

theorem same_str_iff {k : Value} {t : Text} : k.same (.str t) = true ↔ k = .str t := by
  cases k <;> simp [Value.same, Value.sameAtom, Value.quantity?]

theorem unknown_iff {k : Value} : (!knownKeys.any (k.same ·)) = true ↔ Unknown k := by
  rw [Unknown, ne_eq, ne_eq, ← same_str_iff, ← same_str_iff]
  simp [knownKeys]

/-- The keys of a mapping that mean nothing. -/
def unknownKeys (entries : List (Value × Value)) : List Value :=
  (entries.map Prod.fst).filter fun k => !knownKeys.any (k.same ·)

theorem mem_unknownKeys {entries : List (Value × Value)} {k : Value} :
    k ∈ unknownKeys entries ↔ k ∈ entries.map Prod.fst ∧ Unknown k := by
  rw [unknownKeys, List.mem_filter, unknown_iff]

/-! ### Naming unknown keys -/

/-- Every two of the unknown keys are of one kind. -/
def Sortable (keys : List Value) : Prop :=
  keys.Pairwise fun a b => Unknown a → Unknown b → Alike a b

/-- The unknown among the keys cannot be named in their order, each by its text. -/
inductive Unlistable (keys : List Value) : Fault → Prop
  | unordered : ¬ Sortable keys → Unlistable keys .unorderedKeys
  | tooLong {n : Int} : Sortable keys → .int n ∈ keys → Bindings.TooLong n →
      Unlistable keys .integerTooLong

theorem sortable_iff {entries : List (Value × Value)} :
    Sortable (entries.map Prod.fst) ↔ (unknownKeys entries).Pairwise Alike := by
  rw [unknownKeys, List.pairwise_filter, Sortable]
  simp only [unknown_iff]

theorem Alike.symm {a b : Value} (h : Alike a b) : Alike b a := by
  obtain ⟨kind, ha, hb⟩ := h
  exact ⟨kind, hb, ha⟩

/-- All keys have an order with those at other places if every two are of one kind. -/
theorem ordered_iff {keys : List Value} (hkeys : ∀ k ∈ keys, k.OfScalar) :
    (keys.zipIdx.all fun (a, i) => keys.zipIdx.all fun (b, j) =>
      i = j || (keyOrder? a b).isSome) = true ↔ keys.Pairwise Alike := by
  have hkey : ∀ {k i}, (k, i) ∈ keys.zipIdx → k.OfScalar :=
    fun hk => hkeys _ (List.fst_mem_of_mem_zipIdx hk)
  simp only [List.all_eq_true, Bool.or_eq_true, decide_eq_true_eq, Prod.forall]
  constructor
  · intro h
    refine List.pairwise_iff_getElem.mpr fun i j hi hj hlt => ?_
    have hmem : ∀ {i} (hi : i < keys.length), (keys[i], i) ∈ keys.zipIdx :=
      fun hi => List.mem_zipIdx_iff_getElem?.mpr (List.getElem?_eq_getElem hi)
    have horder := (h _ i (hmem hi) _ j (hmem hj)).resolve_left (Nat.ne_of_lt hlt)
    exact (isSome_keyOrder?_iff (hkey (hmem hi)) (hkey (hmem hj))).mp horder
  · intro h a i ha b j hb
    rw [isSome_keyOrder?_iff (hkey ha) (hkey hb)]
    have hfirst : keys[i]? = some a := List.mem_zipIdx_iff_getElem?.mp ha
    have hsecond : keys[j]? = some b := List.mem_zipIdx_iff_getElem?.mp hb
    obtain ⟨hi, rfl⟩ := List.getElem?_eq_some_iff.mp hfirst
    obtain ⟨hj, rfl⟩ := List.getElem?_eq_some_iff.mp hsecond
    rcases Nat.lt_trichotomy i j with hlt | heq | hgt
    · exact .inr (List.pairwise_iff_getElem.mp h i j hi hj hlt)
    · exact .inl heq
    · exact .inr (List.pairwise_iff_getElem.mp h j i hj hi hgt).symm

/-- Keys of a document are sorted if every two of them are of one kind. -/
theorem sortKeys_cases {keys : List Value} (hkeys : ∀ k ∈ keys, k.OfScalar) :
    (keys.Pairwise Alike ∧ ∃ sorted, sortKeys keys = .ok sorted ∧ sorted.Perm keys) ∨
      (¬ keys.Pairwise Alike ∧ sortKeys keys = .error .unorderedKeys) := by
  -- the scalars of a document denote no decimals
  have hblank : keys.any isBlankDecimal = false := by
    refine List.any_eq_false.mpr fun k hk => ?_
    cases hkeys k hk <;> exact Bool.false_ne_true
  have hordered := ordered_iff hkeys
  unfold sortKeys
  dsimp only
  split
  · next h =>
    rw [Bool.not_eq_true', ← Bool.not_eq_true, hordered] at h
    exact .inr ⟨h, rfl⟩
  · next h =>
    rw [Bool.not_eq_true', Bool.not_eq_false, hordered] at h
    rw [hblank, Bool.and_false, if_neg Bool.false_ne_true]
    exact .inl ⟨h, _, rfl, List.mergeSort_perm _ _⟩

theorem keyNames_eq_mapM (keys : List Value) : keyNames keys = keys.mapM Value.shown := by
  induction keys with
  | nil => rfl
  | cons k keys ih => rw [keyNames, List.mapM_cons, ih]

/-- Keys have texts but for integers that are too long. -/
theorem keyNames_eq_error_iff {keys : List Value} {f : Fault} : keyNames keys = .error f ↔
    f = .integerTooLong ∧ ∃ n, .int n ∈ keys ∧ Bindings.TooLong n := by
  rw [keyNames_eq_mapM]
  have hfault : ∀ {f}, keys.mapM Value.shown = .error f →
      f = .integerTooLong ∧ ∃ n, .int n ∈ keys ∧ Bindings.TooLong n := by
    intro f h
    rw [← error?_eq_some, error?_mapM] at h
    obtain ⟨k, hk, herror⟩ := List.exists_of_findSome?_eq_some h
    obtain ⟨rfl, n, rfl, hlong⟩ := Bindings.shown_eq_error_iff.mp (error?_eq_some.mp herror)
    exact ⟨rfl, n, hk, hlong⟩
  refine ⟨hfault, ?_⟩
  rintro ⟨rfl, n, hmem, hlong⟩
  rcases hnames : keys.mapM Value.shown with f | names
  · rw [(hfault hnames).1]
  · obtain ⟨name, hname⟩ := exists_mapM_eq_ok_iff.mp ⟨names, hnames⟩ _ hmem
    rw [Bindings.shown_eq_error_iff.mpr ⟨rfl, n, rfl, hlong⟩] at hname
    cases hname

/-- Keys are listed by their texts in their order, unless they are of several kinds or
an integer among them is too long. -/
theorem listed_eq_error_iff {keys : List Value} {f : Fault} (hkeys : ∀ k ∈ keys, k.OfScalar) :
    (sortKeys keys >>= keyNames) = .error f ↔
      (f = .unorderedKeys ∧ ¬ keys.Pairwise Alike) ∨
        (f = .integerTooLong ∧ keys.Pairwise Alike ∧ ∃ n, .int n ∈ keys ∧ Bindings.TooLong n) := by
  rcases sortKeys_cases hkeys with ⟨halike, sorted, hsorted, hperm⟩ | ⟨hmixed, hfault⟩
  · rw [hsorted]
    show keyNames sorted = .error f ↔ _
    rw [keyNames_eq_error_iff]
    simp only [hperm.mem_iff, halike, not_true, and_false, false_or, true_and]
  · rw [hfault]
    constructor
    · exact fun h => .inl ⟨(Except.error.inj h).symm, hmixed⟩
    · rintro (⟨rfl, -⟩ | ⟨-, halike, -⟩)
      · rfl
      · exact absurd halike hmixed

/-! ### Reading settings -/

/-- The value is a mapping whose unknown keys cannot be named. -/
def Escapes (v : Value) (f : Fault) : Prop :=
  ∃ entries, v = .map entries ∧ Unlistable (entries.map Prod.fst) f

section
variable {entries : List (Value × Value)} {s : Settings} {f : Fault}

theorem ofValue_of_known (h : unknownKeys entries = []) : ofValue (.map entries) =
    (dateFormatIn entries >>= fun pattern => policyIn entries >>= fun policy =>
      .ok ⟨pattern, policy⟩) := by
  unfold ofValue
  show (if (!(unknownKeys entries).isEmpty) = true then _ else _) = _
  rw [h]
  rfl

theorem ofValue_of_unknown (h : unknownKeys entries ≠ []) : ofValue (.map entries) =
    match sortKeys (unknownKeys entries) >>= keyNames with
    | .ok names => .error (.invalid (.unknownKeys names))
    | .error f => .error (.fault f) := by
  have hsome : (!(unknownKeys entries).isEmpty) = true := by simpa using h
  unfold ofValue
  show (if (!(unknownKeys entries).isEmpty) = true then _ else _) = _
  rw [if_pos hsome]
  show ((sortKeys (unknownKeys entries)).mapError _ >>= _) = _
  rcases sortKeys (unknownKeys entries) with f | keys
  · rfl
  · show ((keyNames keys).mapError _ >>= _) = match keyNames keys with
      | .ok names => _
      | .error f => _
    rcases keyNames keys with f | names <;> rfl

theorem unknownKeys_eq_nil_iff : unknownKeys entries = [] ↔ ∀ e ∈ entries, ¬ Unknown e.1 := by
  rw [List.eq_nil_iff_forall_not_mem]
  simp only [mem_unknownKeys, not_and]
  exact List.forall_mem_map

/-- A mapping without unknown keys gives settings or is refused. -/
theorem ofValue_cases_of_known (h : unknownKeys entries = []) :
    (∃ s, ofValue (.map entries) = .ok s) ∨ ∃ e, ofValue (.map entries) = .error (.invalid e) := by
  rw [ofValue_of_known h]
  rcases hpattern : dateFormatIn entries with failure | pattern
  · obtain rfl := eq_of_dateFormatIn_eq_error hpattern
    exact .inr ⟨_, rfl⟩
  · rcases hpolicy : policyIn entries with failure | policy
    · obtain rfl := eq_of_policyIn_eq_error hpolicy
      exact .inr ⟨_, rfl⟩
    · exact .inl ⟨_, rfl⟩

/-- A mapping with unknown keys gives no settings. -/
theorem ofValue_ne_ok (h : unknownKeys entries ≠ []) : ofValue (.map entries) ≠ .ok s := by
  rw [ofValue_of_unknown h]
  split <;> exact fun h => nomatch h

/-- **Reading gives the settings that a value describes.** -/
theorem ofValue_eq_ok_iff {v : Value} : ofValue v = .ok s ↔ Describes v s := by
  constructor
  · intro h
    cases v with
    | none =>
      obtain rfl := Except.ok.inj h
      exact .absent
    | map entries =>
      by_cases hknown : unknownKeys entries = []
      · rw [ofValue_of_known hknown] at h
        obtain ⟨pattern, hpattern, h⟩ := bind_eq_ok.mp h
        obtain ⟨policy, hpolicy, h⟩ := bind_eq_ok.mp h
        obtain rfl := Except.ok.inj h
        exact .mapping (unknownKeys_eq_nil_iff.mp hknown) (dateFormatIn_eq_ok_iff.mp hpattern)
          (policyIn_eq_ok_iff.mp hpolicy)
      · exact absurd h (ofValue_ne_ok hknown)
    | _ => cases h
  · intro h
    cases h with
    | absent => rfl
    | mapping hknown hpattern hpolicy =>
      rw [ofValue_of_known (unknownKeys_eq_nil_iff.mpr hknown), dateFormatIn_eq_ok_iff.mpr hpattern,
        policyIn_eq_ok_iff.mpr hpolicy]
      rfl

/-- Integers are unknown keys. -/
theorem int_mem_unknownKeys {n : Int} :
    .int n ∈ unknownKeys entries ↔ .int n ∈ entries.map Prod.fst := by
  rw [mem_unknownKeys]
  exact and_iff_left ⟨(nomatch ·), (nomatch ·)⟩

theorem unlistable_iff (hkeys : ∀ e ∈ entries, e.1.OfScalar) :
    Unlistable (entries.map Prod.fst) f ↔
      (sortKeys (unknownKeys entries) >>= keyNames) = .error f := by
  have hscalars : ∀ k ∈ unknownKeys entries, k.OfScalar := fun k hk =>
    List.forall_mem_map.mpr hkeys k (mem_unknownKeys.mp hk).1
  rw [listed_eq_error_iff hscalars, ← sortable_iff]
  simp only [int_mem_unknownKeys]
  constructor
  · intro h
    cases h with
    | unordered hmixed => exact .inl ⟨rfl, hmixed⟩
    | tooLong halike hmem hlong => exact .inr ⟨rfl, halike, _, hmem, hlong⟩
  · rintro (⟨rfl, hmixed⟩ | ⟨rfl, halike, n, hmem, hlong⟩)
    · exact .unordered hmixed
    · exact .tooLong halike hmem hlong

/-- **A value of a document is refused by a fault exactly if its unknown keys cannot be
named.** -/
theorem ofValue_eq_fault_iff {v : Value} (hv : v.Keyed) :
    ofValue v = .error (.fault f) ↔ Escapes v f := by
  by_cases hmap : ∃ entries, v = .map entries
  · obtain ⟨entries, rfl⟩ := hmap
    have hescapes : Escapes (.map entries) f ↔ Unlistable (entries.map Prod.fst) f := by
      constructor
      · rintro ⟨entries', heq, h⟩
        rwa [Value.map.inj heq]
      · exact fun h => ⟨entries, rfl, h⟩
    rw [hescapes, unlistable_iff (hv entries rfl)]
    by_cases hknown : unknownKeys entries = []
    · -- there is nothing to be named
      have hsorted : sortKeys [] = .ok [] := by simp [sortKeys]
      rw [hknown, hsorted]
      refine iff_of_false ?_ fun h => nomatch h
      rcases ofValue_cases_of_known hknown with ⟨s, hs⟩ | ⟨e, he⟩
      · rw [hs]
        exact fun h => nomatch h
      · rw [he]
        exact fun h => nomatch h
    · rw [ofValue_of_unknown hknown]
      rcases sortKeys (unknownKeys entries) >>= keyNames with f' | names
      · show Except.error (SettingsFailure.fault f') = _ ↔ _
        simp
      · exact iff_of_false (fun h => nomatch h) fun h => nomatch h
  · refine iff_of_false (fun h => ?_) fun ⟨entries, heq, _⟩ => hmap ⟨entries, heq⟩
    cases v with
    | map entries => exact hmap ⟨entries, rfl⟩
    | _ => cases h

end

/-! ### Calls of `expand` -/

section
open CommandLine

/-- The file at the path is a document that denotes the value. -/
def Stands (files : Files) (path : Text) (v : Value) : Prop :=
  path ≠ [] ∧ ∃ content cs, files path = .file content ∧ decodeFile content = .ok cs ∧
    Yaml.read cs = .ok v

variable {files : Files} {path : Text} {v : Value} {call : ExpandCall}

theorem load_of_stands (h : Stands files path v) : load files (some path) = ofValue v := by
  obtain ⟨hne, content, cs, hfile, hdecode, hread⟩ := h
  rcases path with - | ⟨c, path⟩
  · exact absurd rfl hne
  · rw [load]
    · rw [hfile]
      dsimp only
      rw [hdecode]
      dsimp only
      rw [hread]
    · exact hne

/-- A call whose settings are refused ends with that error. -/
theorem judge_of_invalid {e : SettingsError} (h : Stands files path v)
    (hconfig : call.configFile = some path) (he : ofValue v = .error (.invalid e)) :
    call.judge files
      = .refused [complaint (lit "E_CONFIG_INVALID") e.message (some path)] 2 := by
  rw [ExpandCall.judge, hconfig, judgeSettings, load_of_stands h, he]
  rfl

/-- Unknown keys that cannot be named end the call. -/
theorem judge_of_escapes {f : Fault} (h : Stands files path v)
    (hconfig : call.configFile = some path) (hf : Escapes v f)
    (hfault : ofValue v = .error (.fault f)) : call.judge files = .uncaught (.fault f) := by
  rw [ExpandCall.judge, hconfig, judgeSettings, load_of_stands h, hfault]
  obtain ⟨entries, -, hunlistable⟩ := hf
  cases hunlistable <;> rfl

/-- **Settings are validated exactly, but for the naming of unknown keys.**  A value
that a document denotes gives the settings that it describes, and them only.  One that
describes none is refused by an error about settings, unless it is a mapping whose
unknown keys are of several kinds, or of one and among them an integer that is too long
to be written; exactly these end in a fault.  A call of `expand` with such a document
answers the error with its line and the exit code 2, and is ended by the fault. -/
theorem ofValue_exact {cs : List Char} {v : Value} (h : Yaml.read cs = .ok v) :
    (∀ s, ofValue v = .ok s ↔ Describes v s) ∧
    ((∃ e, ofValue v = .error (.invalid e)) ↔
      (∀ s, ¬ Describes v s) ∧ ∀ f, ¬ Escapes v f) ∧
    (∀ f, ofValue v = .error (.fault f) ↔ Escapes v f) ∧
    ∀ (files : Files) (path : Text) (call : ExpandCall) (words : List Text),
      Stands files path v → Call.read words = .ok (.expand call) →
      CommandLine.Format.ofName? call.format ≠ none → call.configFile = some path →
      (∀ e, ofValue v = .error (.invalid e) →
        GivesErrors expansion [complaint (lit "E_CONFIG_INVALID") e.message (some path)] 2
          call.reportFormat (run files words)) ∧
      ∀ f, Escapes v f → run files words = .uncaught (.fault f) := by
  have hfault := fun f => ofValue_eq_fault_iff (f := f) (Yaml.ofDocument_of_read h).keyed
  refine ⟨fun s => ofValue_eq_ok_iff, ?_, hfault,
    fun files path call words hstands hread hformat hconfig => ⟨fun e he => ?_, fun f hf => ?_⟩⟩
  · simp only [← ofValue_eq_ok_iff, ← hfault]
    rcases ofValue v with (e | f) | s
    · simp
    · simp
    · simp
  · rw [run_of_read hread, ExpandCall.outcome_of_known hformat, judge_of_invalid hstands hconfig he]
    exact report_refused memberName_expansion (List.pairwise_singleton _ _) 2 call.reportFormat
  · rw [run_of_read hread, ExpandCall.outcome_of_known hformat,
      judge_of_escapes hstands hconfig hf ((hfault f).mpr hf)]
    cases call.reportFormat with
    | text => rfl
    | json => rfl

/-- What is computed from the value of a document, which need not be compared itself. -/
theorem exists_read {α : Type} {cs : List Char} {f : Value → α} {a : α}
    (h : (Yaml.read cs).toOption.map f = some a) : ∃ v, Yaml.read cs = .ok v ∧ f v = a := by
  obtain ⟨v, hv, ha⟩ := Option.map_eq_some_iff.mp h
  exact ⟨v, eq_ok_of_toOption hv, ha⟩

/-- A pattern, and a key that is unknown. -/
theorem ofValue_exact_unknown :
    let files : Files := fun _ => .file "colour: blue\n".toUTF8
    (∃ v, Yaml.read "date_format: '%d'\n".toList = .ok v ∧ Describes v ⟨some (lit "%d"), .abort⟩) ∧
    (∃ v, Yaml.read "colour: blue\n".toList = .ok v ∧ (∀ s, ¬ Describes v s) ∧
      ∀ f, ¬ Escapes v f) ∧
    run files [lit "expand", lit "a", lit "--config", lit "s.yaml"]
      = .printed ⟨2, [], lit "s.yaml: E_CONFIG_INVALID: unknown settings: colour\n"⟩ := by
  intro files
  have hknown : (Yaml.read "date_format: '%d'\n".toList).toOption.map (fun v => (ofValue v).toOption)
      = some (some ⟨some (lit "%d"), .abort⟩) := by decide +kernel
  have hunknown : (Yaml.read "colour: blue\n".toList).toOption.map (fun v => error? (ofValue v))
      = some (some (.invalid (.unknownKeys [lit "colour"]))) := by decide +kernel
  obtain ⟨v, hv, hok⟩ := exists_read hknown
  obtain ⟨w, hw, herror⟩ := exists_read hunknown
  have hdescribes := ((ofValue_exact hv).1 _).mp (eq_ok_of_toOption hok)
  obtain ⟨-, hinvalid, -, hcalls⟩ := ofValue_exact hw
  obtain ⟨hnone, hnamed⟩ := hinvalid.mp ⟨_, error?_eq_some.mp herror⟩
  refine ⟨⟨v, hv, hdescribes⟩, ⟨w, hw, hnone, hnamed⟩, ?_⟩
  let call : ExpandCall := ⟨lit "a", none, [], some (lit "s.yaml"), false, lit "text"⟩
  have hread : Call.read [lit "expand", lit "a", lit "--config", lit "s.yaml"]
      = .ok (.expand call) := eq_ok_of_toOption (by decide +kernel)
  have hstands : Stands files (lit "s.yaml") w :=
    ⟨by decide, _, "colour: blue\n".toList, rfl, eq_ok_of_toOption (by decide +kernel), hw⟩
  have hgives := (hcalls files _ call _ hstands hread (by decide) rfl).1 _ (error?_eq_some.mp herror)
  rw [hgives.eq_console]
  exact congrArg (fun err => Outcome.printed ⟨2, [], err⟩) (by decide +kernel)

/-- A number and a text as keys: neither is known, and they are not named. -/
theorem ofValue_exact_mixed :
    let files : Files := fun _ => .file "1: x\na: y\n".toUTF8
    (∃ v, Yaml.read "1: x\na: y\n".toList = .ok v ∧ (∀ s, ¬ Describes v s) ∧
      ofValue v = .error (.fault .unorderedKeys)) ∧
    run files [lit "expand", lit "a", lit "--config", lit "s.yaml"]
      = .uncaught (.fault .unorderedKeys) := by
  intro files
  have hmixed : (Yaml.read "1: x\na: y\n".toList).toOption.map (fun v => error? (ofValue v))
      = some (some (.fault .unorderedKeys)) := by decide +kernel
  obtain ⟨v, hv, herror⟩ := exists_read hmixed
  have hfault := error?_eq_some.mp herror
  refine ⟨⟨v, hv, fun s hs => ?_, hfault⟩, ?_⟩
  · rw [ofValue_eq_ok_iff.mpr hs] at hfault
    cases hfault
  · let call : ExpandCall := ⟨lit "a", none, [], some (lit "s.yaml"), false, lit "text"⟩
    have hread : Call.read [lit "expand", lit "a", lit "--config", lit "s.yaml"]
        = .ok (.expand call) := eq_ok_of_toOption (by decide +kernel)
    have hstands : Stands files (lit "s.yaml") v :=
      ⟨by decide, _, "1: x\na: y\n".toList, rfl, eq_ok_of_toOption (by decide +kernel), hv⟩
    have hescapes := (ofValue_eq_fault_iff (Yaml.ofDocument_of_read hv).keyed).mp hfault
    rw [run_of_read hread, ExpandCall.outcome_of_known (by decide),
      judge_of_escapes hstands rfl hescapes hfault]
    rfl

end

end UriExpansion.Settings
