/-
UriExpansion/Proofs/Loading.lean

How loading a file of bindings ends.

Loading gives bindings, or an error about the path, or it ends in a fault that
no error stands for.  `Escapes` says when the last is so: the path is too long or
goes through a directory that may not be searched, the content is no UTF-8, the reader
of the format ends in a fault, or a key is an integer that is too long to be a name.
`load_eq_fault_iff` shows that these are all the ways.  What the readers of documents contribute is known from
`Yaml.failsWithin_read` and `Json.failsWithin_read`, so that the faults that can
escape are few; and each of them does escape from some file (`exists_escapes_iff`).

`load_enveloped_iff` puts the outcomes together, and says what a call of `expand`
makes of each of them.
-/
import UriExpansion.Proofs.JsonFaults
import UriExpansion.Proofs.Report
import UriExpansion.Proofs.YamlFaults

namespace UriExpansion.Bindings

variable {files : Files} {path : Text} {f : Fault}

/-! ### Faults that escape -/

/-- The faults in which reading a document of a format can end. -/
def Format.Faults : Format → Fault → Prop
  | .yaml, f => f.OfDocument
  | .json, f => f = .integerTooLong ∨ f = .nestedTooDeep

theorem Format.faults_integerTooLong (format : Format) : format.Faults .integerTooLong := by
  cases format with
  | yaml => exact .integer
  | json => exact .inl rfl

theorem Format.Faults.ofDocument {format : Format} (h : format.Faults f) : f.OfDocument := by
  cases format with
  | yaml => exact h
  | json =>
    rcases h with rfl | rfl
    · exact .integer
    · exact .nested

/-- The integer is too long to be written. -/
def TooLong (n : Int) : Prop := Nat.pow 10 maxDigits ≤ n.natAbs

/-- The characters of the file at the path, whose suffix stands for the format. -/
structure Reads (files : Files) (path : Text) (format : Format) (cs : List Char) : Prop where
  suffix : Format.ofSuffix? (Path.suffix path) = some format
  file : ∃ content, files path = .file content ∧ decodeFile content = .ok cs

/-- Loading the file at the path ends in a fault: the ways in which it can. -/
inductive Escapes (files : Files) (path : Text) : Fault → Prop
  | tooLong : files path = .tooLong → Escapes files path .pathTooLong
  | forbidden : files path = .unsearchable → Escapes files path .forbidden
  | notUtf8 {format content} : Format.ofSuffix? (Path.suffix path) = some format →
      files path = .file content → String.fromUTF8? content = none → Escapes files path .notUtf8
  | document {format cs f} : Reads files path format cs → format.read cs = .error (.inr f) →
      Escapes files path f
  | key {format cs entries n v} : Reads files path format cs →
      format.read cs = .ok (.map entries) → (.int n, v) ∈ entries → TooLong n →
      Escapes files path .integerTooLong

/-! ### The content of a file -/

theorem Format.faults_of_read {format : Format} {cs : List Char}
    (h : format.read cs = .error (.inr f)) : format.Faults f := by
  cases format with
  | yaml =>
    unfold Format.read at h
    dsimp only at h
    split at h
    · cases h
    · cases h
    · next f' hread =>
      obtain rfl := Sum.inr.inj (Except.error.inj h)
      exact Yaml.failsWithin_read cs _ hread
  | json =>
    unfold Format.read at h
    dsimp only at h
    split at h
    · cases h
    · cases h
    · next f' hread =>
      obtain rfl := Sum.inr.inj (Except.error.inj h)
      exact Json.failsWithin_read cs _ hread

/-- A value other than an integer that is too long has a text. -/
theorem shown_eq_error_iff {v : Value} :
    v.shown = .error f ↔ f = .integerTooLong ∧ ∃ n, v = .int n ∧ TooLong n := by
  constructor
  · intro h
    cases v with
    | int n =>
      have hlong : integerText n = .error f := h
      unfold integerText at hlong
      split at hlong
      · next hle => exact ⟨(Except.error.inj hlong).symm, n, rfl, hle⟩
      · cases hlong
    | _ => cases h
  · rintro ⟨rfl, n, rfl, hlong⟩
    rw [Value.shown, integerText]
    exact if_pos hlong

/-- The names of keys fail as the first of them that is an integer which is too
long. -/
theorem named_eq_error_iff {entries : List (Value × Value)} :
    named entries = .error f ↔
      f = .integerTooLong ∧ ∃ n v, (.int n, v) ∈ entries ∧ TooLong n := by
  induction entries with
  | nil =>
    constructor
    · exact fun h => nomatch h
    · rintro ⟨-, n, v, hmem, -⟩
      exact absurd hmem List.not_mem_nil
  | cons e entries ih =>
    obtain ⟨k, w⟩ := e
    rw [named, bind_eq_error, shown_eq_error_iff]
    constructor
    · rintro (⟨rfl, n, rfl, hlong⟩ | ⟨name, -, h⟩)
      · exact ⟨rfl, n, w, List.mem_cons_self, hlong⟩
      · rcases bind_eq_error.mp h with hrest | ⟨_, -, hdone⟩
        · obtain ⟨rfl, n, v, hmem, hlong⟩ := ih.mp hrest
          exact ⟨rfl, n, v, List.mem_cons_of_mem _ hmem, hlong⟩
        · cases hdone
    · rintro ⟨rfl, n, v, hmem, hlong⟩
      -- the first key may have a text, and then a later one has none
      rcases hk : k.shown with f' | name
      · obtain ⟨rfl, n', rfl, hlong'⟩ := shown_eq_error_iff.mp hk
        exact .inl ⟨rfl, n', rfl, hlong'⟩
      · refine .inr ⟨name, rfl, bind_eq_error.mpr (.inl (ih.mpr ⟨rfl, n, v, ?_, hlong⟩))⟩
        rcases List.mem_cons.mp hmem with heq | hmem
        · obtain ⟨rfl, -⟩ := Prod.mk.inj heq
          rw [shown_eq_error_iff.mpr ⟨rfl, n, rfl, hlong⟩] at hk
          cases hk
        · exact hmem

theorem ofDocument_eq_fault_iff {document : Value} :
    ofDocument document = .error (.inr f) ↔
      f = .integerTooLong ∧
        ∃ entries n v, document = .map entries ∧ (.int n, v) ∈ entries ∧ TooLong n := by
  constructor
  · intro h
    unfold ofDocument at h
    split at h
    · cases h
    · next entries =>
      split at h
      · cases h
      · next f' hnamed =>
        obtain rfl := Sum.inr.inj (Except.error.inj h)
        obtain ⟨hf, n, v, hmem, hlong⟩ := named_eq_error_iff.mp hnamed
        exact ⟨hf, entries, n, v, rfl, hmem, hlong⟩
    · cases h
  · rintro ⟨rfl, entries, n, v, rfl, hmem, hlong⟩
    have hnamed : named entries = .error .integerTooLong :=
      named_eq_error_iff.mpr ⟨rfl, n, v, hmem, hlong⟩
    rw [ofDocument, hnamed]

/-- The names of bindings are distinct. -/
theorem nodup_of_ofDocument {document : Value} {bindings : Entries Text Value}
    (h : ofDocument document = .ok bindings) : (Entries.keys bindings).Nodup := by
  unfold ofDocument at h
  split at h
  · obtain rfl := Except.ok.inj h
    exact List.nodup_nil
  · split at h
    · obtain rfl := Except.ok.inj h
      exact Entries.nodup_keys_ofList _
    · cases h
  · cases h

theorem decodeFile_eq_error_iff {content : ByteArray} :
    decodeFile content = .error f ↔ f = .notUtf8 ∧ String.fromUTF8? content = none := by
  unfold decodeFile
  rcases String.fromUTF8? content with - | s
  · exact ⟨fun h => ⟨(Except.error.inj h).symm, rfl⟩, fun h => congrArg Except.error h.1.symm⟩
  · exact ⟨(nomatch ·), fun h => nomatch h.2⟩

/-- Octets are decoded, the characters read, and the document taken for bindings;
each of these can end in a fault. -/
theorem ofContent_eq_fault_iff {format : Format} {content : ByteArray} :
    ofContent format content = .error (.inr f) ↔
      decodeFile content = .error f ∨ ∃ cs, decodeFile content = .ok cs ∧
        (format.read cs = .error (.inr f) ∨
          ∃ document, format.read cs = .ok document ∧ ofDocument document = .error (.inr f)) := by
  unfold ofContent
  split
  · next f' hdecode => simp [hdecode]
  · next cs hdecode =>
    rw [bind_eq_error]
    simp [hdecode]

theorem nodup_of_ofContent {format : Format} {content : ByteArray} {bindings : Entries Text Value}
    (h : ofContent format content = .ok bindings) : (Entries.keys bindings).Nodup := by
  unfold ofContent at h
  split at h
  · cases h
  · obtain ⟨document, -, hdocument⟩ := bind_eq_ok.mp h
    exact nodup_of_ofDocument hdocument

/-! ### Loading -/

/-- The path is refused so, whatever its file contains. -/
inductive Unreached (path : Text) : LoadFault → Prop
  | missing : Unreached path .missing
  | unsupported : Unreached path (.unsupported (Path.suffix path))
  | forbidden : Unreached path (.forbidden (Text.quoted (Path.normal path)))
  | directory : Unreached path (.directory (Text.quoted (Path.normal path)))

/-- How what is wrong with the content of a file ends its loading. -/
def failureAt (path : Text) : LoadFault ⊕ Fault → LoadFailure
  | .inl fault => .load ⟨fault, path⟩
  | .inr f => .fault f

section
variable {format : Format} {content : ByteArray} {bindings : Entries Text Value} {e : LoadError}

/-- Of a file in a known format there are the bindings in its content. -/
theorem load_of_file (hsuffix : Format.ofSuffix? (Path.suffix path) = some format)
    (hfile : files path = .file content) :
    load files path = (ofContent format content).mapError (failureAt path) := by
  unfold load
  rw [hsuffix, hfile]
  dsimp only
  rcases ofContent format content with (fault | f) | bindings <;> rfl

/-- **What loading comes to.**  The path is refused or cannot be followed, or there is a
file in a known format. -/
theorem load_cases (files : Files) (path : Text) :
    (∃ fault, Unreached path fault ∧ load files path = .error (.load ⟨fault, path⟩)) ∨
      (files path = .tooLong ∧ load files path = .error (.fault .pathTooLong)) ∨
      (files path = .unsearchable ∧ load files path = .error (.fault .forbidden)) ∨
      ∃ format content, Format.ofSuffix? (Path.suffix path) = some format ∧
        files path = .file content := by
  unfold load
  dsimp only
  split
  · exact .inl ⟨_, .missing, rfl⟩
  · exact .inl ⟨_, .missing, rfl⟩
  · exact .inl ⟨_, .missing, rfl⟩
  · exact .inl ⟨_, .missing, rfl⟩
  · next hpath => exact .inr (.inl ⟨hpath, rfl⟩)
  · next hpath => exact .inr (.inr (.inl ⟨hpath, rfl⟩))
  · split
    · exact .inl ⟨_, .unsupported, rfl⟩
    · exact .inl ⟨_, .forbidden, rfl⟩
  · split
    · exact .inl ⟨_, .unsupported, rfl⟩
    · exact .inl ⟨_, .directory, rfl⟩
  · next content hfile =>
    split
    · exact .inl ⟨_, .unsupported, rfl⟩
    · next format hsuffix => exact .inr (.inr (.inr ⟨format, content, hsuffix, hfile⟩))

theorem exists_of_load_eq_ok (h : load files path = .ok bindings) :
    ∃ format content, ofContent format content = .ok bindings := by
  rcases load_cases files path with
    ⟨fault, -, hload⟩ | ⟨-, hload⟩ | ⟨-, hload⟩ | ⟨format, content, hsuffix, hfile⟩
  · rw [h] at hload
    cases hload
  · rw [h] at hload
    cases hload
  · rw [h] at hload
    cases hload
  · rw [load_of_file hsuffix hfile] at h
    exact ⟨format, content, mapError_eq_ok.mp h⟩

theorem refused_of_load_eq_error (h : load files path = .error (.load e)) : e.file = path ∧
    (Unreached path e.fault ∨ ∃ format content, ofContent format content = .error (.inl e.fault)) := by
  rcases load_cases files path with
    ⟨fault, hunreached, hload⟩ | ⟨-, hload⟩ | ⟨-, hload⟩ | ⟨format, content, hsuffix, hfile⟩
  · rw [h] at hload
    obtain rfl := LoadFailure.load.inj (Except.error.inj hload)
    exact ⟨rfl, .inl hunreached⟩
  · rw [h] at hload
    cases hload
  · rw [h] at hload
    cases hload
  · rw [load_of_file hsuffix hfile] at h
    rcases hcontent : ofContent format content with (fault | f) | bindings
    · rw [hcontent] at h
      obtain rfl := LoadFailure.load.inj (Except.error.inj h)
      exact ⟨rfl, .inr ⟨format, content, hcontent⟩⟩
    · rw [hcontent] at h
      cases h
    · rw [hcontent] at h
      cases h

/-- Where a file stands in a known format, the faults are those of its content. -/
theorem load_eq_fault_of_file (hsuffix : Format.ofSuffix? (Path.suffix path) = some format)
    (hfile : files path = .file content) :
    load files path = .error (.fault f) ↔ ofContent format content = .error (.inr f) := by
  rw [load_of_file hsuffix hfile]
  rcases ofContent format content with (fault | f') | bindings <;>
    simp [Except.mapError, failureAt]

end

/-- What escapes are faults of the path, of the encoding, of the reader and of the
keys. -/
theorem load_eq_fault_iff : load files path = .error (.fault f) ↔ Escapes files path f := by
  constructor
  · intro h
    rcases load_cases files path with
      ⟨fault, -, hload⟩ | ⟨hpath, hload⟩ | ⟨hpath, hload⟩ | ⟨format, content, hsuffix, hfile⟩
    · rw [h] at hload
      cases hload
    · rw [h] at hload
      obtain rfl := LoadFailure.fault.inj (Except.error.inj hload)
      exact .tooLong hpath
    · rw [h] at hload
      obtain rfl := LoadFailure.fault.inj (Except.error.inj hload)
      exact .forbidden hpath
    · rw [load_eq_fault_of_file hsuffix hfile, ofContent_eq_fault_iff] at h
      rcases h with hdecode | ⟨cs, hdecode, hread | ⟨document, hread, hdocument⟩⟩
      · obtain ⟨rfl, hnone⟩ := decodeFile_eq_error_iff.mp hdecode
        exact .notUtf8 hsuffix hfile hnone
      · exact .document ⟨hsuffix, content, hfile, hdecode⟩ hread
      · obtain ⟨rfl, entries, n, v, rfl, hmem, hlong⟩ := ofDocument_eq_fault_iff.mp hdocument
        exact .key ⟨hsuffix, content, hfile, hdecode⟩ hread hmem hlong
  · intro h
    cases h with
    | tooLong hpath => rw [load, hpath]
    | forbidden hpath => rw [load, hpath]
    | notUtf8 hsuffix hfile hnone =>
      rw [load_eq_fault_of_file hsuffix hfile, ofContent_eq_fault_iff]
      exact .inl (decodeFile_eq_error_iff.mpr ⟨rfl, hnone⟩)
    | @document format cs _ hreads hread =>
      obtain ⟨hsuffix, content, hfile, hdecode⟩ := hreads
      rw [load_eq_fault_of_file hsuffix hfile, ofContent_eq_fault_iff]
      exact .inr ⟨cs, hdecode, .inl hread⟩
    | @key format cs entries n v hreads hread hmem hlong =>
      obtain ⟨hsuffix, content, hfile, hdecode⟩ := hreads
      rw [load_eq_fault_of_file hsuffix hfile, ofContent_eq_fault_iff]
      refine .inr ⟨cs, hdecode, .inr ⟨.map entries, hread, ?_⟩⟩
      exact ofDocument_eq_fault_iff.mpr ⟨rfl, entries, n, v, rfl, hmem, hlong⟩

/-- The faults that escape are few. -/
theorem Escapes.cases (h : Escapes files path f) :
    f = .pathTooLong ∨ f = .forbidden ∨ f = .notUtf8 ∨
      ∃ format, Format.ofSuffix? (Path.suffix path) = some format ∧ format.Faults f := by
  cases h with
  | tooLong _ => exact .inl rfl
  | forbidden _ => exact .inr (.inl rfl)
  | notUtf8 _ _ _ => exact .inr (.inr (.inl rfl))
  | document hreads hread =>
    exact .inr (.inr (.inr ⟨_, hreads.suffix, Format.faults_of_read hread⟩))
  | key hreads _ _ _ =>
    exact .inr (.inr (.inr ⟨_, hreads.suffix, Format.faults_integerTooLong _⟩))

/-! ### Documents that end in a fault -/

/-- The document stands at every path. -/
def standing (document : String) : Files := fun _ => .file document.toUTF8

theorem fromUTF8?_toUTF8 (s : String) : String.fromUTF8? s.toUTF8 = some s := by
  rw [String.fromUTF8?, String.toUTF8_eq_toByteArray, dif_pos s.isValidUTF8]
  rfl

/-- Characters that are no line ends stay as they are. -/
theorem unifyLines_of_not_mem {cs : List Char} (h : '\r' ∉ cs) : unifyLines cs = cs := by
  induction cs with
  | nil => rfl
  | cons c cs ih =>
    obtain ⟨hc, hcs⟩ := not_or.mp (mt List.mem_cons.mpr h)
    rw [unifyLines, ih hcs]
    · exact fun rest heq _ => hc heq.symm
    · exact fun heq => hc heq.symm

/-- A document of characters that are no line ends is read as it is. -/
theorem reads_standing {format : Format} {cs : List Char} (h : '\r' ∉ cs)
    (hsuffix : Format.ofSuffix? (Path.suffix path) = some format) :
    Reads (standing (String.ofList cs)) path format cs := by
  refine ⟨hsuffix, (String.ofList cs).toUTF8, rfl, ?_⟩
  rw [decodeFile, fromUTF8?_toUTF8]
  show Except.ok (unifyLines (String.ofList cs).toList) = _
  rw [String.toList_ofList, unifyLines_of_not_mem h]

theorem escapes_of_standing (document : String)
    (h : error? (load (standing document) (lit "v.yaml")) = some (.fault f)) :
    ∃ files path, Escapes files path f :=
  ⟨standing document, lit "v.yaml", load_eq_fault_iff.mp (error?_eq_some.mp h)⟩

/-- A document of one more digit than may be read. -/
theorem escapes_ones : Escapes (standing (String.ofList ('1' :: List.replicate maxDigits '1')))
    (lit "v.json") .integerTooLong := by
  have hreads : Reads (standing (String.ofList ('1' :: List.replicate maxDigits '1')))
      (lit "v.json") .json ('1' :: List.replicate maxDigits '1') := by
    refine reads_standing (fun hmem => ?_) (by decide)
    rw [← List.replicate_succ] at hmem
    exact absurd (List.eq_of_mem_replicate hmem) (by decide)
  refine .document hreads ?_
  rw [Format.read, Json.read_ones (Nat.le_refl maxDigits)]

/-- **The faults that can escape.**  They are those of a path that cannot be followed,
of a content that is no UTF-8, and all the faults of documents. -/
theorem exists_escapes_iff : (∃ files path, Escapes files path f) ↔
    f = .pathTooLong ∨ f = .forbidden ∨ f = .notUtf8 ∨ f.OfDocument := by
  constructor
  · rintro ⟨files, path, h⟩
    rcases h.cases with hf | hf | hf | ⟨format, -, hf⟩
    · exact .inl hf
    · exact .inr (.inl hf)
    · exact .inr (.inr (.inl hf))
    · exact .inr (.inr (.inr hf.ofDocument))
  · rintro (rfl | rfl | rfl | hdocument)
    · exact ⟨fun _ => .tooLong, [], .tooLong rfl⟩
    · exact ⟨fun _ => .unsearchable, [], .forbidden rfl⟩
    · exact ⟨fun _ => .file ⟨#[0xff]⟩, lit "v.json", .notUtf8 rfl rfl (by decide +kernel)⟩
    · cases hdocument with
      | integer => exact ⟨_, lit "v.json", escapes_ones⟩
      | number => exact escapes_of_standing "a: \"\\UFFFFFFFF\"" (by decide +kernel)
      | nested => exact escapes_of_standing "a: !!str &a \x7b=: *a\x7d" (by decide +kernel)
      | notScalar => exact escapes_of_standing "a: !!timestamp \x7b=: x\x7d" (by decide +kernel)
      | badScalar => exact escapes_of_standing "a: 2024-13-45" (by decide +kernel)
      | spelling => exact escapes_of_standing "a: !!bool x" (by decide +kernel)
      | empty => exact escapes_of_standing "a: !!int \"\"" (by decide +kernel)
      | missing => exact escapes_of_standing "a: !!timestamp x" (by decide +kernel)

/-! ### Calls of `expand` -/

section
open CommandLine

theorem loaded_eq_load {call : ExpandCall} (hfile : call.varsFile = some path) (hne : path ≠ []) :
    call.loaded files = load files path := by
  rw [ExpandCall.loaded, hfile]
  rcases path with - | ⟨c, path⟩
  · exact absurd rfl hne
  · rfl

/-- **Loading fails through its errors, except where a fault escapes.**  There it
gives neither bindings nor an error, and everywhere else it gives bindings with
distinct names or an error about the path.  The faults are those of a path that cannot
be followed, of a content that is no UTF-8, and of reading a document of the format.  A call of
`expand` that comes to load the file answers an error with its line and the exit code 1,
and is ended by a fault. -/
theorem load_enveloped_iff (files : Files) (path : Text) :
    (((∃ bindings, load files path = .ok bindings ∧ (Entries.keys bindings).Nodup) ∨
        ∃ e, load files path = .error (.load e) ∧ e.file = path) ↔
      ∀ f, ¬ Escapes files path f) ∧
    (∀ f, Escapes files path f → f = .pathTooLong ∨ f = .forbidden ∨ f = .notUtf8 ∨
      ∃ format, Format.ofSuffix? (Path.suffix path) = some format ∧ format.Faults f) ∧
    ∀ (call : ExpandCall) (words : List Text) (s : Settings),
      Call.read words = .ok (.expand call) → CommandLine.Format.ofName? call.format ≠ none →
      Settings.load files call.configFile = .ok s → call.varsFile = some path → path ≠ [] →
      (∀ e, load files path = .error (.load e) →
        GivesErrors expansion [e.diagnostic] 1 call.reportFormat (run files words)) ∧
      ∀ f, Escapes files path f → run files words = .uncaught (.fault f) := by
  refine ⟨⟨?_, ?_⟩, fun f => Escapes.cases, fun call words s hread hformat hs hvars hne => ?_⟩
  · intro h f hescapes
    have hfault := load_eq_fault_iff.mpr hescapes
    rcases h with ⟨bindings, hload, -⟩ | ⟨e, hload, -⟩
    · rw [hfault] at hload
      cases hload
    · rw [hfault] at hload
      cases hload
  · intro h
    rcases hload : load files path with (e | f) | bindings
    · exact .inr ⟨e, rfl, (refused_of_load_eq_error hload).1⟩
    · exact absurd (load_eq_fault_iff.mp hload) (h f)
    · obtain ⟨format, content, hcontent⟩ := exists_of_load_eq_ok hload
      exact .inl ⟨bindings, rfl, nodup_of_ofContent hcontent⟩
  · rw [run_of_read hread]
    constructor
    · intro e hload
      rw [← loaded_eq_load hvars hne] at hload
      have hfirst := ExpandCall.firstFailure_of_refused hformat hs hload
      exact hfirst.gives (ExpandCall.loadable_of_refused hs hload)
    · intro f hescapes
      have hload := load_eq_fault_iff.mpr hescapes
      rw [← loaded_eq_load hvars hne] at hload
      rw [ExpandCall.outcome_of_known hformat, ExpandCall.judge_of_fault hs hload]
      cases call.reportFormat with
      | text => rfl
      | json => rfl

/-- A file that is missing, and one whose document is no mapping. -/
theorem load_enveloped_missing :
    let files : Files := fun path => if path = lit "v.json" then .file "[1]".toUTF8 else .missing
    run files [lit "expand", lit "\x7bx\x7d", lit "--vars", lit "v.yaml"]
        = .printed ⟨1, [], lit "v.yaml: E_FILE_NOT_FOUND: file does not exist\n"⟩ ∧
      (∀ f, ¬ Escapes files (lit "v.json") f) ∧
      run files [lit "expand", lit "\x7bx\x7d", lit "--vars", lit "v.json"]
        = .printed ⟨1, [], lit "v.json: E_INVALID_TOP_LEVEL: expected an object of " ++
            lit "name: value bindings, got list\n"⟩ := by
  intro files
  let missing : ExpandCall := ⟨lit "\x7bx\x7d", some (lit "v.yaml"), [], none, false, lit "text"⟩
  let refused : ExpandCall := ⟨lit "\x7bx\x7d", some (lit "v.json"), [], none, false, lit "text"⟩
  have hread : Call.read [lit "expand", lit "\x7bx\x7d", lit "--vars", lit "v.yaml"]
      = .ok (.expand missing) := eq_ok_of_toOption (by decide +kernel)
  have hread' : Call.read [lit "expand", lit "\x7bx\x7d", lit "--vars", lit "v.json"]
      = .ok (.expand refused) := eq_ok_of_toOption (by decide +kernel)
  have hload : load files (lit "v.yaml") = .error (.load ⟨.missing, lit "v.yaml"⟩) := rfl
  have hload' : load files (lit "v.json")
      = .error (.load ⟨.notMapping (lit "list"), lit "v.json"⟩) :=
    error?_eq_some.mp (by decide +kernel)
  obtain ⟨-, -, hcalls⟩ := load_enveloped_iff files (lit "v.yaml")
  obtain ⟨⟨henveloped, -⟩, -, hcalls'⟩ := load_enveloped_iff files (lit "v.json")
  have hgives := hcalls missing _ .standard hread (by decide) rfl rfl (by decide)
  have hgives' := hcalls' refused _ .standard hread' (by decide) rfl rfl (by decide)
  refine ⟨?_, henveloped (.inr ⟨_, hload', rfl⟩), ?_⟩
  · rw [(hgives.1 _ hload).eq_console]
    exact congrArg (fun err => Outcome.printed ⟨1, [], err⟩) (by decide +kernel)
  · rw [(hgives'.1 _ hload').eq_console]
    exact congrArg (fun err => Outcome.printed ⟨1, [], err⟩) (by decide +kernel)

/-- A date that no calendar has is read from a file, and octets that are no UTF-8. -/
theorem load_escaped_date :
    let files : Files := fun path =>
      if path = lit "v.yaml" then .file "a: 2024-13-45\n".toUTF8 else .file ⟨#[0xff]⟩
    ¬ ((∃ bindings, load files (lit "v.yaml") = .ok bindings) ∨
        ∃ e, load files (lit "v.yaml") = .error (.load e) ∧ e.file = lit "v.yaml") ∧
      load files (lit "v.yaml") = .error (.fault .badScalar) ∧
      load files (lit "w.json") = .error (.fault .notUtf8) ∧
      run files [lit "expand", lit "\x7ba\x7d", lit "--vars", lit "v.yaml"]
        = .uncaught (.fault .badScalar) := by
  intro files
  let call : ExpandCall := ⟨lit "\x7ba\x7d", some (lit "v.yaml"), [], none, false, lit "text"⟩
  have hread : Call.read [lit "expand", lit "\x7ba\x7d", lit "--vars", lit "v.yaml"]
      = .ok (.expand call) := eq_ok_of_toOption (by decide +kernel)
  have hdate : load files (lit "v.yaml") = .error (.fault .badScalar) :=
    error?_eq_some.mp (by decide +kernel)
  have hoctets : load files (lit "w.json") = .error (.fault .notUtf8) :=
    error?_eq_some.mp (by decide +kernel)
  refine ⟨?_, hdate, hoctets, ?_⟩
  · rintro (⟨bindings, h⟩ | ⟨e, h, -⟩)
    · rw [hdate] at h
      cases h
    · rw [hdate] at h
      cases h
  · have hsettings : Settings.load files call.configFile = .ok .standard := rfl
    have hloaded : call.loaded files = load files (lit "v.yaml") :=
      loaded_eq_load rfl (by decide)
    rw [hdate] at hloaded
    rw [run_of_read hread, ExpandCall.outcome_of_known (by decide),
      ExpandCall.judge_of_fault hsettings hloaded]
    rfl

end

end UriExpansion.Bindings
