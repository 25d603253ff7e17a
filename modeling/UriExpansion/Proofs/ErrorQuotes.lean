/-
UriExpansion/Proofs/ErrorQuotes.lean

What errors quote.

Line feeds come into the rendering of an error with what is quoted there: a path, a name,
a piece of a template, or a line of a document.  For each kind of error `quoted` is the
part of its wording that is not fixed.  The error about an expression quotes a variable or
a name as it stands in the expression (`Expression.quoted_infix_of_readBody`).  An error
about a YAML document tells a place by the line of the document, and so takes up several
lines whatever is wrong (`Yaml.Problem.lineFeed_mem_render`); one about a JSON document
tells line and column.  Hence a file of bindings is refused on one line unless a line feed
is in its path or it is no YAML (`Bindings.lineFeed_mem_render_of_load`).
-/
import UriExpansion.Proofs.DocumentValues
import UriExpansion.Proofs.Entries
import UriExpansion.Proofs.Lines
import UriExpansion.Proofs.Refusal
import UriExpansion.Proofs.Validation

namespace UriExpansion

open CodePoint (lineFeed)

/-! ### Renderings -/

/-- Line feeds come into a rendering with the path of a file, the code or the wording. -/
theorem Diagnostic.lineFeed_mem_render_iff (d : Diagnostic) : lineFeed ∈ d.render ↔
    lineFeed ∈ d.file.getD [] ∨ lineFeed ∈ d.code ∨ lineFeed ∈ d.message := by
  obtain ⟨kind, code, message, expression, position, file⟩ := d
  have hmark : lineFeed ∉ lit ": " := by decide
  have hcolon : lineFeed ∉ lit ":" := by decide
  have hunplaced : lineFeed ∉ lit "<template>" := by decide
  have hoffset := Text.lineFeed_not_mem_ofInt
  rcases file with - | (- | ⟨c, path⟩) <;> rcases position with - | n <;>
    simp [render, hmark, hcolon, hunplaced, hoffset, or_assoc]

/-! ### Templates -/

namespace ExpressionFault

/-- The piece of an expression that the wording of a fault quotes. -/
def quoted : ExpressionFault → Text
  | empty => []
  | reservedOperator symbol => [symbol]
  | noVariables => []
  | emptyVariable => []
  | bothModifiers spec => spec
  | badLength spec => spec
  | brokenTriplet name => name
  | badName name => name
  | duplicateName name => name

theorem lineFeed_mem_message_iff (fault : ExpressionFault) :
    lineFeed ∈ fault.message ↔ lineFeed ∈ fault.quoted := by
  cases fault with
  | empty => decide
  | noVariables => decide
  | emptyVariable => decide
  | badLength spec =>
    rw [message, List.append_assoc _ _ (Text.ofNat _)]
    exact Text.lineFeed_mem_between_iff (by decide) (by decide) spec
  | reservedOperator symbol => exact Text.lineFeed_mem_between_iff (by decide) (by decide) [symbol]
  | bothModifiers spec => exact Text.lineFeed_mem_between_iff (by decide) (by decide) spec
  | brokenTriplet name => exact Text.lineFeed_mem_between_iff (by decide) (by decide) name
  | badName name => exact Text.lineFeed_mem_between_iff (by decide) (by decide) name
  | duplicateName name => exact Text.lineFeed_mem_between_iff (by decide) (by decide) name

end ExpressionFault

namespace ParseError

/-- The piece of a template that the wording of an error quotes. -/
def quoted : ParseError → Text
  | malformed .. => []
  | expression fault _ _ => fault.quoted

theorem lineFeed_mem_render_iff (e : ParseError) :
    lineFeed ∈ e.diagnostic.render ↔ lineFeed ∈ e.quoted := by
  rw [Diagnostic.lineFeed_mem_render_iff]
  cases e with
  | malformed fault excerpt position =>
    show lineFeed ∈ ([] : Text) ∨ lineFeed ∈ fault.code ∨ lineFeed ∈ fault.message ↔
      lineFeed ∈ ([] : Text)
    cases fault <;> decide
  | expression fault body position =>
    have hcode : lineFeed ∉ fault.code := by cases fault <;> exact of_decide_eq_true rfl
    show lineFeed ∈ ([] : Text) ∨ lineFeed ∈ fault.code ∨ lineFeed ∈ fault.message ↔ _
    rw [or_iff_right List.not_mem_nil, or_iff_right hcode, fault.lineFeed_mem_message_iff]
    rfl

end ParseError

namespace VarSpec

theorem nameOf_infix (t : Text) : nameOf t <:+: t := by
  rw [nameOf]
  split
  · exact (List.dropLast_prefix t).isInfix
  · rw [Text.cutAt]
    split <;> exact (List.takeWhile_prefix _).isInfix

theorem quoted_infix_of_readModifier {t : Text} {fault : ExpressionFault}
    (h : readModifier t = .error fault) : fault.quoted <:+: t := by
  rw [readModifier] at h
  split at h
  · obtain rfl := Except.error.inj h
    exact List.nil_infix
  · split at h
    · split at h
      · obtain rfl := Except.error.inj h
        exact List.infix_rfl
      · cases h
    · split at h
      · cases h
      · split at h
        · cases h
        · obtain rfl := Except.error.inj h
          exact List.infix_rfl

theorem quoted_of_checkName {name : Text} {fault : ExpressionFault}
    (h : checkName name = .error fault) : fault.quoted = name := by
  rw [checkName] at h
  split at h
  · obtain rfl := Except.error.inj h
    rfl
  · split at h
    · cases h
    · obtain rfl := Except.error.inj h
      rfl

/-- A variable that is refused is quoted, or its name. -/
theorem quoted_infix_of_read {seen : List Text} {t : Text} {fault : ExpressionFault}
    (h : read seen t = .error fault) : fault.quoted <:+: t := by
  unfold read at h
  rcases bind_eq_error.mp h with h | ⟨spec, hmodifier, h⟩
  · exact quoted_infix_of_readModifier h
  · -- from here on only the name is looked at
    rw [name_of_readModifier hmodifier] at h
    have hname : fault.quoted = nameOf t := by
      rcases bind_eq_error.mp h with h | ⟨_, -, h⟩
      · exact quoted_of_checkName h
      · split at h
        · obtain rfl := Except.error.inj h
          rfl
        · cases h
    rw [hname]
    exact nameOf_infix t

end VarSpec

namespace Expression

/-- What is quoted stands in the body that is refused. -/
theorem quoted_infix_of_readBody {body : Text} {fault : ExpressionFault}
    (h : readBody body = .error fault) : fault.quoted <:+: body := by
  rcases body with - | ⟨c, rest⟩
  · obtain rfl := Except.error.inj h
    exact List.nil_infix
  · by_cases hc : Operator.isReservedSymbol c = true
    · -- the symbol is quoted, and nothing behind it is read
      rw [readBody, readOperator, if_pos hc] at h
      obtain rfl := Except.error.inj h
      exact (List.prefix_append [c] rest).isInfix
    · obtain ⟨op, list, hopens⟩ := exists_opens (Bool.eq_false_iff.mpr hc) rest
      rw [readBody, hopens.readOperator_eq] at h
      split at h
      · obtain rfl := Except.error.inj h
        exact List.nil_infix
      · change (VarSpec.readAll [] (list.split ',') >>= fun specs => pure (op, specs)) = _ at h
        rcases bind_eq_error.mp h with h | ⟨_, -, h⟩
        · obtain ⟨front, t, back, hsplit, -, hread⟩ := VarSpec.exists_of_readAll_eq_error h
          have hmem : t ∈ list.split ',' := by
            rw [hsplit]
            exact List.mem_append_right front List.mem_cons_self
          have hlist : list <:+: c :: rest := by
            rw [hopens.eq_append]
            exact (List.suffix_append op.symbol list).isInfix
          exact ((VarSpec.quoted_infix_of_read hread).trans (Text.infix_of_mem_split hmem)).trans
            hlist
        · cases h

/-- What is quoted stands between the braces. -/
theorem quoted_infix_of_read {body : Text} {p : Nat} {e : ParseError}
    (h : read body p = .error e) : e.quoted <:+: body := by
  unfold read at h
  split at h
  · cases h
  · next fault hbody =>
    obtain rfl := Except.error.inj h
    exact quoted_infix_of_readBody hbody

end Expression

/-- What an error about a template quotes stands in the template. -/
theorem Template.quoted_infix_of_tryParse {source : Text} {e : ParseError}
    (h : e ∈ (tryParse source).2) : e.quoted <:+: source := by
  rcases hscan : Token.scan source with e' | tokens
  · obtain ⟨_, _, _, rfl⟩ := Token.exists_malformed_of_scan hscan
    rw [tryParse, hscan] at h
    rw [List.mem_singleton.mp h]
    exact List.nil_infix
  · obtain ⟨hlaid, -⟩ := Token.scan_eq_ok_iff.mp hscan
    rw [tryParse_of_scan hscan] at h
    obtain ⟨body, p, htoken, hread⟩ := mem_errorsOf.mp h
    obtain ⟨-, before, after, -, rfl⟩ := hlaid.mem_iff_bracePair.mp htoken
    refine (Expression.quoted_infix_of_read hread).trans ?_
    exact ⟨before ++ lit "\x7b", lit "\x7d" ++ after, by simp [Expression.braced, lit]⟩

/-! ### Documents -/

/-- **An error about a YAML document takes up several lines.** -/
theorem Yaml.Problem.lineFeed_mem_render (document : List Char) (p : Problem) :
    lineFeed ∈ p.render document := by
  cases p with
  | character c index =>
    rw [Problem.render, List.mem_append, List.mem_append]
    exact .inl (.inr (by decide))
  | marked context wording mark =>
    -- behind the place stands the line of the document
    have hplace : lineFeed ∈ mark.render document := by
      rw [Mark.render, List.mem_append, List.mem_append]
      exact .inl (.inr (by decide))
    exact (Text.infix_intercalate (lit "\n")
      (List.mem_append_right _ (List.mem_cons_of_mem _ List.mem_cons_self))).mem hplace

theorem Json.lineFeed_not_mem_render (reason : Reason) (cs : List Char) (left : Nat) :
    lineFeed ∉ render reason cs left := by
  have hreason : lineFeed ∉ reason.message := by cases reason <;> decide
  have hnat : ∀ n, lineFeed ∉ Text.ofNat n :=
    Text.lineFeed_not_mem_toDigits (by decide) (by decide)
  have hline : lineFeed ∉ lit ": line " := by decide
  have hcolumn : lineFeed ∉ lit " column " := by decide
  have hoffset : lineFeed ∉ lit " (char " := by decide
  have hend : lineFeed ∉ lit ")" := by decide
  simp [render, hreason, hnat, hline, hcolumn, hoffset, hend]

namespace Value

/-- A document denotes values of kinds whose names are on one line. -/
theorem OfDocument.lineFeed_not_mem_typeName {v : Value} (h : v.OfDocument) :
    lineFeed ∉ v.typeName := by
  cases h with
  | scalar h => cases h <;> exact of_decide_eq_true rfl
  | _ => exact of_decide_eq_true rfl

end Value

/-! ### Files -/

namespace Path

/-- The suffix of a path stands in it. -/
theorem mem_of_mem_suffix {path : Text} {c : CodePoint} (h : c ∈ suffix path)
    (hc : c ≠ CodePoint.scalar '.') : c ∈ path := by
  have hname : lastName path <:+: path := by
    rw [lastName]
    rcases hlast : (names path).getLast? with - | name
    · exact List.nil_infix
    · have hmem : name ∈ path.split '/' :=
        (List.mem_filter.mp (List.mem_of_getLast? hlast)).1
      exact Text.infix_of_mem_split hmem
  rw [suffix] at h
  split at h
  · exact absurd h List.not_mem_nil
  · rcases List.mem_cons.mp h with h | h
    · exact absurd h hc
    · have hmem := (List.takeWhile_prefix _).mem (List.mem_reverse.mp h)
      exact hname.mem (List.mem_reverse.mp hmem)

end Path

namespace LoadFault

/-- The part of the wording of a fault that is not fixed. -/
def quoted : LoadFault → Text
  | missing => []
  | unsupported suffix => suffix
  | directory shown => shown
  | forbidden shown => shown
  | badYaml detail => detail
  | badJson detail => detail
  | notMapping typeName => typeName

theorem lineFeed_mem_message_iff (fault : LoadFault) :
    lineFeed ∈ fault.message ↔ lineFeed ∈ fault.quoted := by
  cases fault with
  | missing => decide
  | unsupported suffix => exact Text.lineFeed_mem_between_iff (by decide) (by decide) suffix
  | directory shown =>
    rw [message, List.mem_append]
    exact or_iff_right (by decide)
  | forbidden shown =>
    rw [message, List.mem_append]
    exact or_iff_right (by decide)
  | badYaml detail => exact Iff.rfl
  | badJson detail => exact Iff.rfl
  | notMapping typeName =>
    rw [message, List.mem_append]
    exact or_iff_right (by decide)

theorem lineFeed_not_mem_code (fault : LoadFault) : lineFeed ∉ fault.code := by
  cases fault <;> exact of_decide_eq_true rfl

end LoadFault

theorem LoadError.lineFeed_mem_render_iff (e : LoadError) :
    lineFeed ∈ e.diagnostic.render ↔ lineFeed ∈ e.file ∨ lineFeed ∈ e.fault.quoted := by
  rw [Diagnostic.lineFeed_mem_render_iff]
  show lineFeed ∈ e.file ∨ lineFeed ∈ e.fault.code ∨ lineFeed ∈ e.fault.message ↔ _
  rw [or_iff_right e.fault.lineFeed_not_mem_code, e.fault.lineFeed_mem_message_iff]

namespace Bindings

theorem ofDocument_of_format {format : Format} {cs : List Char} {v : Value}
    (h : format.read cs = .ok v) : v.OfDocument := by
  cases format with
  | yaml =>
    unfold Format.read at h
    dsimp only at h
    split at h
    · next v' hread =>
      obtain rfl := Except.ok.inj h
      exact Yaml.ofDocument_of_read hread
    · cases h
    · cases h
  | json =>
    unfold Format.read at h
    dsimp only at h
    split at h
    · next v' hread =>
      obtain rfl := Except.ok.inj h
      exact Json.ofDocument_of_read hread
    · cases h
    · cases h

theorem exists_of_named {entries : List (Value × Value)} {bindings : List (Text × Value)}
    (h : named entries = .ok bindings) : ∀ e ∈ bindings, ∃ k, (k, e.2) ∈ entries := by
  induction entries generalizing bindings with
  | nil =>
    obtain rfl := Except.ok.inj h
    exact fun e he => absurd he List.not_mem_nil
  | cons first rest ih =>
    obtain ⟨k, v⟩ := first
    obtain ⟨name, -, h⟩ := bind_eq_ok.mp h
    obtain ⟨others, hothers, h⟩ := bind_eq_ok.mp h
    obtain rfl := Except.ok.inj h
    refine List.forall_mem_cons.mpr ⟨⟨k, List.mem_cons_self⟩, fun e he => ?_⟩
    exact (ih hothers e he).imp fun k hk => List.mem_cons_of_mem _ hk

/-- What a document binds names to are values of documents. -/
theorem forall_mem_of_ofDocument {document : Value} (hdocument : document.OfDocument)
    {bindings : Entries Text Value} (h : ofDocument document = .ok bindings) :
    ∀ e ∈ bindings, e.2.OfDocument := by
  unfold ofDocument at h
  split at h
  · obtain rfl := Except.ok.inj h
    exact fun e he => absurd he List.not_mem_nil
  · next entries =>
    split at h
    · next named hnamed =>
      obtain rfl := Except.ok.inj h
      cases hdocument with
      | scalar h => cases h
      | map _ hvalues =>
        intro e he
        obtain ⟨k, hk⟩ := exists_of_named hnamed e (Entries.mem_of_mem_ofList he)
        exact hvalues _ hk
    · cases h
  · cases h

/-- What is wrong with the text of a document takes up several lines if it is YAML. -/
theorem lineFeed_mem_quoted_of_read {format : Format} {cs : List Char} {fault : LoadFault}
    (h : format.read cs = .error (.inl fault)) :
    lineFeed ∈ fault.quoted ↔ ∃ detail, fault = .badYaml detail := by
  cases format with
  | yaml =>
    unfold Format.read at h
    dsimp only at h
    split at h
    · cases h
    · next p hread =>
      obtain rfl := Sum.inl.inj (Except.error.inj h)
      exact iff_of_true (p.lineFeed_mem_render cs) ⟨_, rfl⟩
    · cases h
  | json =>
    unfold Format.read at h
    dsimp only at h
    split at h
    · cases h
    · next reason left hread =>
      obtain rfl := Sum.inl.inj (Except.error.inj h)
      exact iff_of_false (Json.lineFeed_not_mem_render reason cs left) fun ⟨_, h⟩ => nomatch h
    · cases h

/-- Only what is wrong with the text of a YAML document takes up several lines. -/
theorem lineFeed_mem_quoted_of_ofContent {format : Format} {content : ByteArray} {fault : LoadFault}
    (h : ofContent format content = .error (.inl fault)) :
    lineFeed ∈ fault.quoted ↔ ∃ detail, fault = .badYaml detail := by
  unfold ofContent at h
  split at h
  · cases h
  · rcases bind_eq_error.mp h with h | ⟨document, hread, h⟩
    · exact lineFeed_mem_quoted_of_read h
    · unfold ofDocument at h
      split at h
      · cases h
      · split at h <;> cases h
      · obtain rfl := Sum.inl.inj (Except.error.inj h)
        exact iff_of_false (ofDocument_of_format hread).lineFeed_not_mem_typeName
          fun ⟨_, h⟩ => nomatch h

section
variable {files : Files} {path : Text}

/-- A file that is loaded has values of documents. -/
theorem forall_mem_of_load {bindings : Entries Text Value} (h : load files path = .ok bindings) :
    ∀ e ∈ bindings, e.2.OfDocument := by
  obtain ⟨format, content, hcontent⟩ := exists_of_load_eq_ok h
  unfold ofContent at hcontent
  split at hcontent
  · cases hcontent
  · obtain ⟨document, hread, hdocument⟩ := bind_eq_ok.mp hcontent
    exact forall_mem_of_ofDocument (ofDocument_of_format hread) hdocument

/-- What the reader finds wrong with a YAML file is what its error tells. -/
theorem load_of_refused {content : ByteArray} {cs : List Char} {p : Yaml.Problem}
    (hsuffix : Format.ofSuffix? (Path.suffix path) = some .yaml)
    (hfile : files path = .file content) (hdecode : decodeFile content = .ok cs)
    (hread : Yaml.read cs = .error (.refused p)) :
    load files path = .error (.load ⟨.badYaml (p.render cs), path⟩) := by
  rw [load_of_file hsuffix hfile, ofContent, hdecode]
  show (Format.read .yaml cs >>= _).mapError (failureAt path) = _
  rw [Format.read, hread]
  rfl

/-- A path that is refused by itself is told of on one line if it is on one line. -/
theorem Unreached.lineFeed_mem_quoted {fault : LoadFault} (h : Unreached path fault)
    (hmem : lineFeed ∈ fault.quoted) : lineFeed ∈ path := by
  cases h with
  | missing => exact absurd hmem List.not_mem_nil
  -- the suffix stands in the path; the others show it as a literal, which has no line feed
  | unsupported => exact Path.mem_of_mem_suffix hmem (by decide)
  | forbidden => exact absurd hmem (Text.lineFeed_not_mem_quoted (Path.normal path))
  | directory => exact absurd hmem (Text.lineFeed_not_mem_quoted (Path.normal path))

/-- **A file that is refused is told of on one line**, unless a line feed is in its path
or it is no YAML. -/
theorem lineFeed_mem_render_of_load {e : LoadError} (h : load files path = .error (.load e)) :
    lineFeed ∈ e.diagnostic.render ↔ lineFeed ∈ path ∨ ∃ detail, e.fault = .badYaml detail := by
  obtain ⟨rfl, hrefused⟩ := refused_of_load_eq_error h
  rw [LoadError.lineFeed_mem_render_iff]
  rcases hrefused with hunreached | ⟨format, content, hcontent⟩
  · have hnone : ¬ ∃ detail, e.fault = .badYaml detail := by
      rintro ⟨detail, hdetail⟩
      rw [hdetail] at hunreached
      cases hunreached
    rw [or_iff_left hnone]
    exact or_iff_left_of_imp hunreached.lineFeed_mem_quoted
  · rw [lineFeed_mem_quoted_of_ofContent hcontent]

end

end Bindings

/-! ### Settings -/

namespace SettingsError

/-- The part of the wording of a refusal that is not fixed. -/
def quoted : SettingsError → Text
  | notMapping => []
  | unknownKeys names => Value.commaJoined names
  | badDateFormat => []
  | badPolicy => []
  | badYaml detail => detail

theorem lineFeed_mem_message_iff (e : SettingsError) :
    lineFeed ∈ e.message ↔ lineFeed ∈ e.quoted := by
  cases e with
  | notMapping => decide
  | unknownKeys names =>
    rw [message, List.mem_append]
    exact or_iff_right (by decide)
  | badDateFormat => decide
  | badPolicy => decide
  | badYaml detail =>
    rw [message, List.mem_append]
    exact or_iff_right (by decide)

end SettingsError

namespace Settings

/-- Reading settings from a value finds nothing wrong with the text. -/
theorem ofValue_ne_badYaml (v : Value) (detail : Text) :
    ofValue v ≠ .error (.invalid (.badYaml detail)) := by
  intro h
  cases v with
  | none => cases h
  | map entries =>
    by_cases hknown : unknownKeys entries = []
    · rw [ofValue_of_known hknown] at h
      rcases bind_eq_error.mp h with h | ⟨_, -, h⟩
      · cases eq_of_dateFormatIn_eq_error h
      · rcases bind_eq_error.mp h with h | ⟨_, -, h⟩
        · cases eq_of_policyIn_eq_error h
        · cases h
    · rw [ofValue_of_unknown hknown] at h
      split at h <;> cases h
  | _ => cases h

/-- A file of settings that is no YAML is told of on several lines. -/
theorem lineFeed_mem_of_load {files : Files} {path : Option Text} {detail : Text}
    (h : load files path = .error (.invalid (.badYaml detail))) : lineFeed ∈ detail := by
  unfold load at h
  split at h
  · cases h
  · cases h
  · split at h
    · cases h
    · cases h
    · cases h
    · cases h
    · cases h
    · cases h
    · cases h
    · cases h
    · split at h
      · cases h
      · split at h
        · exact absurd h (ofValue_ne_badYaml _ detail)
        · next p hread =>
          obtain rfl := SettingsError.badYaml.inj (SettingsFailure.invalid.inj (Except.error.inj h))
          exact p.lineFeed_mem_render _
        · cases h

end Settings

end UriExpansion
