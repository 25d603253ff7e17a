/-
UriExpansion/Proofs/Report.lean

What a run prints, in either format.

The two formats report one verdict.  As a JSON document it can be read back by
the names of its members (`Json.Tree.Tells`): whether the run succeeded, how many
errors there are, the errors themselves, and the result.  As lines of text it
is printed by the console, errors sorted.  The order of the errors is the same
all the same: the errors of a template are about no file and stand at increasing
offsets (`pairwise_inOrder_tryParse`), and every other stage has a single one, so
that sorting changes nothing (`errorLines_eq`).

`formats_agree` compares the two formats, and `expand_stages` says what a call of
`expand` prints for each way in which its stages can end.  In both the lines of
text are what the console makes of them, so that they are the result or the
errors themselves exactly if these are plain.
-/
import UriExpansion.Proofs.Console
import UriExpansion.Proofs.Entries
import UriExpansion.Proofs.Stages

namespace UriExpansion

/-! ### Reading a report -/

namespace Json.Tree

/-- The member of an object with a name. -/
def member? (tree : Tree) (name : Text) : Option Tree :=
  match tree with
  | object members => Entries.get? members name
  | _ => none

/-- The number that a tree is. -/
def number? : Tree → Option Int
  | number n => some n
  | _ => none

/-- The text that a tree is. -/
def text? : Tree → Option Text
  | text t => some t
  | _ => none

/-- Members are found by their names, in whatever order they are written. -/
theorem member?_ofMembers {members : List (Text × Tree)} {name : Text} {tree : Tree}
    (hnodup : (members.map Prod.fst).Nodup) (h : (name, tree) ∈ members) :
    (ofMembers members).member? name = some tree := by
  have hperm := List.mergeSort_perm members fun a b => (Text.compare a.1 b.1).isLE
  apply Entries.get?_of_mem
  · exact (hperm.map Prod.fst).nodup_iff.mpr hnodup
  · exact hperm.mem_iff.mpr h

/-- The line for readers that tells the same as an error of a report. -/
def errorLine? (tree : Tree) : Option Text := do
  let code ← (← tree.member? (lit "code")).text?
  let message ← (← tree.member? (lit "message")).text?
  let position ← tree.member? (lit "position")
  let file ← tree.member? (lit "file")
  return Diagnostic.render ⟨.usage, code, message, none, position.number?, file.text?⟩

/-- What a report tells: whether the run succeeded, its errors by their lines and
their number, and the content of the command's own member. -/
structure Tells (doc : Tree) (ok : Bool) (errors : List Diagnostic) (name : Text) (own : Tree) :
    Prop where
  ok : doc.member? (lit "ok") = some (.bool ok)
  count : doc.member? (lit "error_count") = some (.number errors.length)
  errors : ∃ items, doc.member? (lit "errors") = some (.array items) ∧
    items.map errorLine? = errors.map fun d => some d.render
  own : doc.member? name = some own

end Json.Tree

namespace CommandLine

open Json

/-- An error of a report has everything that its line tells. -/
theorem errorLine?_errorTree (d : Diagnostic) : (errorTree d).errorLine? = some d.render := by
  have hnames : ([lit "code", lit "message", lit "expression", lit "position", lit "file",
      lit "severity", lit "source"] : List Text).Nodup := by decide
  have hmember : ∀ {name tree}, (name, tree) ∈ _ → (errorTree d).member? name = some tree :=
    fun h => Tree.member?_ofMembers hnames h
  have hcode : (errorTree d).member? (lit "code") = some (.text d.code) := hmember (by simp)
  have hmessage : (errorTree d).member? (lit "message") = some (.text d.message) :=
    hmember (by simp)
  have hposition : (errorTree d).member? (lit "position")
      = some (.ofOption (d.position.map .number)) := hmember (by simp)
  have hfile : (errorTree d).member? (lit "file") = some (.ofOption (d.file.map .text)) :=
    hmember (by simp)
  have hnumber : (Tree.ofOption (d.position.map .number)).number? = d.position := by
    rcases d.position with - | n <;> rfl
  have htext : (Tree.ofOption (d.file.map .text)).text? = d.file := by
    rcases d.file with - | t <;> rfl
  rw [Tree.errorLine?, hcode, hmessage, hposition, hfile]
  show some (Diagnostic.render ⟨_, _, _, _, Tree.number? _, Tree.text? _⟩) = _
  rw [hnumber, htext]
  rfl

/-- The names of the members that the report of every command has. -/
def reportNames : List Text :=
  [lit "tool", lit "command", lit "ok", lit "error_count", lit "errors"]

theorem tells_jsonReport (command : Command) (ok : Bool) (errors : List Diagnostic)
    {name : Text} (hname : name ∉ reportNames) (own : Tree) :
    (jsonReport command ok errors (name, own)).Tells ok errors name own := by
  have hnodup : (reportNames ++ [name]).Nodup := by
    refine List.nodup_append.mpr ⟨by decide, by simp, ?_⟩
    rintro other hother _ hsingle rfl
    rw [List.mem_singleton.mp hsingle] at hother
    exact hname hother
  have hmember : ∀ {other tree}, (other, tree) ∈ _ →
      (jsonReport command ok errors (name, own)).member? other = some tree :=
    fun h => Tree.member?_ofMembers hnodup h
  refine ⟨hmember (by simp), hmember (by simp), ?_, hmember (by simp)⟩
  refine ⟨errors.map errorTree, hmember (by simp), ?_⟩
  rw [List.map_map]
  exact List.map_congr_left fun d _ => errorLine?_errorTree d

/-! ### The two formats -/

/-- A report of a result. -/
inductive GivesResult {α : Type} (p : Presentation α) (result : α) : Format → Outcome → Prop
  | text : GivesResult p result .text (.printed ⟨0, console (p.lines result), []⟩)
  | json {doc : Tree} : doc.Tells true [] p.memberName (p.member result) →
      GivesResult p result .json (.printed ⟨0, doc.render 0 ++ lit "\n", []⟩)

/-- A report of errors, without a result. -/
inductive GivesErrors {α : Type} (p : Presentation α) (errors : List Diagnostic) (exitCode : Nat) :
    Format → Outcome → Prop
  | text : GivesErrors p errors exitCode .text
      (.printed ⟨exitCode, [], console (errors.map Diagnostic.render)⟩)
  | json {doc : Tree} : doc.Tells false errors p.memberName .null →
      GivesErrors p errors exitCode .json (.printed ⟨exitCode, doc.render 0 ++ lit "\n", []⟩)

section
variable {α : Type} {p : Presentation α}

theorem report_done (hp : p.memberName ∉ reportNames) (result : α) (format : Format) :
    GivesResult p result format (p.report format (.done result)) := by
  cases format with
  | text => exact .text
  | json =>
    have htells := tells_jsonReport p.command true [] hp (p.member result)
    have hreport := GivesResult.json htells
    rw [← console_singleton (Tree.plain_render _ 0)] at hreport
    exact hreport

/-- Errors in order are not put into another one. -/
theorem errorLines_eq {errors : List Diagnostic}
    (h : errors.Pairwise fun a b => inOrder a b = true) :
    errorLines errors = errors.map Diagnostic.render := by
  rw [errorLines, List.mergeSort_of_pairwise h]

theorem report_refused (hp : p.memberName ∉ reportNames) {errors : List Diagnostic}
    (h : errors.Pairwise fun a b => inOrder a b = true) (exitCode : Nat) (format : Format) :
    GivesErrors p errors exitCode format (p.report format (.refused errors exitCode)) := by
  cases format with
  | text =>
    have hreport : GivesErrors p errors exitCode .text _ := .text
    rw [← errorLines_eq h] at hreport
    exact hreport
  | json =>
    have htells := tells_jsonReport p.command false errors hp .null
    have hreport : GivesErrors p errors exitCode .json _ := .json htells
    rw [← console_singleton (Tree.plain_render _ 0)] at hreport
    exact hreport

theorem GivesResult.eq_console {result : α} {o : Outcome} (h : GivesResult p result .text o) :
    o = .printed ⟨0, console (p.lines result), []⟩ := by
  cases h
  rfl

theorem GivesResult.exists_doc {result : α} {o : Outcome} (h : GivesResult p result .json o) :
    ∃ doc : Tree, o = .printed ⟨0, doc.render 0 ++ lit "\n", []⟩ ∧
      doc.Tells true [] p.memberName (p.member result) := by
  cases h with
  | json htells => exact ⟨_, rfl, htells⟩

/-- A result stands in the text as it is exactly if its lines are plain. -/
theorem GivesResult.literal_iff {result : α} {o : Outcome} (h : GivesResult p result .text o) :
    o = .printed ⟨0, lineText (p.lines result), []⟩ ↔ ∀ line ∈ p.lines result, line.Plain := by
  rw [h.eq_console, ← console_eq_iff]
  constructor
  · intro heq
    exact congrArg Printed.out (Outcome.printed.inj heq)
  · intro heq
    rw [heq]

theorem GivesErrors.eq_console {errors : List Diagnostic} {exitCode : Nat} {o : Outcome}
    (h : GivesErrors p errors exitCode .text o) :
    o = .printed ⟨exitCode, [], console (errors.map Diagnostic.render)⟩ := by
  cases h
  rfl

/-- Errors stand in the text as they are exactly if their lines are plain. -/
theorem GivesErrors.literal_iff {errors : List Diagnostic} {exitCode : Nat} {o : Outcome}
    (h : GivesErrors p errors exitCode .text o) :
    o = .printed ⟨exitCode, [], lineText (errors.map Diagnostic.render)⟩ ↔
      ∀ d ∈ errors, d.render.Plain := by
  rw [h.eq_console, ← List.forall_mem_map, ← console_eq_iff]
  constructor
  · intro heq
    exact congrArg Printed.err (Outcome.printed.inj heq)
  · intro heq
    rw [heq]

end

/-! ### The order of errors -/

theorem Text.compare_self (t : Text) : Text.compare t t = .eq := by
  induction t with
  | nil => rfl
  | cons c t ih =>
    rw [Text.compare, ih]
    simp

/-- Errors about no file come in the order of their offsets. -/
theorem inOrder_of_position_lt {a b : Diagnostic} {m n : Nat} (ha : a.position = some (m : Int))
    (hb : b.position = some (n : Int)) (hfile : a.file = none) (hfile' : b.file = none)
    (h : m < n) : inOrder a b = true := by
  have hlt : compare (m : Int) (n : Int) = .lt := Int.compare_eq_lt.mpr (Int.ofNat_lt.mpr h)
  rw [inOrder, hfile, hfile', ha, hb, Option.getD_none, Text.compare_self]
  show ((compare (m : Int) (n : Int)).then _).isLE = true
  rw [hlt]
  rfl

theorem ParseError.file_diagnostic (e : ParseError) : e.diagnostic.file = none := by
  cases e <;> rfl

theorem ParseError.position_diagnostic (e : ParseError) :
    e.diagnostic.position = some (e.position : Int) := by
  cases e <;> rfl

/-- The errors of a template are in order. -/
theorem pairwise_inOrder_tryParse (source : Text) :
    ((Template.tryParse source).2.map ParseError.diagnostic).Pairwise
      fun a b => inOrder a b = true := by
  rcases hscan : Token.scan source with e | tokens
  · rw [Template.tryParse, hscan]
    exact List.pairwise_singleton _ _
  · obtain ⟨hlaid, -⟩ := Token.scan_eq_ok_iff.mp hscan
    rw [Template.tryParse_of_scan hscan, List.pairwise_map]
    refine (Template.pairwise_errorsOf hlaid.pairwise_position).imp fun {a b} hlt => ?_
    exact inOrder_of_position_lt (ParseError.position_diagnostic a)
      (ParseError.position_diagnostic b) (ParseError.file_diagnostic a)
      (ParseError.file_diagnostic b) hlt

/-! ### Verdicts on templates and calls -/

theorem memberName_validation : validation.memberName ∉ reportNames := by decide

theorem memberName_expansion : expansion.memberName ∉ reportNames := by decide

/-- A template, or errors in order. -/
theorem judgeTemplate_cases (source : Text) :
    (∃ t, judgeTemplate source = .done t) ∨
      ∃ errors : List Diagnostic, errors ≠ [] ∧ (errors.Pairwise fun a b => inOrder a b = true) ∧
        judgeTemplate source = .refused errors 2 := by
  rcases Template.tryParse_cases source with ⟨t, -, hparse⟩ | ⟨e, errors, htry, -⟩
  · exact .inl ⟨t, judgeTemplate_of_parse hparse⟩
  · have hordered := pairwise_inOrder_tryParse source
    rw [htry] at hordered
    exact .inr ⟨_, List.cons_ne_nil _ _, hordered, judgeTemplate_of_tryParse htry⟩

namespace ExpandCall

variable {files : Files} {call : ExpandCall} {stage : Stage} {errors : List Diagnostic}
  {exitCode : Nat}

/-- A stage that fails has errors, and they are in order. -/
theorem Fails.ordered (h : call.Fails files stage errors exitCode) :
    errors ≠ [] ∧ errors.Pairwise fun a b => inOrder a b = true := by
  cases h with
  | @template errors htry =>
    have hordered := pairwise_inOrder_tryParse call.template
    rw [htry] at hordered
    refine ⟨?_, hordered⟩
    rcases Template.tryParse_cases call.template with ⟨t, hok, -⟩ | ⟨e, rest, herror, -⟩
    · rw [htry] at hok
      cases hok
    · rw [htry] at herror
      obtain rfl := (Prod.mk.inj herror).2
      exact List.cons_ne_nil _ _
  | _ => exact ⟨List.cons_ne_nil _ _, List.pairwise_singleton _ _⟩

/-- The exit code is 1 for a configuration file that is missing and for a file of
bindings, and 2 for everything else. -/
theorem Fails.exitCode_eq (h : call.Fails files stage errors exitCode) :
    (exitCode = 1 ∧ (stage = .bindings ∨ stage = .config ∧
        Settings.load files call.configFile = .error (.fault .missingFile))) ∨
      (exitCode = 2 ∧ stage ≠ .bindings ∧
        ¬ (stage = .config ∧ Settings.load files call.configFile = .error (.fault .missingFile))) := by
  cases h with
  | missingConfig hmissing => exact .inl ⟨rfl, .inr ⟨rfl, hmissing⟩⟩
  | bindings _ => exact .inl ⟨rfl, .inl rfl⟩
  | badConfig hinvalid =>
    refine .inr ⟨rfl, by decide, ?_⟩
    rintro ⟨-, hmissing⟩
    rw [hinvalid] at hmissing
    cases hmissing
  | _ => exact .inr ⟨rfl, by decide, fun h => nomatch h.1⟩

/-- A call with a known format comes to a text, or to errors in order. -/
theorem Loadable.judge_cases (hload : call.Loadable files)
    (hformat : Format.ofName? call.format ≠ none) :
    (∃ result, call.judge files = .done result) ∨
      ∃ (errors : List Diagnostic) (exitCode : Nat), errors ≠ [] ∧ exitCode ≠ 0 ∧
        (errors.Pairwise fun a b => inOrder a b = true) ∧
        call.judge files = .refused errors exitCode := by
  by_cases h : ∃ stage errors exitCode, call.Fails files stage errors exitCode
  · obtain ⟨_, _, _, hfails⟩ := h
    obtain ⟨stage, errors, exitCode, hfirst⟩ := exists_firstFailure hfails
    have hstage : stage ≠ .format := by
      rintro rfl
      cases hfirst.fails with
      | format hunknown => exact hformat hunknown
    obtain ⟨hne, hordered⟩ := hfirst.fails.ordered
    refine .inr ⟨errors, exitCode, hne, ?_, hordered, hfirst.judge hload hstage⟩
    rcases hfirst.fails.exitCode_eq with ⟨rfl, -⟩ | ⟨rfl, -⟩
    · exact Nat.succ_ne_zero 0
    · exact Nat.succ_ne_zero 1
  · simp only [not_exists] at h
    obtain ⟨result, hyields⟩ := hload.exists_yields h
    exact .inl ⟨result, hyields.judge⟩

/-- The format of the report; errors about a format that is not known are
reported as text. -/
def reportFormat (call : ExpandCall) : Format := (Format.ofName? call.format).getD .text

theorem outcome_of_known (h : Format.ofName? call.format ≠ none) :
    (Call.expand call).outcome files = expansion.report call.reportFormat (call.judge files) := by
  obtain ⟨format, hformat⟩ := Option.ne_none_iff_exists'.mp h
  rw [Call.outcome, reportAs, reportFormat, hformat]
  rfl

theorem Yields.gives {result : Text} (h : call.Yields files result) :
    GivesResult expansion result call.reportFormat ((Call.expand call).outcome files) := by
  rw [outcome_of_known h.format, h.judge]
  exact report_done memberName_expansion result call.reportFormat

theorem FirstFailure.gives (hload : call.Loadable files)
    (h : call.FirstFailure files stage errors exitCode) :
    GivesErrors expansion errors exitCode call.reportFormat ((Call.expand call).outcome files) := by
  obtain ⟨-, hordered⟩ := h.fails.ordered
  by_cases hstage : stage = .format
  · subst hstage
    cases h.fails with
    | format hunknown =>
      have hreport := report_refused memberName_expansion hordered 2 .text
      rw [reportFormat, Call.outcome, reportAs, hunknown]
      exact hreport
  · have hknown : Format.ofName? call.format ≠ none := fun hunknown =>
      h.first .format (Stage.place_format_lt hstage) _ _ (.format hunknown)
    rw [outcome_of_known hknown, h.judge hload hstage]
    exact report_refused memberName_expansion hordered exitCode call.reportFormat

end ExpandCall

theorem run_of_read {words : List Text} {call : Call} (h : Call.read words = .ok call)
    (files : Files) : run files words = call.outcome files := by
  rw [run, h]

/-! ### The two formats of a run -/

/-- Two runs report one result, or the same errors, one as text and the other as
a JSON document. -/
inductive Agree {α : Type} (p : Presentation α) (o o' : Outcome) : Prop
  | result {result : α} : GivesResult p result .text o → GivesResult p result .json o' →
      (o = .printed ⟨0, lineText (p.lines result), []⟩ ↔ ∀ line ∈ p.lines result, line.Plain) →
      Agree p o o'
  | errors {errors : List Diagnostic} {exitCode : Nat} : errors ≠ [] → exitCode ≠ 0 →
      GivesErrors p errors exitCode .text o → GivesErrors p errors exitCode .json o' →
      (o = .printed ⟨exitCode, [], lineText (errors.map Diagnostic.render)⟩ ↔
        ∀ d ∈ errors, d.render.Plain) →
      Agree p o o'

theorem agree_done {α : Type} {p : Presentation α} (hp : p.memberName ∉ reportNames)
    (result : α) : Agree p (p.report .text (.done result)) (p.report .json (.done result)) := by
  have htext := report_done hp result .text
  exact .result htext (report_done hp result .json) htext.literal_iff

theorem agree_refused {α : Type} {p : Presentation α} (hp : p.memberName ∉ reportNames)
    {errors : List Diagnostic} {exitCode : Nat} (hne : errors ≠ []) (hcode : exitCode ≠ 0)
    (h : errors.Pairwise fun a b => inOrder a b = true) :
    Agree p (p.report .text (.refused errors exitCode))
      (p.report .json (.refused errors exitCode)) := by
  have htext := report_refused hp h exitCode .text
  exact .errors hne hcode htext (report_refused hp h exitCode .json) htext.literal_iff

/-- **Both formats report the same outcome**, as far as the console leaves lines
as they are.  Runs of `validate` and of `expand` that differ in the format only
have one exit code, and one result or the same errors; the text is the result or
the errors themselves exactly if their lines are plain.  A text that is no
template leads to the same lines and to the exit code 2, whatever command is
given it. -/
theorem formats_agree (files : Files) :
    (∀ template words words', Call.read words = .ok (.validate template (lit "text")) →
      Call.read words' = .ok (.validate template (lit "json")) →
      Agree validation (run files words) (run files words')) ∧
    (∀ (call : ExpandCall) (words words' : List Text), call.Loadable files →
      Call.read words = .ok (.expand { call with format := lit "text" }) →
      Call.read words' = .ok (.expand { call with format := lit "json" }) →
      Agree expansion (run files words) (run files words')) ∧
    ∀ template errors, Template.tryParse template = (none, errors) → ∀ words,
      Call.read words = .ok (.listVariables template) ∨
        Call.read words = .ok (.validate template (lit "text")) ∨
        (∃ call : ExpandCall, Call.read words = .ok (.expand call) ∧ call.template = template ∧
          call.format = lit "text" ∧ call.Loadable files ∧
          ∀ stage errors' exitCode, call.Fails files stage errors' exitCode →
            stage = .template) →
      run files words
        = .printed ⟨2, [], console (errors.map fun e => e.diagnostic.render)⟩ := by
  refine ⟨fun template words words' hwords hwords' => ?_,
    fun call words words' hload hwords hwords' => ?_,
    fun template errors htry words hwords => ?_⟩
  · rw [run_of_read hwords, run_of_read hwords']
    show Agree validation (validation.report .text (judgeTemplate template))
      (validation.report .json (judgeTemplate template))
    rcases judgeTemplate_cases template with ⟨t, hjudge⟩ | ⟨errors, hne, hordered, hjudge⟩
    · rw [hjudge]
      exact agree_done memberName_validation t
    · rw [hjudge]
      exact agree_refused memberName_validation hne (Nat.succ_ne_zero 1) hordered
  · rw [run_of_read hwords, run_of_read hwords']
    show Agree expansion (expansion.report .text (call.judge files))
      (expansion.report .json (call.judge files))
    have hload' : ExpandCall.Loadable files { call with format := lit "text" } :=
      ⟨hload.config, hload.bindings, hload.values⟩
    have hjudge : ExpandCall.judge files { call with format := lit "text" } = call.judge files := rfl
    rcases hload'.judge_cases (by decide : Format.ofName? (lit "text") ≠ none) with
      ⟨result, hdone⟩ | ⟨errors, exitCode, hne, hcode, hordered, hrefused⟩
    · rw [← hjudge, hdone]
      exact agree_done memberName_expansion result
    · rw [← hjudge, hrefused]
      exact agree_refused memberName_expansion hne hcode hordered
  · have hverdict := judgeTemplate_of_tryParse htry
    have hordered := pairwise_inOrder_tryParse template
    rw [htry] at hordered
    have hlines : console (errorLines (errors.map ParseError.diagnostic))
        = console (errors.map fun e => e.diagnostic.render) := by
      rw [errorLines_eq hordered, List.map_map]
      rfl
    rw [← hlines]
    rcases hwords with hwords | hwords | ⟨call, hwords, rfl, hformat, hload, honly⟩
    · rw [run_of_read hwords, Call.outcome, hverdict]
      rfl
    · rw [run_of_read hwords]
      show validation.inText (judgeTemplate template) = _
      rw [hverdict]
      rfl
    · -- no stage before the template fails
      have hfirst : call.FirstFailure files .template (errors.map ParseError.diagnostic) 2 := by
        refine ⟨.template htry, fun earlier hlt errors' exitCode' hfails => ?_⟩
        rw [honly earlier errors' exitCode' hfails] at hlt
        exact Nat.lt_irrefl _ hlt
      rw [run_of_read hwords, Call.outcome, hformat]
      show expansion.inText (call.judge files) = _
      rw [hfirst.judge hload (by decide)]
      rfl

/-- An opening brace that is never closed, and an assignment with a sign that is
encoded. -/
theorem formats_agree_unclosed :
    let files : Files := fun _ => .missing
    Agree validation (run files [lit "validate", lit "a\x7bb"])
        (run files [lit "validate", lit "a\x7bb", lit "--format=json"]) ∧
      Agree expansion (run files [lit "expand", lit "\x7bx\x7d", lit "--set", lit "x=1%"])
        (run files [lit "expand", lit "--format", lit "json", lit "\x7bx\x7d", lit "--set",
          lit "x=1%"]) ∧
      run files [lit "variables", lit "a\x7bb"]
        = .printed ⟨2, [], lit "1: E_UNCLOSED_EXPRESSION: expression is never closed with '\x7d'\n"⟩ := by
  intro files
  let call : ExpandCall := ⟨lit "\x7bx\x7d", none, [lit "x=1%"], none, false, lit "text"⟩
  have hload : call.Loadable files :=
    ExpandCall.loadable_of_bindings rfl rfl fun _ he => absurd he List.not_mem_nil
  obtain ⟨hvalidate, hexpand, herrors⟩ := formats_agree files
  refine ⟨hvalidate (lit "a\x7bb") _ _ ?_ ?_, hexpand call _ _ hload ?_ ?_, ?_⟩
  · exact eq_ok_of_toOption (by decide +kernel)
  · exact eq_ok_of_toOption (by decide +kernel)
  · exact eq_ok_of_toOption (by decide +kernel)
  · exact eq_ok_of_toOption (by decide +kernel)
  · have htry : Template.tryParse (lit "a\x7bb") = (none, [.malformed .unclosed (lit "\x7bb") 1]) := by
      decide +kernel
    have hread : Call.read [lit "variables", lit "a\x7bb"] = .ok (.listVariables (lit "a\x7bb")) :=
      eq_ok_of_toOption (by decide +kernel)
    rw [herrors _ _ htry _ (.inl hread)]
    exact congrArg (fun err => Outcome.printed ⟨2, [], err⟩) (by decide +kernel)

/-- A sequence that colours text is left out of the text, though the JSON report
has it. -/
theorem formats_differ_sequence :
    let files : Files := fun _ => .missing
    let template := lit "a\x1b[31mb"
    run files [lit "expand", lit "--partial", template] = .printed ⟨0, lit "ab\n", []⟩ ∧
      ∃ doc : Tree,
        run files [lit "expand", lit "--partial", template, lit "--format", lit "json"]
          = .printed ⟨0, doc.render 0 ++ lit "\n", []⟩ ∧
        doc.member? (lit "result") = some (.text template) := by
  intro files template
  let call : ExpandCall := ⟨template, none, [], none, true, lit "text"⟩
  have hjudge : call.judge files = .done template := by
    let t : Template := ⟨template, [.literal template 0]⟩
    have hprepares : call.Prepares files t .empty .standard :=
      ⟨rfl, eq_ok_of_toOption (by decide +kernel), [], [], rfl, .nil, fun _ => rfl⟩
    have hperform : call.perform t .empty .standard = .ok template :=
      eq_ok_of_toOption (by decide +kernel)
    rw [hprepares.judge, hperform]
  have hread : Call.read [lit "expand", lit "--partial", template] = .ok (.expand call) :=
    eq_ok_of_toOption (by decide +kernel)
  have hread' : Call.read [lit "expand", lit "--partial", template, lit "--format", lit "json"]
      = .ok (.expand { call with format := lit "json" }) := eq_ok_of_toOption (by decide +kernel)
  constructor
  · rw [run_of_read hread]
    show expansion.report .text (call.judge files) = _
    rw [hjudge, (report_done memberName_expansion template .text).eq_console]
    exact congrArg (fun out => Outcome.printed ⟨0, out, []⟩) (by decide +kernel)
  · obtain ⟨doc, hdoc, htells⟩ := (report_done memberName_expansion template .json).exists_doc
    refine ⟨doc, ?_, htells.own⟩
    rw [run_of_read hread', ← hdoc, ← hjudge]
    rfl

/-! ### A run of `expand` -/

/-- **A call of `expand` is the library call on the merged bindings, or the errors
of the first stage that fails.**  If no stage fails, the exit code is 0 and the
result is that of the library, on the bindings of the file overridden by the
assignments; in the text form it stands as it is exactly if it is plain, which it
always is unless expressions may be kept.  Otherwise there is a first stage that
fails.  Its errors and no others are reported, without a result, and the exit code
is 1 for a configuration file that is missing and for the file of bindings, and 2
for everything else. -/
theorem expand_stages {files : Files} {call : ExpandCall} {words : List Text}
    (hread : Call.read words = .ok (.expand call)) (hload : call.Loadable files) :
    ((∀ stage errors exitCode, ¬ call.Fails files stage errors exitCode) ↔
      ∃ result, call.Yields files result) ∧
    ((∃ stage errors exitCode, call.Fails files stage errors exitCode) →
      ∃ stage errors exitCode, call.FirstFailure files stage errors exitCode) ∧
    (∀ result, call.Yields files result →
      GivesResult expansion result call.reportFormat (run files words) ∧
      (call.reportFormat = .text →
        (run files words = .printed ⟨0, result ++ lit "\n", []⟩ ↔ result.Plain)) ∧
      (call.keepUnbound = false → result.Plain)) ∧
    ∀ stage errors exitCode, call.FirstFailure files stage errors exitCode →
      GivesErrors expansion errors exitCode call.reportFormat (run files words) ∧
      ((exitCode = 1 ∧ (stage = .bindings ∨ stage = .config ∧
          Settings.load files call.configFile = .error (.fault .missingFile))) ∨
        (exitCode = 2 ∧ stage ≠ .bindings ∧ ¬ (stage = .config ∧
          Settings.load files call.configFile = .error (.fault .missingFile)))) := by
  rw [run_of_read hread]
  refine ⟨⟨hload.exists_yields, ?_⟩, ?_, fun result hyields => ⟨hyields.gives, ?_, ?_⟩,
    fun stage errors exitCode hfirst => ⟨hfirst.gives hload, hfirst.fails.exitCode_eq⟩⟩
  · rintro ⟨result, hyields⟩ stage errors exitCode
    exact hyields.not_fails hload
  · rintro ⟨stage, errors, exitCode, hfails⟩
    exact ExpandCall.exists_firstFailure hfails
  · intro hformat
    have hgives := hyields.gives
    rw [hformat] at hgives
    have hliteral := hgives.literal_iff
    rw [show lineText (expansion.lines result) = result ++ lit "\n" from
      List.flatMap_singleton _ result] at hliteral
    exact hliteral.trans List.forall_mem_singleton
  · intro hfull
    obtain ⟨t, store, s, hprepares, hresult⟩ := hyields.performs
    rw [ExpandCall.perform, hfull] at hresult
    exact (Template.uriText_expand (Template.parse_sound hprepares.template) hresult).plain

/-- Bindings from a file and an assignment that is made twice, and a file that is
missing beside an item that is no assignment. -/
theorem expand_stages_overridden :
    let files : Files := fun path =>
      if path = lit "v.json" then .file "\x7b\"x\": \"1\", \"y\": \"2\"\x7d".toUTF8 else .missing
    run files [lit "expand", lit "\x7bx\x7d/\x7by\x7d", lit "--vars", lit "v.json", lit "--set",
        lit "y=3", lit "--set", lit "y=a=b"] = .printed ⟨0, lit "1/a%3Db\n", []⟩ ∧
      run files [lit "expand", lit "\x7bx", lit "--vars", lit "w.json", lit "--set", lit "y"]
        = .printed ⟨1, [], lit "w.json: E_FILE_NOT_FOUND: file does not exist\n"⟩ := by
  intro files
  let call : ExpandCall := ⟨lit "\x7bx\x7d/\x7by\x7d", some (lit "v.json"),
    [lit "y=3", lit "y=a=b"], none, false, lit "text"⟩
  let refused : ExpandCall := ⟨lit "\x7bx", some (lit "w.json"), [lit "y"], none, false, lit "text"⟩
  have hread : Call.read [lit "expand", lit "\x7bx\x7d/\x7by\x7d", lit "--vars", lit "v.json",
      lit "--set", lit "y=3", lit "--set", lit "y=a=b"] = .ok (.expand call) :=
    eq_ok_of_toOption (by decide +kernel)
  have hread' : Call.read [lit "expand", lit "\x7bx", lit "--vars", lit "w.json", lit "--set",
      lit "y"] = .ok (.expand refused) := eq_ok_of_toOption (by decide +kernel)
  constructor
  · -- what the file binds is only looked at through what can be compared
    obtain ⟨bindings, hloaded⟩ : ∃ bindings, call.loaded files = .ok bindings :=
      error?_eq_none.mp (by decide +kernel)
    have hload : call.Loadable files := by
      refine ExpandCall.loadable_of_bindings rfl hloaded fun e he f hfault => ?_
      have hall : (call.loaded files).toOption.map
          (·.all fun e => (error? (e.2.resolve .standard)).isNone) = some true := by decide +kernel
      rw [hloaded] at hall
      have hnone := List.all_eq_true.mp (Option.some.inj hall) e he
      rw [hfault] at hnone
      cases hnone
    have hyields : call.Yields files (lit "1/a%3Db") := by
      let t : Template := ⟨lit "\x7bx\x7d/\x7by\x7d",
        [.expression ⟨lit "x", .simple, [⟨lit "x", .none⟩], 0⟩, .literal (lit "/") 3,
          .expression ⟨lit "y", .simple, [⟨lit "y", .none⟩], 4⟩]⟩
      let assigned : List (Text × Value) := [(lit "y", .str (lit "3")), (lit "y", .str (lit "a=b"))]
      have hassigned : Assigned call.assignments assigned :=
        .cons ⟨lit "3", ⟨by decide, by decide, rfl⟩, rfl⟩
          (.cons ⟨lit "a=b", ⟨by decide, by decide, rfl⟩, rfl⟩ .nil)
      have hresult : (call.loaded files).toOption.map (fun bindings =>
          (call.perform t ((Store.ofList bindings).setAll assigned) .standard).toOption)
          = some (some (lit "1/a%3Db")) := by decide +kernel
      rw [hloaded] at hresult
      exact ⟨by decide, t, (Store.ofList bindings).setAll assigned, .standard,
        ⟨rfl, eq_ok_of_toOption (by decide +kernel), bindings, assigned, hloaded, hassigned,
          Store.overrides_setAll _ _⟩, eq_ok_of_toOption (Option.some.inj hresult)⟩
    obtain ⟨-, -, hgives, -⟩ := expand_stages hread hload
    obtain ⟨-, hliteral, hplain⟩ := hgives (lit "1/a%3Db") hyields
    exact (hliteral rfl).mpr (hplain rfl)
  · have hloaded : refused.loaded files = .error (.load ⟨.missing, lit "w.json"⟩) := rfl
    have hload : refused.Loadable files := ExpandCall.loadable_of_refused rfl hloaded
    have hfirst : refused.FirstFailure files .bindings
        [LoadError.diagnostic ⟨.missing, lit "w.json"⟩] 1 :=
      ExpandCall.firstFailure_of_refused (by decide) rfl hloaded
    obtain ⟨-, -, -, hgives⟩ := expand_stages hread' hload
    rw [(hgives _ _ _ hfirst).1.eq_console]
    exact congrArg (fun err => Outcome.printed ⟨1, [], err⟩) (by decide +kernel)

/-- An escape is in the source of the partial expansion and not in what is printed. -/
theorem expand_stages_sequence :
    let files : Files := fun _ => .missing
    let source := lit "a\x1b[31mb"
    ∃ t p, Template.parse source = .ok t ∧ t.expandPartial .empty .standard = .ok p ∧
      p.source = source ∧
      run files [lit "expand", source, lit "--partial"] = .printed ⟨0, lit "ab\n", []⟩ := by
  intro files source
  let call : ExpandCall := ⟨source, none, [], none, true, lit "text"⟩
  let t : Template := ⟨source, [.literal source 0]⟩
  have hparse : Template.parse source = .ok t := eq_ok_of_toOption (by decide +kernel)
  have hpartial : t.expandPartial .empty .standard = .ok t := eq_ok_of_toOption (by decide +kernel)
  have hread : Call.read [lit "expand", source, lit "--partial"] = .ok (.expand call) :=
    eq_ok_of_toOption (by decide +kernel)
  have hperform : call.perform t .empty .standard = .ok source := by
    show (t.expandPartial .empty .standard).map Template.source = _
    rw [hpartial]
    rfl
  have hyields : call.Yields files source :=
    ⟨by decide, t, .empty, .standard, ⟨rfl, hparse, [], [], rfl, .nil, fun _ => rfl⟩, hperform⟩
  have hgives : GivesResult expansion source .text ((Call.expand call).outcome files) :=
    hyields.gives
  refine ⟨t, t, hparse, hpartial, rfl, ?_⟩
  rw [run_of_read hread, hgives.eq_console]
  exact congrArg (fun out => Outcome.printed ⟨0, out, []⟩) (by decide +kernel)

end CommandLine

end UriExpansion
