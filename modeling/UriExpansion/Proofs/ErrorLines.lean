/-
UriExpansion/Proofs/ErrorLines.lean

Errors and the lines on which they are reported.

A report for readers is the renderings of its errors as they appear on the console,
each with a line feed behind it, in order of file, offset and code
(`CommandLine.pairwise_mergeSort_inOrder`).  Its lines can be counted: one for each
error, and one more for each line feed in a rendering.  Hence there are as many lines as
errors exactly if no rendering has a line feed in it, and the lines are the renderings
exactly if besides all of these are plain (`CommandLine.reports_refused`).

Line feeds come into a rendering with what is quoted there.  So the text of a template
can break the line on which it is reported, and so can a path, a name or an assignment;
a file that is no YAML always does (`CommandLine.errors_line_by_line`).
-/
import UriExpansion.Proofs.LineBreaks
import UriExpansion.Proofs.Report

namespace UriExpansion

open CodePoint (lineFeed)

/-! ### The order of a report -/

open Std in
/-- A comparison of what a function makes of two things. -/
theorem transCmp_on {α β : Type} (cmp : β → β → Ordering) [TransCmp cmp] (f : α → β) :
    TransCmp fun a b => cmp (f a) (f b) where
  eq_swap := OrientedCmp.eq_swap
  isLE_trans := TransCmp.isLE_trans

theorem Text.compare_eq_compareLex (t u : Text) :
    Text.compare t u = List.compareLex (compareOn CodePoint.toNat) t u := by
  induction t generalizing u with
  | nil => rcases u with - | ⟨d, u⟩ <;> rfl
  | cons c t ih =>
    rcases u with - | ⟨d, u⟩
    · rfl
    · rw [Text.compare, ih, List.compareLex_cons_cons]
      rfl

instance : Std.TransCmp Text.compare := by
  have h : Text.compare = List.compareLex (compareOn CodePoint.toNat) :=
    funext fun t => funext fun u => t.compare_eq_compareLex u
  rw [h]
  infer_instance

namespace CommandLine

/-- The comparison of errors by file, offset and code. -/
def compareErrors : Diagnostic → Diagnostic → Ordering :=
  compareLex (fun a b => Text.compare (a.file.getD []) (b.file.getD []))
    (compareLex (fun a b => compare (a.position.getD (-1)) (b.position.getD (-1)))
      fun a b => Text.compare a.code b.code)

instance : Std.TransCmp compareErrors := by
  have := transCmp_on Text.compare fun d : Diagnostic => d.file.getD []
  have := transCmp_on (compare : Int → Int → Ordering) fun d : Diagnostic => d.position.getD (-1)
  have := transCmp_on Text.compare fun d : Diagnostic => d.code
  unfold compareErrors
  infer_instance

theorem inOrder_eq (a b : Diagnostic) : inOrder a b = (compareErrors a b).isLE := rfl

theorem inOrder_trans (a b c : Diagnostic) (hab : inOrder a b = true)
    (hbc : inOrder b c = true) : inOrder a c = true := by
  rw [inOrder_eq] at hab hbc ⊢
  exact Std.TransCmp.isLE_trans hab hbc

theorem inOrder_total (a b : Diagnostic) : (inOrder a b || inOrder b a) = true := by
  have hswap : compareErrors b a = (compareErrors a b).swap := Std.OrientedCmp.eq_swap
  rw [inOrder_eq, inOrder_eq, hswap]
  cases compareErrors a b <;> rfl

/-- A report has its errors in order. -/
theorem pairwise_mergeSort_inOrder (errors : List Diagnostic) :
    (errors.mergeSort inOrder).Pairwise fun a b => inOrder a b = true :=
  List.pairwise_mergeSort inOrder_trans inOrder_total errors

/-! ### Reports -/

/-- The text by which readers are told of errors, in the order in which they are
`sorted`: their renderings as they appear, each with a line feed behind it. -/
structure TellsReaders (errors sorted : List Diagnostic) (err : Text) : Prop where
  perm : sorted.Perm errors
  ordered : sorted.Pairwise fun a b => inOrder a b = true
  text : err = lineText (sorted.map fun d => appearance d.render)
  /-- Line feeds in renderings make lines of their own. -/
  count : err.lines.length
    = errors.length + (errors.map Diagnostic.render).flatten.count lineFeed
  oneEach : err.lines.length = errors.length ↔ ∀ d ∈ errors, lineFeed ∉ d.render
  literal : err.lines = sorted.map Diagnostic.render ↔
    ∀ d ∈ errors, lineFeed ∉ d.render ∧ d.render.Plain

/-- The outcome is a report of the errors for readers. -/
def Reports (errors : List Diagnostic) (exitCode : Nat) (o : Outcome) : Prop :=
  ∃ sorted err, TellsReaders errors sorted err ∧ o = .printed ⟨exitCode, [], err⟩

theorem tellsReaders_mergeSort (errors : List Diagnostic) :
    TellsReaders errors (errors.mergeSort inOrder) (console (errorLines errors)) := by
  have hperm := List.mergeSort_perm errors inOrder
  have hlength : (errorLines errors).length = errors.length := by
    rw [errorLines, List.length_map, hperm.length_eq]
  have hforall : ∀ P : Text → Prop,
      (∀ line ∈ errorLines errors, P line) ↔ ∀ d ∈ errors, P d.render := by
    intro P
    rw [errorLines, List.forall_mem_map]
    exact forall_congr' fun d => imp_congr_left hperm.mem_iff
  refine ⟨hperm, pairwise_mergeSort_inOrder errors, ?_, ?_, ?_, ?_⟩
  · rw [console_eq_lineText, errorLines, List.map_map]
    rfl
  · rw [length_lines_console, hlength, errorLines]
    exact congrArg (errors.length + ·) ((hperm.map Diagnostic.render).flatten.count_eq lineFeed)
  · rw [← hlength, length_lines_console_eq_iff]
    exact hforall (lineFeed ∉ ·)
  · exact (lines_console_eq_iff _).trans (hforall fun line => lineFeed ∉ line ∧ line.Plain)

/-- Whatever the errors are and the command is, readers are told of them in this way. -/
theorem reports_refused {α : Type} (p : TextForm α) (errors : List Diagnostic)
    (exitCode : Nat) : Reports errors exitCode (p.inText (.refused errors exitCode)) :=
  ⟨_, _, tellsReaders_mergeSort errors, rfl⟩

/-- A format that is not known is quoted, whatever the command. -/
theorem reports_unknownFormat {α : Type} (p : Presentation α) {format : Text}
    (h : Format.ofName? format = none) (v : Verdict α) :
    ∃ d, Reports [d] 2 (reportAs p format v) ∧ (lineFeed ∈ d.render ↔ lineFeed ∈ format) := by
  rw [reportAs, h]
  refine ⟨_, reports_refused p.toTextForm _ 2, (lineFeed_mem_complaint_iff ?_ _ _).trans ?_⟩
  · cases p.command <;> decide
  · rw [Option.getD_none, or_iff_right List.not_mem_nil]
    exact Text.lineFeed_mem_between_iff (by decide) (by decide) format

/-- **Readers are told of every error in its turn, and a line feed in what is quoted
breaks its line.**  Under `validate` and `variables` these are the errors of the
template, under `expand` the errors of a stage that fails, and an unknown format is
an error of its own.  The errors come sorted.  There are as many lines as errors
exactly if no rendering has a line feed in it, and the lines are the renderings exactly
if besides all of them are plain.  An error about a template has the line feeds of the
piece of the template that it quotes.  The errors of a stage are free of line feeds
unless a path, a name, an assignment or a piece of the template brings one in, or a file
is no YAML. -/
theorem errors_line_by_line (files : Files) :
    (∀ template errors, Template.tryParse template = (none, errors) →
      (∀ words, Call.read words = .ok (.validate template (lit "text")) ∨
          Call.read words = .ok (.listVariables template) →
        Reports (errors.map ParseError.diagnostic) 2 (run files words)) ∧
      ∀ e ∈ errors, (lineFeed ∈ e.diagnostic.render ↔ lineFeed ∈ e.quoted) ∧
        e.quoted <:+: template) ∧
    (∀ (call : ExpandCall) words, Call.read words = .ok (.expand call) →
      Format.ofName? call.format = some .text →
      ∀ errors exitCode, call.judge files = .refused errors exitCode →
        Reports errors exitCode (run files words) ∧
        ∃ stage, call.Fails files stage errors exitCode ∧
          ((∃ d ∈ errors, lineFeed ∈ d.render) ↔ call.Breaks files stage)) ∧
    (∀ format, Format.ofName? format = none →
      ∀ words, (∃ template, Call.read words = .ok (.validate template format)) ∨
          (∃ call : ExpandCall, Call.read words = .ok (.expand call) ∧ call.format = format) →
        ∃ d, Reports [d] 2 (run files words) ∧ (lineFeed ∈ d.render ↔ lineFeed ∈ format)) ∧
    ∀ {α : Type} (p : TextForm α) errors exitCode,
      Reports errors exitCode (p.inText (.refused errors exitCode)) := by
  refine ⟨fun template errors htry => ⟨fun words hwords => ?_, fun e he => ⟨?_, ?_⟩⟩,
    fun call words hwords hformat errors exitCode hjudge => ⟨?_, ?_⟩,
    fun format hformat words hwords => ?_, fun p errors exitCode => reports_refused p errors exitCode⟩
  · have hverdict := judgeTemplate_of_tryParse htry
    rcases hwords with hwords | hwords
    · rw [run_of_read hwords]
      show Reports _ _ (validation.inText (judgeTemplate template))
      rw [hverdict]
      exact reports_refused validation.toTextForm _ 2
    · rw [run_of_read hwords]
      show Reports _ _ (listing.inText (judgeTemplate template))
      rw [hverdict]
      exact reports_refused listing _ 2
  · exact e.lineFeed_mem_render_iff
  · apply Template.quoted_infix_of_tryParse
    rw [htry]
    exact he
  · rw [run_of_read hwords, Call.outcome, reportAs, hformat, hjudge]
    exact reports_refused expansion.toTextForm errors exitCode
  · obtain ⟨stage, hfails⟩ := ExpandCall.exists_fails_of_judge hjudge
    exact ⟨stage, hfails, hfails.lineFeed_iff⟩
  · rcases hwords with ⟨template, hwords⟩ | ⟨call, hwords, rfl⟩
    · rw [run_of_read hwords]
      exact reports_unknownFormat validation hformat (judgeTemplate template)
    · rw [run_of_read hwords]
      exact reports_unknownFormat expansion hformat (call.judge files)

/-- Two errors of a template, a file that is missing, and a format with a line feed. -/
theorem errors_line_by_line_two :
    let files : Files := fun _ => .missing
    (∃ err, run files [lit "validate", lit "\x7ba:0\x7d\x7b|b\x7d"] = .printed ⟨2, [], err⟩ ∧
      err.lines = [lit "0: E_INVALID_PREFIX: prefix length in 'a:0' must be an integer from 1 to 10000",
        lit "5: E_RESERVED_OPERATOR: operator '|' is reserved and not supported"]) ∧
    (∃ err, run files [lit "expand", lit "a", lit "--vars", lit "v.json"]
        = .printed ⟨1, [], err⟩ ∧ err.lines.length = 1) ∧
    ∃ err, run files [lit "expand", lit "a", lit "--format", lit "b\nc"]
      = .printed ⟨2, [], err⟩ ∧ err.lines.length ≠ 1 := by
  intro files
  obtain ⟨htemplate, hexpand, hformat, -⟩ := errors_line_by_line files
  refine ⟨?_, ?_, ?_⟩
  · let errors : List ParseError := [.expression (.badLength (lit "a:0")) (lit "a:0") 0,
      .expression (.reservedOperator '|') (lit "|b") 5]
    have htry : Template.tryParse (lit "\x7ba:0\x7d\x7b|b\x7d") = (none, errors) := by decide +kernel
    have hread : Call.read [lit "validate", lit "\x7ba:0\x7d\x7b|b\x7d"]
        = .ok (.validate (lit "\x7ba:0\x7d\x7b|b\x7d") (lit "text")) :=
      eq_ok_of_toOption (by decide +kernel)
    obtain ⟨sorted, err, htells, hrun⟩ := (htemplate _ _ htry).1 _ (.inl hread)
    have hstrict : ∀ a ∈ errors.map ParseError.diagnostic, ∀ b ∈ errors.map ParseError.diagnostic,
        inOrder a b = true → inOrder b a = true → a = b := by decide +kernel
    have hsorted : sorted = errors.map ParseError.diagnostic := by
      refine List.Perm.eq_of_pairwise (fun a b ha => ?_) htells.ordered ?_ htells.perm
      · exact hstrict a (htells.perm.mem_iff.mp ha) b
      · decide +kernel
    refine ⟨err, hrun, ?_⟩
    have hquiet : ∀ d ∈ errors.map ParseError.diagnostic,
        lineFeed ∉ d.render ∧ d.render.Quiet := by decide +kernel
    rw [htells.literal.mpr fun d hd => ⟨(hquiet d hd).1, (hquiet d hd).2.plain⟩, hsorted]
    decide +kernel
  · let call : ExpandCall := ⟨lit "a", some (lit "v.json"), [], none, false, lit "text"⟩
    have hread : Call.read [lit "expand", lit "a", lit "--vars", lit "v.json"]
        = .ok (.expand call) := eq_ok_of_toOption (by decide +kernel)
    obtain ⟨⟨sorted, err, htells, hrun⟩, -⟩ := hexpand call _ hread (by decide)
      [LoadError.diagnostic ⟨.missing, lit "v.json"⟩] 1 rfl
    exact ⟨err, hrun, htells.oneEach.mpr (List.forall_mem_singleton.mpr (by decide +kernel))⟩
  · let call : ExpandCall := ⟨lit "a", none, [], none, false, lit "b\nc"⟩
    have hread : Call.read [lit "expand", lit "a", lit "--format", lit "b\nc"]
        = .ok (.expand call) := eq_ok_of_toOption (by decide +kernel)
    obtain ⟨d, ⟨sorted, err, htells, hrun⟩, hquoted⟩ :=
      hformat (lit "b\nc") (by decide) _ (.inr ⟨call, hread, rfl⟩)
    refine ⟨err, hrun, fun hone => ?_⟩
    have hnone := htells.oneEach.mp hone d List.mem_cons_self
    exact hnone (hquoted.mpr (by decide))

/-- A line feed in the name of a variable makes two lines of one error, and a document
that is no YAML makes four. -/
theorem errors_line_by_line_broken :
    let files : Files := fun _ => .file "a: b: c".toUTF8
    let template := lit "\x7ba\nb\x7d"
    (∃ e err, Template.tryParse template = (none, [e]) ∧
      run files [lit "validate", template] = .printed ⟨2, [], err⟩ ∧
      err.lines = [lit "0: E_INVALID_VARNAME: invalid variable name: 'a", lit "b'"]) ∧
    ∃ err, run files [lit "expand", lit "a", lit "--vars", lit "v.yaml"]
        = .printed ⟨1, [], err⟩ ∧
      err.lines = [lit "v.yaml: E_YAML_PARSE: mapping values are not allowed here",
        lit "  in \"<unicode string>\", line 1, column 5:", lit "    a: b: c", lit "        ^"] := by
  intro files template
  constructor
  · let e : ParseError := .expression (.badName (lit "a\nb")) (lit "a\nb") 0
    have htry : Template.tryParse template = (none, [e]) := by decide +kernel
    have hread : Call.read [lit "validate", template] = .ok (.validate template (lit "text")) :=
      eq_ok_of_toOption (by decide +kernel)
    refine ⟨e, console (errorLines [e.diagnostic]), htry, ?_, by decide +kernel⟩
    rw [run_of_read hread]
    show validation.inText (judgeTemplate template) = _
    rw [judgeTemplate_of_tryParse htry]
    rfl
  · let document := "a: b: c".toList
    let p : Yaml.Problem := .marked none (lit "mapping values are not allowed here") ⟨4, 0, 4⟩
    let e : LoadError := ⟨.badYaml (p.render document), lit "v.yaml"⟩
    have hdecode : decodeFile "a: b: c".toUTF8 = .ok document := eq_ok_of_toOption (by decide +kernel)
    have hrefused : Yaml.read document = .error (.refused p) := error?_eq_some.mp (by decide +kernel)
    have hload : Bindings.load files (lit "v.yaml") = .error (.load e) :=
      Bindings.load_of_refused (by decide +kernel) rfl hdecode hrefused
    let call : ExpandCall := ⟨lit "a", some (lit "v.yaml"), [], none, false, lit "text"⟩
    have hread : Call.read [lit "expand", lit "a", lit "--vars", lit "v.yaml"]
        = .ok (.expand call) := eq_ok_of_toOption (by decide +kernel)
    have hjudge : call.judge files = .refused [e.diagnostic] 1 :=
      ExpandCall.judge_of_refused (s := Settings.standard) rfl hload
    refine ⟨console (errorLines [e.diagnostic]), ?_, by decide +kernel⟩
    rw [run_of_read hread]
    show expansion.inText (call.judge files) = _
    rw [hjudge]
    rfl

end CommandLine

end UriExpansion
