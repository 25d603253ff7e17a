/-
UriExpansion/Proofs/YamlFaults.lean

The ways in which reading a YAML document fails.

A text that is no document is refused, and the refusal tells what is wrong and
where.  Otherwise the reading ends in one of the few faults in `Fault.OfDocument`: an integer or a number that is beyond what
can be held, nodes that nest too deep, or a scalar whose text does not fit the
kind that it claims.  One lemma for each function of the reader says so, along the
way of a document: its tokens, its nodes, what scalars denote, and the shapes of
the nodes.  `failsWithin_read` puts them together.

Functions that call each other are one induction on the bound of their steps.
Where a function looks at what it has read, the proof takes the two steps apart
with `FailsWithin.bind` or `FailsWithin.run_bind` and goes through its cases; all
others are closed by the lemmas on the functions that they call.
-/
import UriExpansion.Proofs.Outcome
import UriExpansion.Yaml.Meaning

namespace UriExpansion

/-- The faults that are those of a document. -/
inductive Fault.OfDocument : Fault → Prop
  /-- An integer, or the number of a version, has too many digits. -/
  | integer : OfDocument .integerTooLong
  /-- A power of sixty, or the number of an escape, is too large. -/
  | number : OfDocument .numberTooLarge
  | nested : OfDocument .nestedTooDeep
  /-- A mapping claims to be a date. -/
  | notScalar : OfDocument .notScalar
  /-- A numeral, a date or an escape stands for nothing. -/
  | badScalar : OfDocument .badScalar
  /-- A text claims to be a truth value. -/
  | spelling : OfDocument .unknownSpelling
  /-- No text claims to be a number. -/
  | empty : OfDocument .emptyScalar
  /-- A text claims to be a date. -/
  | missing : OfDocument .missingPart

namespace Yaml

/-- The failures of the reader: the text is refused, or a fault of a document. -/
def Failure.Expected : Failure → Prop
  | .refused _ => True
  | .fault f => f.OfDocument

@[simp] theorem expected_refused (p : Problem) : (Failure.refused p).Expected := trivial

@[simp] theorem expected_failure (m : Mark) (wording : Text) : (m.failure wording).Expected :=
  trivial

@[simp] theorem expected_failureIn (m : Mark) (doing : Text) (since : Mark) (wording : Text) :
    (m.failureIn doing since wording).Expected :=
  trivial

@[simp] theorem expected_fault {f : Fault} : (Failure.fault f).Expected ↔ f.OfDocument := Iff.rfl

/-! ### Scalars in the text -/

@[simp] theorem failsWithin_endLine (doing : Text) (since : Mark) (c : Cursor) :
    FailsWithin Failure.Expected (c.endLine doing since) := by
  simp [Cursor.endLine]

section
variable (since : Mark) (bound : Nat) (c : Cursor)

@[simp] theorem failsWithin_quotedBreaks :
    FailsWithin Failure.Expected (quotedBreaks since bound c) := by
  induction bound generalizing c with
  | zero => simp [quotedBreaks]
  | succ bound ih => simp [quotedBreaks, quotedFailure, ih]

@[simp] theorem failsWithin_numericEscape (count : Nat) :
    FailsWithin Failure.Expected (numericEscape since count c) := by
  unfold numericEscape
  refine failsWithin_ite.mpr ⟨fun _ => by simp [escapeFailure], fun _ => ?_⟩
  dsimp only
  split
  · simp
  · -- the number stands for no code point, or is too large for a machine word
    rw [failsWithin_error]
    split
    · exact .badScalar
    · exact .number

@[simp] theorem failsWithin_escape : FailsWithin Failure.Expected (escape since bound c) := by
  unfold escape
  split
  · simp
  · simp
  · simp [escapeFailure]

@[simp] theorem failsWithin_quotedSpace :
    FailsWithin Failure.Expected (quotedSpace since bound c) := by
  unfold quotedSpace
  dsimp only
  split <;> simp [quotedFailure]

@[simp] theorem failsWithin_quotedPart (double : Bool) :
    FailsWithin Failure.Expected (quotedPart double since bound c) := by
  unfold quotedPart
  split <;> simp

@[simp] theorem failsWithin_quotedText (double : Bool) :
    FailsWithin Failure.Expected (quotedText double since bound c) := by
  induction bound generalizing c with
  | zero => simp [quotedText]
  | succ bound ih => simp [quotedText, ih]

end

@[simp] theorem failsWithin_quotedScalar (double : Bool) (c : Cursor) :
    FailsWithin Failure.Expected (quotedScalar double c) := by
  simp [quotedScalar]

@[simp] theorem failsWithin_indentationIndicator (since : Mark) (c : Cursor) :
    FailsWithin Failure.Expected (indentationIndicator since c) := by
  unfold indentationIndicator
  split <;> simp [blockFailure]

@[simp] theorem failsWithin_blockIndicators (since : Mark) (c : Cursor) :
    FailsWithin Failure.Expected (blockIndicators since c) := by
  simp [blockIndicators, blockFailure]

@[simp] theorem failsWithin_blockScalar (folded : Bool) (parent : Int) (c : Cursor) :
    FailsWithin Failure.Expected (blockScalar folded parent c) := by
  simp [blockScalar]

/-! ### Tokens -/

@[simp] theorem failsWithin_anchorName (kind : Text) (c : Cursor) :
    FailsWithin Failure.Expected (anchorName kind c) := by
  simp [anchorName]

section
variable (within : Text) (since : Mark) (bound : Nat) (c : Cursor)

@[simp] theorem expected_scanFailure (wording : Text) :
    (scanFailure within since c wording).Expected :=
  trivial

@[simp] theorem failsWithin_uriOctets :
    FailsWithin Failure.Expected (uriOctets within since bound c) := by
  induction bound generalizing c with
  | zero => simp [uriOctets]
  | succ bound ih => simp [uriOctets, ih]

@[simp] theorem failsWithin_uriText :
    FailsWithin Failure.Expected (uriText within since bound c) := by
  induction bound generalizing c with
  | zero => simp [uriText]
  | succ bound ih =>
    unfold uriText
    dsimp only
    refine failsWithin_ite.mpr ⟨fun _ => ?_, fun _ => by simp⟩
    refine (failsWithin_uriOctets within since _ _).bind ?_
    rintro ⟨octets, after⟩
    dsimp only
    split <;> simp [ih]

@[simp] theorem failsWithin_tagSuffix :
    FailsWithin Failure.Expected (tagSuffix within since c) := by
  simp [tagSuffix]

@[simp] theorem failsWithin_tagHandle :
    FailsWithin Failure.Expected (tagHandle within since c) := by
  simp [tagHandle]

end

@[simp] theorem failsWithin_tag (c : Cursor) : FailsWithin Failure.Expected (tag c) := by
  simp [tag]

@[simp] theorem failsWithin_versionNumber (since : Mark) (c : Cursor) :
    FailsWithin Failure.Expected (versionNumber since c) := by
  simp [versionNumber, directiveFailure, Fault.OfDocument.integer]

@[simp] theorem failsWithin_directive (c : Cursor) :
    FailsWithin Failure.Expected (directive c) := by
  simp [directive, directiveFailure]

namespace State

variable (s : State)

@[simp] theorem expected_withoutColon (k : PossibleKey) : (s.withoutColon k).Expected := trivial

@[simp] theorem expected_misplaced (what : Text) : (s.misplaced what).Expected := trivial

@[simp] theorem failsWithin_forgetStale : FailsWithin Failure.Expected s.forgetStale := by
  unfold forgetStale
  dsimp only
  split <;> simp

@[simp] theorem failsWithin_forgetKey : FailsWithin Failure.Expected s.forgetKey := by
  unfold forgetKey
  split <;> simp

@[simp] theorem failsWithin_rememberKey : FailsWithin Failure.Expected s.rememberKey := by
  simp [rememberKey]

@[simp] theorem failsWithin_finish : FailsWithin Failure.Expected s.finish := by
  simp [finish]

@[simp] theorem failsWithin_marker (t : Token) : FailsWithin Failure.Expected (s.marker t) := by
  simp [marker]

@[simp] theorem failsWithin_declaration : FailsWithin Failure.Expected s.declaration := by
  simp [declaration]

@[simp] theorem failsWithin_opening (t : Token) : FailsWithin Failure.Expected (s.opening t) := by
  simp [opening]

@[simp] theorem failsWithin_closing (t : Token) : FailsWithin Failure.Expected (s.closing t) := by
  simp [closing]

@[simp] theorem failsWithin_entry : FailsWithin Failure.Expected s.entry := by
  simp [entry]

@[simp] theorem failsWithin_announcedKey : FailsWithin Failure.Expected s.announcedKey := by
  simp [announcedKey]

@[simp] theorem failsWithin_value : FailsWithin Failure.Expected s.value := by
  unfold value
  split <;> simp

@[simp] theorem failsWithin_node {read : Cursor → Except Failure (Token × Cursor)}
    (h : ∀ c, FailsWithin Failure.Expected (read c)) :
    FailsWithin Failure.Expected (s.node read) := by
  simp [node, h]

@[simp] theorem failsWithin_block (folded : Bool) :
    FailsWithin Failure.Expected (s.block folded) := by
  simp [block]

@[simp] theorem failsWithin_plain : FailsWithin Failure.Expected s.plain := by
  simp [plain]

@[simp] theorem failsWithin_next : FailsWithin Failure.Expected s.next := by
  refine (failsWithin_forgetStale _).bind fun s => ?_
  dsimp only
  split <;> simp

@[simp] theorem failsWithin_settle (bound : Nat) :
    FailsWithin Failure.Expected (settle bound s) := by
  induction bound generalizing s with
  | zero => simp [settle]
  | succ bound ih => simp [settle, ih]

@[simp] theorem failsWithin_peek : FailsWithin Failure.Expected s.peek := by
  simp [peek]

@[simp] theorem failsWithin_ofDocument (cs : List Char) :
    FailsWithin Failure.Expected (ofDocument cs) := by
  unfold ofDocument
  split <;> simp

end State

/-! ### Nodes -/

namespace Read

variable (r : Reader)

@[simp] theorem failsWithin_peek : FailsWithin Failure.Expected (peek.run r) := by
  simp [peek]

@[simp] theorem failsWithin_advance : FailsWithin Failure.Expected (advance.run r) := by
  simp [advance]

@[simp] theorem failsWithin_accept (t : Token) :
    FailsWithin Failure.Expected ((accept t).run r) := by
  simp [accept]

theorem failsWithin_expect (t : Token) {otherwise : Lexeme → Failure}
    (h : ∀ x, (otherwise x).Expected) :
    FailsWithin Failure.Expected ((expect t otherwise).run r) := by
  simp [expect, h]

@[simp] theorem expected_unended (doing : Text) (since : Mark) (expected : Text) (x : Lexeme) :
    (unended doing since expected x).Expected :=
  trivial

@[simp] theorem failsWithin_follows (ts : List Token) :
    FailsWithin Failure.Expected ((follows ts).run r) := by
  simp [follows]

@[simp] theorem failsWithin_add (n : Node) : FailsWithin Failure.Expected ((add n).run r) := by
  simp [add]

@[simp] theorem failsWithin_addEmpty (place : Mark) :
    FailsWithin Failure.Expected ((addEmpty place).run r) := by
  simp [addEmpty]

@[simp] theorem failsWithin_startOf (id : NodeId) :
    FailsWithin Failure.Expected ((startOf id).run r) := by
  simp [startOf]

@[simp] theorem failsWithin_addAnchored (anchor : Option Text) (n : Node) :
    FailsWithin Failure.Expected ((addAnchored anchor n).run r) := by
  unfold addAnchored
  split
  · simp
  · refine FailsWithin.run_bind (by simp) fun state r => ?_
    split <;> simp

section
variable (h : Header)

/-- A collection fails as its content does, and where it nests too deep. -/
theorem failsWithin_addCollection (anchor : Option Text) (n : Node) {content : Read Content}
    (h : ∀ r, FailsWithin Failure.Expected (content.run r)) :
    FailsWithin Failure.Expected ((addCollection anchor n content).run r) := by
  simp [addCollection, h, Fault.OfDocument.nested]

theorem failsWithin_addSequence {items : Read (List NodeId)}
    (hitems : ∀ r, FailsWithin Failure.Expected (items.run r)) :
    FailsWithin Failure.Expected ((addSequence h items).run r) := by
  apply failsWithin_addCollection
  simp [hitems]

theorem failsWithin_addMapping {entries : Read (List (NodeId × NodeId))}
    (hentries : ∀ r, FailsWithin Failure.Expected (entries.run r)) :
    FailsWithin Failure.Expected ((addMapping h entries).run r) := by
  apply failsWithin_addCollection
  simp [hentries]

@[simp] theorem failsWithin_addMarked (block : Bool) :
    FailsWithin Failure.Expected ((addMarked h block).run r) := by
  simp [addMarked]

end

@[simp] theorem failsWithin_tagOf (handles : List (Text × Text)) (handle : Option Text)
    (suffix : Text) (since place : Mark) :
    FailsWithin Failure.Expected (tagOf handles handle suffix since place) := by
  unfold tagOf
  split
  · simp
  · split <;> simp

@[simp] theorem failsWithin_header (handles : List (Text × Text)) :
    FailsWithin Failure.Expected ((header handles).run r) := by
  refine (failsWithin_peek r).run_bind fun first r => ?_
  split
  · refine (failsWithin_advance r).run_bind fun _ r => ?_
    refine (failsWithin_peek r).run_bind fun second r => ?_
    split <;> simp
  · refine (failsWithin_advance r).run_bind fun _ r => ?_
    refine (failsWithin_peek r).run_bind fun second r => ?_
    split <;> simp
  · simp

@[simp] theorem failsWithin_aliased (name : Text) (place : Mark) :
    FailsWithin Failure.Expected ((aliased name place).run r) := by
  unfold aliased
  refine FailsWithin.run_bind (by simp) fun state r => ?_
  split <;> simp

section
variable {read : Read NodeId} (h : ∀ r, FailsWithin Failure.Expected (read.run r))
include h

theorem failsWithin_nodeAfter (x : Lexeme) (ends : List Token) :
    FailsWithin Failure.Expected ((nodeAfter x ends read).run r) := by
  simp [nodeAfter, h]

theorem failsWithin_valueNode (ends : List Token) :
    FailsWithin Failure.Expected ((valueNode ends read).run r) := by
  refine (failsWithin_accept r _).run_bind fun colon r => ?_
  split
  · exact failsWithin_nodeAfter r h _ ends
  · simp

end

theorem failsWithin_comma (first : Bool) {otherwise : Lexeme → Failure}
    (h : ∀ x, (otherwise x).Expected) :
    FailsWithin Failure.Expected ((comma first otherwise).run r) := by
  unfold comma
  split
  · simp
  · exact failsWithin_expect r _ h

/-- Nodes, and the content of each kind of collection, within a bound on the steps. -/
theorem failsWithin_node (handles : List (Text × Text)) (bound : Nat) :
    (∀ block indentless r,
      FailsWithin Failure.Expected ((node handles block indentless bound).run r)) ∧
    (∀ since r, FailsWithin Failure.Expected ((blockEntries handles since bound).run r)) ∧
    (∀ r, FailsWithin Failure.Expected ((indentlessEntries handles bound).run r)) ∧
    (∀ since r, FailsWithin Failure.Expected ((blockPairs handles since bound).run r)) ∧
    (∀ mark closing r,
      FailsWithin Failure.Expected ((flowPair handles mark closing bound).run r)) ∧
    (∀ since first r,
      FailsWithin Failure.Expected ((flowItems handles since first bound).run r)) ∧
    ∀ since first r,
      FailsWithin Failure.Expected ((flowEntries handles since first bound).run r) := by
  induction bound with
  | zero =>
    simp [node, blockEntries, indentlessEntries, blockPairs, flowPair, flowItems, flowEntries,
      Fault.OfDocument.nested]
  | succ bound ih =>
    obtain ⟨hnode, hblock, hindentless, hpairs, hpair, hitems, hentries⟩ := ih
    refine ⟨fun block indentless r => ?_, ?_, ?_, ?_, ?_, ?_, ?_⟩
    · rw [node]
      refine (failsWithin_peek r).run_bind fun first r => ?_
      split
      · simp
      · refine (failsWithin_header r handles).run_bind fun h r => ?_
        refine (failsWithin_peek r).run_bind fun second r => ?_
        split
        all_goals
          simp [failsWithin_addSequence, failsWithin_addMapping, hblock, hindentless, hpairs,
            hitems, hentries]
    · intro since r
      rw [blockEntries]
      refine (failsWithin_accept r _).run_bind fun hyphen r => ?_
      split <;> simp [hnode, hblock, failsWithin_expect, failsWithin_nodeAfter]
    · intro r
      rw [indentlessEntries]
      refine (failsWithin_accept r _).run_bind fun hyphen r => ?_
      split <;> simp [hnode, hindentless, failsWithin_nodeAfter]
    · intro since r
      rw [blockPairs]
      refine (failsWithin_accept r _).run_bind fun mark r => ?_
      split
      · simp [hnode, hpairs, failsWithin_nodeAfter, failsWithin_valueNode]
      · simp [failsWithin_expect]
    · simp [flowPair, hnode, failsWithin_nodeAfter, failsWithin_valueNode]
    · intro since first r
      rw [flowItems]
      refine (failsWithin_accept r _).run_bind fun closed r => ?_
      refine failsWithin_run_ite.mpr ⟨fun _ => by simp, fun _ => ?_⟩
      refine FailsWithin.run_bind (by simp [failsWithin_comma]) fun _ r => ?_
      refine (failsWithin_accept r _).run_bind fun mark r => ?_
      split
      · simp [failsWithin_addMapping, hpair, hitems]
      · simp [hnode, hitems]
    · intro since first r
      rw [flowEntries]
      refine (failsWithin_accept r _).run_bind fun closed r => ?_
      refine failsWithin_run_ite.mpr ⟨fun _ => by simp, fun _ => ?_⟩
      refine FailsWithin.run_bind (by simp [failsWithin_comma]) fun _ r => ?_
      refine (failsWithin_accept r _).run_bind fun mark r => ?_
      split
      · simp [hpair, hentries]
      · simp [hnode, hentries]

@[simp] theorem failsWithin_directives (versioned : Bool) (handles : List (Text × Text))
    (bound : Nat) : FailsWithin Failure.Expected ((directives versioned handles bound).run r) := by
  induction bound generalizing versioned handles r with
  | zero => simp [directives, Fault.OfDocument.nested]
  | succ bound ih =>
    rw [directives]
    refine (failsWithin_peek r).run_bind fun t r => ?_
    split <;> simp [ih]

@[simp] theorem failsWithin_directiveOr (ts : List Token) :
    FailsWithin Failure.Expected ((directiveOr ts).run r) := by
  refine (failsWithin_peek r).run_bind fun x r => ?_
  split <;> simp

@[simp] theorem failsWithin_passEnds (bound : Nat) :
    FailsWithin Failure.Expected ((passEnds bound).run r) := by
  induction bound generalizing r with
  | zero => simp [passEnds]
  | succ bound ih => simp [passEnds, ih]

@[simp] theorem failsWithin_documentStart (bound : Nat) :
    FailsWithin Failure.Expected ((documentStart bound).run r) := by
  simp [documentStart, failsWithin_expect]

@[simp] theorem failsWithin_document (bound : Nat) :
    FailsWithin Failure.Expected ((document bound).run r) := by
  simp [document, failsWithin_node]

@[simp] theorem failsWithin_stream (bound : Nat) :
    FailsWithin Failure.Expected ((stream bound).run r) := by
  simp [stream]

end Read

theorem failsWithin_readDocument (cs : List Char) :
    FailsWithin Failure.Expected (Document.read cs) := by
  simp [Document.read]

/-! ### What scalars denote -/

@[simp] theorem failsWithin_decimalIn (t : Text) :
    FailsWithin Failure.Expected (decimalIn t) := by
  unfold decimalIn
  refine failsWithin_ite.mpr ⟨fun _ => by simp [Fault.OfDocument.integer], fun _ => ?_⟩
  split <;> simp [Fault.OfDocument.badScalar]

@[simp] theorem failsWithin_splitSign (t : Text) :
    FailsWithin Failure.Expected (splitSign t) := by
  unfold splitSign
  dsimp only
  split <;> simp [Fault.OfDocument.empty]

@[simp] theorem failsWithin_integerOf (t : Text) :
    FailsWithin Failure.Expected (integerOf t) := by
  refine (failsWithin_splitSign t).bind ?_
  rintro ⟨negative, t⟩
  dsimp only
  refine failsWithin_ite.mpr ⟨fun _ => by simp, fun _ => ?_⟩
  refine failsWithin_ite.mpr ⟨fun _ => ?_, fun _ => ?_⟩
  · split <;> simp [Fault.OfDocument.badScalar]
  refine failsWithin_ite.mpr ⟨fun _ => ?_, fun _ => ?_⟩
  · split <;> simp [Fault.OfDocument.badScalar]
  split
  · simp [Fault.OfDocument.empty]
  refine failsWithin_ite.mpr ⟨fun _ => ?_, fun _ => ?_⟩
  · split <;> simp [Fault.OfDocument.badScalar]
  · simp [failsWithin_mapM]

@[simp] theorem failsWithin_powerOfSixty (k : Nat) :
    FailsWithin Failure.Expected (powerOfSixty k) := by
  simp [powerOfSixty, Fault.OfDocument.number]

@[simp] theorem failsWithin_sexagesimalFrom (k : Nat) (sum : Float) (parts : List Binary64) :
    FailsWithin Failure.Expected (sexagesimalFrom k sum parts) := by
  induction parts generalizing k sum with
  | nil => simp [sexagesimalFrom]
  | cons x rest ih => simp [sexagesimalFrom, ih]

@[simp] theorem failsWithin_floatIn (t : Text) : FailsWithin Failure.Expected (floatIn t) := by
  unfold floatIn
  split <;> simp [Fault.OfDocument.badScalar]

@[simp] theorem failsWithin_floatOf (occurrence : Nat) (t : Text) :
    FailsWithin Failure.Expected (floatOf occurrence t) := by
  simp [floatOf, failsWithin_mapM]

@[simp] theorem failsWithin_booleanOf (t : Text) :
    FailsWithin Failure.Expected (booleanOf t) := by
  simp [booleanOf, Fault.OfDocument.spelling]

@[simp] theorem failsWithin_offsetOf (zone : Option (List Char × List Char × List Char)) :
    FailsWithin Failure.Expected (offsetOf zone) := by
  unfold offsetOf
  split <;> simp [Fault.OfDocument.badScalar]

@[simp] theorem failsWithin_dateOf (t : Text) : FailsWithin Failure.Expected (dateOf t) := by
  unfold dateOf
  dsimp only
  split
  · simp [Fault.OfDocument.missing]
  · split <;> simp [Fault.OfDocument.badScalar]

@[simp] theorem failsWithin_octetsOf (start : Mark) (t : Text) :
    FailsWithin Failure.Expected (octetsOf start t) := by
  unfold octetsOf
  split
  · simp
  · split <;> simp

/-! ### Shapes -/

namespace Judge

variable (id : NodeId) (j : Judgement)

@[simp] theorem failsWithin_getNode : FailsWithin Failure.Expected ((node id).run j) := by
  simp [node]

@[simp] theorem failsWithin_getTag : FailsWithin Failure.Expected ((tag id).run j) := by
  simp [tag]

@[simp] theorem failsWithin_start : FailsWithin Failure.Expected ((start id).run j) := by
  simp [start]

@[simp] theorem expected_unexpected (expected : String) (n : Node) :
    (unexpected expected n).Expected :=
  trivial

@[simp] theorem failsWithin_entries : FailsWithin Failure.Expected ((entries id).run j) := by
  refine (failsWithin_getNode id j).run_bind fun n j => ?_
  split <;> simp

@[simp] theorem failsWithin_setEntries (es : List (NodeId × NodeId)) :
    FailsWithin Failure.Expected ((setEntries id es).run j) := by
  simp [setEntries]

@[simp] theorem failsWithin_record (s : Shape) :
    FailsWithin Failure.Expected ((record id s).run j) := by
  simp [record]

@[simp] theorem failsWithin_textOf (bound : Nat) :
    FailsWithin Failure.Expected ((textOf bound id).run j) := by
  induction bound generalizing id j with
  | zero => simp [textOf, Fault.OfDocument.nested]
  | succ bound ih =>
    rw [textOf]
    refine (failsWithin_getNode id j).run_bind fun n j => ?_
    split
    · simp
    · simp
    · refine FailsWithin.run_bind (failsWithin_run_filterM (by simp) _ _) fun marked j => ?_
      split <;> simp [ih]

@[simp] theorem failsWithin_text : FailsWithin Failure.Expected ((text id).run j) := by
  simp [text]

@[simp] theorem failsWithin_date : FailsWithin Failure.Expected ((date id).run j) := by
  refine (failsWithin_text id j).run_bind fun _ j => ?_
  refine (failsWithin_getNode id j).run_bind fun n j => ?_
  split <;> simp [Fault.OfDocument.notScalar]

@[simp] theorem failsWithin_withoutMerges (es : List (NodeId × NodeId)) :
    FailsWithin Failure.Expected ((withoutMerges es).run j) := by
  induction es generalizing j with
  | nil => simp [withoutMerges]
  | cons e es ih => simp [withoutMerges, ih]

@[simp] theorem expected_unmergeable (into : Mark) (expected : String) (n : Node) :
    (unmergeable into expected n).Expected :=
  trivial

/-- Merging, within a bound on the steps. -/
theorem failsWithin_flattened (bound : Nat) :
    (∀ id j, FailsWithin Failure.Expected ((takeMerges bound id).run j)) ∧
    (∀ into source j, FailsWithin Failure.Expected ((mergedFrom bound into source).run j)) ∧
    ∀ id j, FailsWithin Failure.Expected ((flattened bound id).run j) := by
  induction bound with
  | zero => simp [takeMerges, mergedFrom, flattened, Fault.OfDocument.nested]
  | succ bound ih =>
    obtain ⟨htake, hmerged, hflattened⟩ := ih
    refine ⟨fun id j => ?_, fun into source j => ?_, ?_⟩
    · rw [takeMerges]
      refine (failsWithin_entries id j).run_bind fun all j => ?_
      refine (failsWithin_withoutMerges j all).run_bind fun before j => ?_
      split <;> simp [htake, hmerged]
    · rw [mergedFrom]
      refine (failsWithin_getNode source j).run_bind fun n j => ?_
      split
      · exact hflattened source j
      · refine (failsWithin_run_mapM (fun item j => ?_) _ j).run_bind fun parts j => by simp
        refine (failsWithin_getNode item j).run_bind fun part j => ?_
        split <;> simp [hflattened]
      · simp
    · simp [flattened, htake]

@[simp] theorem failsWithin_begin (empty : Shape) :
    FailsWithin Failure.Expected ((begin id empty).run j) := by
  simp [begin]

@[simp] theorem failsWithin_visit : FailsWithin Failure.Expected ((visit id).run j) := by
  unfold visit
  refine FailsWithin.run_bind (by simp) fun state j => ?_
  split
  · simp
  · refine (failsWithin_getTag id j).run_bind fun t j => ?_
    dsimp only
    split <;> simp

theorem failsWithin_items {otherwise : Node → Failure} (h : ∀ n, (otherwise n).Expected) :
    FailsWithin Failure.Expected ((items id otherwise).run j) := by
  refine (failsWithin_getNode id j).run_bind fun n j => ?_
  split <;> simp [h]

@[simp] theorem expected_noPair (ordered : Bool) (since : Mark) (wording : Text) (n : Node) :
    (noPair ordered since wording n).Expected :=
  trivial

@[simp] theorem failsWithin_pairOf (ordered : Bool) (since : Mark) :
    FailsWithin Failure.Expected ((pairOf ordered since id).run j) := by
  refine (failsWithin_getNode id j).run_bind fun n j => ?_
  split <;> simp

@[simp] theorem failsWithin_pairedItems (ordered : Bool) :
    FailsWithin Failure.Expected ((pairedItems ordered id).run j) := by
  simp [pairedItems, failsWithin_items, failsWithin_run_mapM]

@[simp] theorem failsWithin_pairsOf : FailsWithin Failure.Expected ((pairsOf id).run j) := by
  unfold pairsOf
  refine FailsWithin.run_bind (by simp) fun state j => ?_
  refine ((failsWithin_flattened _).2.2 id j).run_bind fun all j => ?_
  refine failsWithin_run_mapM (fun e j => ?_) all j
  refine (failsWithin_visit e.1 j).run_bind fun s j => ?_
  split <;> simp

@[simp] theorem failsWithin_fill : FailsWithin Failure.Expected ((fill id).run j) := by
  refine (failsWithin_getTag id j).run_bind fun t j => ?_
  split <;> simp [failsWithin_items, failsWithin_run_forM]

@[simp] theorem failsWithin_fillFrom (bound k : Nat) :
    FailsWithin Failure.Expected ((fillFrom bound k).run j) := by
  induction bound generalizing k j with
  | zero => simp [fillFrom]
  | succ bound ih =>
    rw [fillFrom]
    refine FailsWithin.run_bind (by simp) fun state j => ?_
    split <;> simp [ih]

end Judge

theorem failsWithin_shapes (g : Graph) (root : NodeId) :
    FailsWithin Failure.Expected (g.shapes root) := by
  simp [Graph.shapes]

/-- **A YAML document that is not read is refused, or ends in one of the faults of
documents.** -/
theorem failsWithin_read (cs : List Char) : FailsWithin Failure.Expected (read cs) := by
  unfold read
  refine (failsWithin_readDocument cs).bind fun document => ?_
  split <;> simp [failsWithin_shapes]

end Yaml

end UriExpansion
