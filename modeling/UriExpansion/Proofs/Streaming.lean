/-
UriExpansion/Proofs/Streaming.lean

The expansion algorithm of RFC 6570, section 3.2.1, and its agreement with the
rendering of expressions.

The algorithm writes to an output from left to right.  Its state (`Output`) is
the text written so far and whether a unit has been written; `emit` puts the
operator's opening text before the first unit and its separator before every
later one.  A variable is written according to the kind of its value and to
its modifier (`Output.write`), and an undefined one not at all.

The engine works the other way round: it collects the units of all variables
and joins them when it is done.  `outcome_render_eq_streamed` says that the two
agree on every expression and on all values that resolution can produce.  The
invariant is that emitting units one by one leaves the output at their join
(`foldl_emit_start`).
-/
import UriExpansion.Proofs.Rendering

namespace UriExpansion

/-! ### The algorithm -/

/-- The state of an expansion that writes from left to right. -/
structure Output where
  /-- The text written so far. -/
  text : Text
  /-- Whether a unit has been written. -/
  begun : Bool

namespace Output

/-- Nothing has been written. -/
def start : Output := ⟨[], false⟩

/-- Writes a unit behind what has to stand before it. -/
def emit (op : Operator) (out : Output) (unit : Text) : Output :=
  ⟨out.text ++ (if out.begun then [op.separator] else op.first) ++ unit, true⟩

/-- Writes an encoded text, behind the variable's name if the operator names
its units. -/
def emitNamed (op : Operator) (out : Output) (name text : Text) : Output :=
  if op.named then
    match text with
    | [] => out.emit op (name ++ op.ifEmpty)
    | c :: rest => out.emit op (name ++ lit "=" ++ c :: rest)
  else out.emit op text

/-- Writes an encoded pair of an exploded mapping. -/
def emitPair (op : Operator) (out : Output) (key text : Text) : Output :=
  match op.named, text with
  | true, [] => out.emit op (key ++ op.ifEmpty)
  | _, _ => out.emit op (key ++ lit "=" ++ text)

/-- Texts with commas between them. -/
def commaSeparated : List Text → Text
  | [] => []
  | [t] => t
  | t :: u :: rest => t ++ lit "," ++ commaSeparated (u :: rest)

/-- Writes a variable with its value. -/
def write (op : Operator) (out : Output) (spec : VarSpec) : Resolved → Output
  | .undefined => out
  | .scalar text =>
    match spec.modifier with
    | .upTo n => out.emitNamed op spec.name (op.encoded (text.take n))
    | _ => out.emitNamed op spec.name (op.encoded text)
  | .list items =>
    match spec.modifier with
    | .explode => items.foldl (fun out item => out.emitNamed op spec.name (op.encoded item)) out
    | _ => out.emitNamed op spec.name (commaSeparated (items.map op.encoded))
  | .map pairs =>
    match spec.modifier with
    | .explode =>
      pairs.foldl (fun out pair => out.emitPair op (op.encoded pair.1) (op.encoded pair.2)) out
    | _ => out.emitNamed op spec.name
        (commaSeparated (pairs.flatMap fun pair => [op.encoded pair.1, op.encoded pair.2]))

/-- Writes variables with their values, in order. -/
def writeAll (op : Operator) : Output → List VarSpec → List Resolved → Output
  | out, spec :: specs, value :: values => writeAll op (out.write op spec value) specs values
  | out, _, _ => out

end Output

/-- What the algorithm writes for variables with the given values. -/
def Operator.streamed (op : Operator) (specs : List VarSpec) (values : List Resolved) : Text :=
  (Output.start.writeAll op specs values).text

/-! ### Emitting units -/

namespace Output

theorem commaSeparated_eq_intercalate (ts : List Text) :
    commaSeparated ts = List.intercalate (lit ",") ts := by
  induction ts with
  | nil => rfl
  | cons t ts ih =>
    rcases ts with - | ⟨u, us⟩
    · rw [commaSeparated, List.intercalate_singleton]
    · rw [commaSeparated, List.intercalate_cons_cons, ih]

/-- Keys and values in turn are joined like the pairs. -/
theorem commaSeparated_flatMap (pairs : List (Text × Text)) (f : Text → Text) :
    commaSeparated (pairs.flatMap fun pair => [f pair.1, f pair.2])
      = List.intercalate (lit ",") (pairs.map fun pair => f pair.1 ++ lit "," ++ f pair.2) := by
  rw [commaSeparated_eq_intercalate]
  induction pairs with
  | nil => rfl
  | cons pair pairs ih =>
    rcases pairs with - | ⟨next, pairs⟩
    · rw [List.map_cons, List.map_nil, List.intercalate_singleton]
      show List.intercalate (lit ",") [f pair.1, f pair.2] = _
      rw [List.intercalate_cons_cons, List.intercalate_singleton]
    · rw [List.map_cons] at ih
      rw [List.map_cons, List.map_cons, List.intercalate_cons_cons, ← ih]
      show List.intercalate (lit ",") (f pair.1 :: f pair.2 :: f next.1 :: f next.2 :: _) = _
      rw [List.intercalate_cons_cons, List.intercalate_cons_cons]
      simp only [List.append_assoc]
      rfl

/-- After the first unit, every unit brings its separator. -/
theorem foldl_emit_begun (op : Operator) (units : List Text) (text : Text) :
    units.foldl (emit op) ⟨text, true⟩
      = ⟨text ++ units.flatMap fun unit => op.separator :: unit, true⟩ := by
  induction units generalizing text with
  | nil => rw [List.flatMap_nil, List.append_nil, List.foldl_nil]
  | cons unit units ih =>
    have hstep : emit op ⟨text, true⟩ unit = ⟨text ++ [op.separator] ++ unit, true⟩ := rfl
    rw [List.foldl_cons, hstep, ih, List.flatMap_cons]
    simp

theorem intercalate_singleton_cons (sep : CodePoint) (t : Text) (ts : List Text) :
    List.intercalate [sep] (t :: ts) = t ++ ts.flatMap fun u => sep :: u := by
  induction ts generalizing t with
  | nil => rw [List.intercalate_singleton, List.flatMap_nil, List.append_nil]
  | cons u us ih =>
    rw [List.intercalate_cons_cons, ih, List.flatMap_cons]
    simp

/-- **Emitting units one by one leaves the output at their join.** -/
theorem foldl_emit_start (op : Operator) (units : List Text) :
    (units.foldl (emit op) start).text = op.join units := by
  rcases units with - | ⟨unit, units⟩
  · rfl
  · have hstep : emit op start unit = ⟨op.first ++ unit, true⟩ := rfl
    rw [List.foldl_cons, hstep, foldl_emit_begun, Operator.join,
      if_neg (by rw [List.isEmpty_cons]; exact Bool.false_ne_true), intercalate_singleton_cons,
      List.append_assoc]

theorem emitNamed_eq_emit (op : Operator) (out : Output) (name text : Text) :
    out.emitNamed op name text = out.emit op (op.unit name text) := by
  unfold emitNamed Operator.unit
  split
  · rcases text with - | ⟨c, rest⟩ <;> rfl
  · rfl

theorem emitPair_eq_emit (op : Operator) (out : Output) (key text : Text) :
    out.emitPair op key text
      = out.emit op (if op.named then op.unit key text else key ++ lit "=" ++ text) := by
  unfold emitPair Operator.unit
  rcases op.named with - | -
  · rfl
  · rcases text with - | ⟨c, rest⟩ <;> rfl

/-- A variable is written by emitting its units. -/
theorem write_eq_foldl_emit (op : Operator) (out : Output) (spec : VarSpec) (value : Resolved) :
    out.write op spec value = (spec.written op value).foldl (emit op) out := by
  obtain ⟨name, modifier⟩ := spec
  cases value with
  | undefined => rfl
  | scalar text =>
    rcases modifier with - | n | - <;> exact emitNamed_eq_emit op out name _
  | list items =>
    -- only the explode modifier makes a difference
    have hjoined : out.emitNamed op name (commaSeparated (items.map op.encoded))
        = out.emit op (op.unit name (List.intercalate (lit ",") (items.map op.encoded))) := by
      rw [emitNamed_eq_emit, commaSeparated_eq_intercalate]
    cases modifier with
    | none => exact hjoined
    | upTo n => exact hjoined
    | explode =>
      show _ = (items.map fun item => op.unit name (op.encoded item)).foldl (emit op) out
      rw [List.foldl_map]
      show items.foldl (fun out item => out.emitNamed op name (op.encoded item)) out = _
      simp only [emitNamed_eq_emit]
  | map pairs =>
    have hjoined : out.emitNamed op name
        (commaSeparated (pairs.flatMap fun pair => [op.encoded pair.1, op.encoded pair.2]))
        = out.emit op (op.unit name (List.intercalate (lit ",")
          (pairs.map fun e => op.encoded e.1 ++ lit "," ++ op.encoded e.2))) := by
      rw [emitNamed_eq_emit, commaSeparated_flatMap]
    cases modifier with
    | none => exact hjoined
    | upTo n => exact hjoined
    | explode =>
      have hunits : VarSpec.written op ⟨name, .explode⟩ (.map pairs) = pairs.map fun e =>
          if op.named then op.unit (op.encoded e.1) (op.encoded e.2)
          else op.encoded e.1 ++ lit "=" ++ op.encoded e.2 := by
        show (if op.named then _ else _) = _
        split <;> rfl
      rw [hunits, List.foldl_map]
      show pairs.foldl (fun out e => out.emitPair op (op.encoded e.1) (op.encoded e.2)) out = _
      simp only [emitPair_eq_emit]

/-- Variables are written by emitting their units, one variable after the
other. -/
theorem writeAll_eq_foldl_emit (op : Operator) (out : Output) (specs : List VarSpec)
    (values : List Resolved) :
    out.writeAll op specs values = (op.written specs values).foldl (emit op) out := by
  induction specs generalizing out values with
  | nil => rfl
  | cons spec specs ih =>
    rcases values with - | ⟨value, values⟩
    · rfl
    · rw [writeAll, write_eq_foldl_emit, ih, ← List.foldl_append]
      rfl

end Output

/-! ### Agreement -/

/-- **Rendering an expression is the algorithm of RFC 6570.**  For every
operator, every variable list and every list of values that resolution can
produce, the engine ends in the text that the algorithm writes. -/
theorem Expression.outcome_render_eq_streamed (e : Expression) (values : List Resolved)
    (h : ∀ value ∈ values, value.Produced) :
    (e.render values).outcome = .ok (e.operator.streamed e.varspecs values) := by
  rw [e.outcome_render fun value hv => (h value hv).sound, Operator.streamed,
    Output.writeAll_eq_foldl_emit, Output.foldl_emit_start]
  rfl

/-- Empty, undefined, exploded and shortened values in one expression. -/
theorem render_mixed_query : ∃ (e : Expression) (values : List Resolved),
    e.operator = .query ∧ e.varspecs = [⟨lit "x", .none⟩, ⟨lit "u", .none⟩,
      ⟨lit "y", .explode⟩, ⟨lit "z", .upTo 2⟩] ∧
    (∀ value ∈ values, value.Produced) ∧
    (e.render values).outcome = .ok (lit "?x=&k=&l=%C3%A9&z=ab") := by
  have hvalues : ∀ value ∈ [Resolved.scalar [], .undefined,
      .map [(lit "k", []), (lit "l", lit "é")], .scalar (lit "abc")], value.Produced := by
    refine List.forall_mem_cons.mpr ⟨⟨.standard, .str [], rfl⟩, ?_⟩
    refine List.forall_mem_cons.mpr ⟨⟨.standard, .none, rfl⟩, ?_⟩
    refine List.forall_mem_cons.mpr ⟨⟨.standard,
      .map [(.str (lit "k"), .str []), (.str (lit "l"), .str (lit "é"))], rfl⟩, ?_⟩
    exact List.forall_mem_cons.mpr ⟨⟨.standard, .str (lit "abc"), rfl⟩, fun _ h => nomatch h⟩
  refine ⟨⟨lit "?x,u,y*,z:2", .query, _, 0⟩, _, rfl, rfl, hvalues, ?_⟩
  rw [Expression.outcome_render_eq_streamed _ _ hvalues]
  exact congrArg Except.ok (by decide +kernel)

end UriExpansion
