/-
UriExpansion/Proofs/Rendering.lean

The rendering of an expression as a total function of its values.

Sound values hold no surrogate, so that encoding them cannot fail.
`VarSpec.written` are the units of one variable without the possibility of
failure, and `Operator.rendered` is the text of a whole expression; the lemmas
`units_eq_ok` and `outcome_render` say that these are what the engine computes.

* `uriText_rendered`: the rendering is the text of a URI.
* `rendered_cut_iff`: an expression can be cut between any two variables, and
  its rest goes on under the operator that resumes it.  Only in a query does it
  matter where: an operator that opens with its separator goes on as it began,
  whereas a query needs a unit before the cut (`render_cut`).
-/
import UriExpansion.Proofs.Grammar
import UriExpansion.Proofs.Resolution

namespace UriExpansion

open Percent

/-! ### Units -/

/-- A text encoded under an operator. -/
def Operator.encoded (op : Operator) (t : Text) : Text := Percent.encoded op.profile t

/-- The units of a variable with a resolved value. -/
def VarSpec.written (op : Operator) (spec : VarSpec) : Resolved → List Text
  | .undefined => []
  | .scalar text => [op.unit spec.name (op.encoded (spec.modifier.keep text))]
  | .list items =>
    if spec.explodes then items.map fun item => op.unit spec.name (op.encoded item)
    else [op.unit spec.name (List.intercalate (lit ",") (items.map op.encoded))]
  | .map pairs =>
    if spec.explodes then
      if op.named then pairs.map fun e => op.unit (op.encoded e.1) (op.encoded e.2)
      else pairs.map fun e => op.encoded e.1 ++ lit "=" ++ op.encoded e.2
    else
      [op.unit spec.name (List.intercalate (lit ",")
        (pairs.map fun e => op.encoded e.1 ++ lit "," ++ op.encoded e.2))]

/-- The units of several variables with their values, in order. -/
def Operator.written (op : Operator) (specs : List VarSpec) (values : List Resolved) : List Text :=
  (specs.zip values).flatMap fun x => x.1.written op x.2

/-- The text of an expression with the given values. -/
def Operator.rendered (op : Operator) (specs : List VarSpec) (values : List Resolved) : Text :=
  op.join (op.written specs values)

namespace Operator

theorem encode_eq_ok (op : Operator) {t : Text} (h : Text.Encodable t) :
    Percent.encode op.profile t = .ok (op.encoded t) :=
  Percent.encode_eq_ok op.profile h

theorem encodeAll_eq_ok (op : Operator) {ts : List Text} (h : ∀ t ∈ ts, Text.Encodable t) :
    op.encodeAll ts = .ok (ts.map op.encoded) := by
  induction ts with
  | nil => rfl
  | cons t ts ih =>
    obtain ⟨ht, hts⟩ := List.forall_mem_cons.mp h
    rw [encodeAll, op.encode_eq_ok ht, ih hts]
    rfl

theorem encodePairs_eq_ok (op : Operator) {ps : List (Text × Text)}
    (h : ∀ p ∈ ps, Text.Encodable p.1 ∧ Text.Encodable p.2) :
    op.encodePairs ps = .ok (ps.map fun p => (op.encoded p.1, op.encoded p.2)) := by
  induction ps with
  | nil => rfl
  | cons p ps ih =>
    obtain ⟨⟨hk, hv⟩, hps⟩ := List.forall_mem_cons.mp h
    obtain ⟨k, v⟩ := p
    rw [encodePairs, op.encode_eq_ok hk, op.encode_eq_ok hv, ih hps]
    rfl

end Operator

/-- A part of a text can be encoded if the text can. -/
theorem Modifier.encodable_keep (m : Modifier) {t : Text} (h : Text.Encodable t) :
    Text.Encodable (m.keep t) := by
  unfold keep
  split
  · exact fun c hc => h c (List.mem_of_mem_take hc)
  · exact h

namespace VarSpec

/-- A sound value has units. -/
theorem units_eq_ok (op : Operator) (spec : VarSpec) {value : Resolved} (h : value.Sound) :
    spec.units op value = .ok (spec.written op value) := by
  cases value with
  | undefined => rfl
  | scalar text =>
    rw [units, op.encode_eq_ok (spec.modifier.encodable_keep h)]
    rfl
  | list items =>
    rw [units, op.encodeAll_eq_ok h.2, written]
    show Except.ok _ = Except.ok _
    rw [List.map_map]
    rfl
  | map pairs =>
    rw [units, op.encodePairs_eq_ok h.2, written]
    show Except.ok _ = Except.ok _
    simp only [List.map_map]
    rfl

/-- A value that is defined has at least one unit. -/
theorem written_ne_nil (op : Operator) (spec : VarSpec) {value : Resolved} (h : value.Sound)
    (hd : value.isDefined = true) : spec.written op value ≠ [] := by
  cases value with
  | undefined => cases hd
  | scalar text => exact List.cons_ne_nil _ _
  | list items =>
    rw [written]
    split
    · exact fun hnil => h.1 (List.map_eq_nil_iff.mp hnil)
    · exact List.cons_ne_nil _ _
  | map pairs =>
    rw [written]
    split
    · split <;> exact fun hnil => h.1 (List.map_eq_nil_iff.mp hnil)
    · exact List.cons_ne_nil _ _

/-- Only a value that is undefined has no units. -/
theorem written_eq_nil_iff (op : Operator) (spec : VarSpec) {value : Resolved} (h : value.Sound) :
    spec.written op value = [] ↔ value.isDefined = false := by
  constructor
  · intro hnil
    rw [← Bool.not_eq_true]
    exact fun hd => spec.written_ne_nil op h hd hnil
  · intro hd
    cases value with
    | undefined => rfl
    | _ => cases hd

end VarSpec

theorem Operator.units_eq_ok (op : Operator) {pairs : List (VarSpec × Resolved)}
    (h : ∀ x ∈ pairs, x.2.Sound) :
    op.units pairs = .ok (pairs.flatMap fun x => x.1.written op x.2) := by
  induction pairs with
  | nil => rfl
  | cons x pairs ih =>
    obtain ⟨hx, hpairs⟩ := List.forall_mem_cons.mp h
    obtain ⟨spec, value⟩ := x
    rw [units, VarSpec.units_eq_ok op spec hx, ih hpairs]
    rfl

/-- Variables with values have units. -/
theorem Operator.written_ne_nil (op : Operator) {specs : List VarSpec} {values : List Resolved}
    (hspecs : specs ≠ []) (hvalues : values ≠ []) (hsound : ∀ value ∈ values, value.Sound)
    (hd : ∀ value ∈ values, value.isDefined = true) : op.written specs values ≠ [] := by
  obtain ⟨spec, specs, rfl⟩ := List.exists_cons_of_ne_nil hspecs
  obtain ⟨value, values, rfl⟩ := List.exists_cons_of_ne_nil hvalues
  rw [written, List.zip_cons_cons, List.flatMap_cons]
  exact List.append_ne_nil_of_left_ne_nil
    (spec.written_ne_nil op (hsound value List.mem_cons_self) (hd value List.mem_cons_self)) _

/-- Variables have no units if and only if none of them has a value. -/
theorem Operator.written_eq_nil_iff (op : Operator) {specs : List VarSpec}
    {values : List Resolved} (hlength : values.length ≤ specs.length)
    (hsound : ∀ value ∈ values, value.Sound) :
    op.written specs values = [] ↔ ∀ value ∈ values, value.isDefined = false := by
  -- no value is without a variable, so that the pairs hold all values
  have hvalues : (specs.zip values).map Prod.snd = values := List.map_snd_zip hlength
  have heach : ∀ x ∈ specs.zip values, x.1.written op x.2 = [] ↔ x.2.isDefined = false :=
    fun x hx => x.1.written_eq_nil_iff op (hsound x.2 (List.of_mem_zip hx).2)
  calc op.written specs values = []
      ↔ ∀ x ∈ specs.zip values, x.1.written op x.2 = [] := List.flatMap_eq_nil_iff
    _ ↔ ∀ x ∈ specs.zip values, x.2.isDefined = false := forall₂_congr heach
    _ ↔ ∀ value ∈ (specs.zip values).map Prod.snd, value.isDefined = false := by
        rw [List.forall_mem_map]
    _ ↔ ∀ value ∈ values, value.isDefined = false := by rw [hvalues]

/-- **An expression with sound values is rendered without fail.** -/
theorem Expression.outcome_render (e : Expression) {values : List Resolved}
    (h : ∀ value ∈ values, value.Sound) :
    (e.render values).outcome = .ok (e.operator.rendered e.varspecs values) := by
  have hpairs : ∀ x ∈ e.varspecs.zip values, x.2.Sound :=
    fun x hx => h x.2 (List.of_mem_zip hx).2
  rw [render, e.operator.units_eq_ok hpairs, Traced.outcome_bind]
  rfl

/-! ### The text of a URI -/

theorem uriText_lit_comma : UriText (lit ",") := .reserved rfl .nil

theorem UriText.intercalate {sep : Text} {ts : List Text} (hsep : UriText sep)
    (h : ∀ t ∈ ts, UriText t) : UriText (List.intercalate sep ts) :=
  Text.intercalate_induction .nil (fun _ _ => .append) hsep h

namespace Operator

theorem uriText_unit (op : Operator) {key value : Text} (hk : UriText key) (hv : UriText value) :
    UriText (op.unit key value) := by
  have hempty : UriText op.ifEmpty := uriText_iff.mpr (by cases op <;> rfl)
  unfold unit
  split
  · split
    · exact hk.append hempty
    · exact (hk.append (.reserved rfl .nil)).append hv
  · exact hv

theorem uriText_encoded (op : Operator) (t : Text) : UriText (op.encoded t) :=
  UriExpansion.uriText_encoded op.profile t

end Operator

theorem VarSpec.uriText_written (op : Operator) {spec : VarSpec} (hname : UriText spec.name)
    (value : Resolved) : ∀ u ∈ spec.written op value, UriText u := by
  intro u hu
  cases value with
  | undefined => cases hu
  | scalar text =>
    obtain rfl := List.mem_singleton.mp hu
    exact op.uriText_unit hname (op.uriText_encoded _)
  | list items =>
    rw [written] at hu
    split at hu
    · obtain ⟨item, -, rfl⟩ := List.mem_map.mp hu
      exact op.uriText_unit hname (op.uriText_encoded _)
    · obtain rfl := List.mem_singleton.mp hu
      refine op.uriText_unit hname (uriText_lit_comma.intercalate fun t ht => ?_)
      obtain ⟨item, -, rfl⟩ := List.mem_map.mp ht
      exact op.uriText_encoded _
  | map pairs =>
    rw [written] at hu
    split at hu
    · split at hu
      · obtain ⟨pair, -, rfl⟩ := List.mem_map.mp hu
        exact op.uriText_unit (op.uriText_encoded _) (op.uriText_encoded _)
      · obtain ⟨pair, -, rfl⟩ := List.mem_map.mp hu
        exact ((op.uriText_encoded _).append (.reserved rfl .nil)).append (op.uriText_encoded _)
    · obtain rfl := List.mem_singleton.mp hu
      refine op.uriText_unit hname (uriText_lit_comma.intercalate fun t ht => ?_)
      obtain ⟨pair, -, rfl⟩ := List.mem_map.mp ht
      exact ((op.uriText_encoded _).append uriText_lit_comma).append (op.uriText_encoded _)

namespace Operator

theorem uriText_join (op : Operator) {units : List Text} (h : ∀ u ∈ units, UriText u) :
    UriText (op.join units) := by
  have hfirst : UriText op.first := uriText_iff.mpr (by cases op <;> rfl)
  have hsep : UriText [op.separator] := uriText_iff.mpr (by cases op <;> rfl)
  unfold join
  split
  · exact .nil
  · exact hfirst.append (hsep.intercalate h)

/-- **A rendering is the text of a URI.** -/
theorem uriText_rendered (op : Operator) {specs : List VarSpec}
    (h : ∀ spec ∈ specs, spec.WellFormed) (values : List Resolved) :
    UriText (op.rendered specs values) := by
  refine op.uriText_join fun u hu => ?_
  obtain ⟨⟨spec, value⟩, hx, hu⟩ := List.mem_flatMap.mp hu
  -- names go into the text as they are, and a name is the text of a URI
  have hname : UriText spec.name := (h spec (List.of_mem_zip hx).1).isName.uriText
  exact VarSpec.uriText_written op hname value u hu

/-! ### Cutting an expression in two -/

/-- What the operator that resumes another has in common with it; it opens with
the separator, so that what it writes goes on where the other stopped. -/
theorem resumed?_eq_some {op rest : Operator} (h : op.resumed? = some rest) :
    rest.first = [op.separator] ∧ rest.separator = op.separator ∧
      ∀ spec value, VarSpec.written rest spec value = VarSpec.written op spec value := by
  cases op with
  | simple | reserved | fragment => cases h
  | label | path | parameter | continuation =>
    obtain rfl := Option.some.inj h
    exact ⟨rfl, rfl, fun _ _ => rfl⟩
  | query =>
    obtain rfl := Option.some.inj h
    refine ⟨rfl, rfl, fun spec value => ?_⟩
    cases value <;> rfl

theorem intercalate_append {sep : Text} {us vs : List Text} (hu : us ≠ []) (hv : vs ≠ []) :
    List.intercalate sep (us ++ vs)
      = List.intercalate sep us ++ sep ++ List.intercalate sep vs := by
  induction us with
  | nil => exact absurd rfl hu
  | cons u us ih =>
    rcases us with - | ⟨u', us⟩
    · rw [List.intercalate_singleton, List.singleton_append, List.intercalate_cons_of_ne_nil hv]
    · have htail := ih (List.cons_ne_nil u' us)
      rw [List.cons_append] at htail ⊢
      rw [List.cons_append, List.intercalate_cons_cons, List.intercalate_cons_cons, htail]
      simp only [List.append_assoc]

/-- Units joined under an operator, cut behind a unit. -/
theorem join_append {op rest : Operator} (h : op.resumed? = some rest) {us : List Text}
    (hu : us ≠ []) (vs : List Text) : op.join (us ++ vs) = op.join us ++ rest.join vs := by
  -- the opening text of `rest` takes the place of the separator at the cut
  obtain ⟨hfirst, hsep, -⟩ := resumed?_eq_some h
  have hue : us.isEmpty = false := List.isEmpty_eq_false_iff.mpr hu
  have huve : (us ++ vs).isEmpty = false :=
    List.isEmpty_eq_false_iff.mpr (List.append_ne_nil_of_left_ne_nil hu vs)
  rcases vs with - | ⟨v, vs⟩
  · rw [List.append_nil, show rest.join [] = [] from rfl, List.append_nil]
  · rw [join, join, join, hue, huve, hfirst, hsep,
      intercalate_append hu (List.cons_ne_nil v vs)]
    simp

/-- Units joined under an operator, cut in front of the first.  A query opens
with a mark of its own, every other operator as it is resumed. -/
theorem join_eq_resumed_iff {op rest : Operator} (h : op.resumed? = some rest)
    (us : List Text) : op.join us = rest.join us ↔ op ≠ .query ∨ us = [] := by
  rcases us with - | ⟨u, us⟩
  · exact iff_of_true rfl (.inr rfl)
  · cases op with
    | simple | reserved | fragment => cases h
    | label | path | parameter | continuation =>
      obtain rfl := Option.some.inj h
      exact iff_of_true rfl (.inl (by decide))
    | query =>
      obtain rfl := Option.some.inj h
      refine iff_of_false (fun heq => ?_) (by simp)
      -- one begins with a question mark, the other with an ampersand
      exact absurd (List.cons.inj heq).1 (by decide)

/-- The units of several variables are those of the first and of the others. -/
theorem written_cut (op : Operator) (specs : List VarSpec) (values : List Resolved) (k : Nat) :
    op.written specs values = op.written (specs.take k) (values.take k)
      ++ op.written (specs.drop k) (values.drop k) := by
  have hcut := List.take_append_drop k (specs.zip values)
  rw [List.zip, List.take_zipWith, List.drop_zipWith] at hcut
  rw [written, written, written, ← List.flatMap_append]
  exact congrArg (List.flatMap _) hcut.symm

/-- **An expression is cut between its variables**, the rest being resumed.  The
two parts make up the whole unless it is a query that has units behind the cut
and none before it. -/
theorem rendered_cut_iff {op rest : Operator} (h : op.resumed? = some rest)
    (specs : List VarSpec) (values : List Resolved) (k : Nat) :
    op.rendered specs values
        = op.rendered (specs.take k) (values.take k) ++ rest.rendered (specs.drop k) (values.drop k)
      ↔ op ≠ .query ∨ op.written (specs.take k) (values.take k) ≠ [] ∨
        op.written (specs.drop k) (values.drop k) = [] := by
  obtain ⟨-, -, hsame⟩ := resumed?_eq_some h
  have hrest : rest.written (specs.drop k) (values.drop k)
      = op.written (specs.drop k) (values.drop k) := by
    simp only [written, hsame]
  rw [rendered, rendered, rendered, hrest, op.written_cut specs values k]
  by_cases hfront : op.written (specs.take k) (values.take k) = []
  · rw [hfront, List.nil_append, show op.join [] = [] from rfl, List.nil_append,
      join_eq_resumed_iff h]
    simp
  · exact iff_of_true (join_append h hfront _) (.inr (.inl hfront))

/-- An expression is cut behind a variable with a value. -/
theorem rendered_split {op rest : Operator} (h : op.resumed? = some rest)
    {specs : List VarSpec} {front : List Resolved}
    (hunits : op.written (specs.take front.length) front ≠ []) (back : List Resolved) :
    op.rendered specs (front ++ back) = op.rendered (specs.take front.length) front
      ++ rest.rendered (specs.drop front.length) back := by
  have hcut := rendered_cut_iff h specs (front ++ back) front.length
  rw [List.take_left, List.drop_left] at hcut
  exact hcut.mpr (.inr (.inl hunits))

end Operator

/-- **An expression goes on where it was cut.**  The operators `? & ; . /` can be
resumed, `?` by `&` and the others by themselves.  What an expression with such
an operator is rendered to is the rendering of its first `k` variables, followed
by that of the others under the operator that resumes it, if one of the first
`k` has a value; and without that condition if the operator is not `?`, or if
none of the others has a value either. -/
theorem Expression.render_cut (e : Expression)
    (hop : e.operator ∈ [Operator.query, .continuation, .parameter, .label, .path])
    {values : List Resolved} (hlength : values.length = e.varspecs.length)
    (hvalues : ∀ value ∈ values, value.Produced) (k : Nat) (body : Text) (position : Nat) :
    ∃ rest : Operator, e.operator.resumed? = some rest ∧
      rest = (if e.operator = .query then .continuation else e.operator) ∧
      ∃ whole front back : Text, (e.render values).outcome = .ok whole ∧
        (Expression.render { e with varspecs := e.varspecs.take k } (values.take k)).outcome
          = .ok front ∧
        (Expression.render ⟨body, rest, e.varspecs.drop k, position⟩ (values.drop k)).outcome
          = .ok back ∧
        (whole = front ++ back ↔ e.operator ≠ .query ∨
          (∃ value ∈ values.take k, value.isDefined = true) ∨
          ∀ value ∈ values.drop k, value.isDefined = false) := by
  obtain ⟨rest, hrest, hsame⟩ : ∃ rest, e.operator.resumed? = some rest ∧
      rest = (if e.operator = .query then .continuation else e.operator) := by
    simp only [List.mem_cons, List.not_mem_nil, or_false] at hop
    rcases hop with hop | hop | hop | hop | hop <;> rw [hop] <;> exact ⟨_, rfl, rfl⟩
  have hsound : ∀ value ∈ values, value.Sound := fun value hv => (hvalues value hv).sound
  have hfront : ∀ value ∈ values.take k, value.Sound :=
    fun value hv => hsound value (List.mem_of_mem_take hv)
  have hback : ∀ value ∈ values.drop k, value.Sound :=
    fun value hv => hsound value (List.mem_of_mem_drop hv)
  -- units are missing exactly where values are
  have hbefore : e.operator.written (e.varspecs.take k) (values.take k) ≠ [] ↔
      ∃ value ∈ values.take k, value.isDefined = true := by
    rw [ne_eq, e.operator.written_eq_nil_iff (by simp [hlength]) hfront]
    simp
  have hbehind : e.operator.written (e.varspecs.drop k) (values.drop k) = [] ↔
      ∀ value ∈ values.drop k, value.isDefined = false :=
    e.operator.written_eq_nil_iff (by simp [hlength]) hback
  refine ⟨rest, hrest, hsame, _, _, _, e.outcome_render hsound, Expression.outcome_render _ hfront,
    Expression.outcome_render _ hback, ?_⟩
  rw [← hbefore, ← hbehind]
  exact Operator.rendered_cut_iff hrest e.varspecs values k

/-- A query cut behind an exploded mapping and in front of an empty text; cut
one variable earlier, it has no unit before the cut. -/
theorem render_cut_query :
    let e : Expression :=
      ⟨lit "?u,y*,x", .query, [⟨lit "u", .none⟩, ⟨lit "y", .explode⟩, ⟨lit "x", .none⟩], 0⟩
    let values : List Resolved := [.undefined, .map [(lit "k", lit "é"), (lit "l", [])], .scalar []]
    (e.operator ∈ [Operator.query, .continuation, .parameter, .label, .path]) ∧
    values.length = e.varspecs.length ∧ (∀ value ∈ values, value.Produced) ∧
    (e.render values).outcome = .ok (lit "?k=%C3%A9&l=&x=") ∧
    (∃ front back : Text,
      (Expression.render { e with varspecs := e.varspecs.take 2 } (values.take 2)).outcome
        = .ok front ∧
      (Expression.render ⟨lit "&x", .continuation, e.varspecs.drop 2, 0⟩ (values.drop 2)).outcome
        = .ok back ∧
      lit "?k=%C3%A9&l=&x=" = front ++ back) ∧
    ∃ front back : Text,
      (Expression.render { e with varspecs := e.varspecs.take 1 } (values.take 1)).outcome
        = .ok front ∧
      (Expression.render ⟨lit "&y*,x", .continuation, e.varspecs.drop 1, 0⟩
        (values.drop 1)).outcome = .ok back ∧
      lit "?k=%C3%A9&l=&x=" ≠ front ++ back := by
  intro e values
  have hop : e.operator ∈ [Operator.query, .continuation, .parameter, .label, .path] :=
    List.mem_cons_self
  have hvalues : ∀ value ∈ values, value.Produced := by
    refine List.forall_mem_cons.mpr ⟨⟨.standard, .none, rfl⟩, ?_⟩
    refine List.forall_mem_cons.mpr ⟨⟨.standard,
      .map [(.str (lit "k"), .str (lit "é")), (.str (lit "l"), .str [])], rfl⟩, ?_⟩
    exact List.forall_mem_cons.mpr ⟨⟨.standard, .str [], rfl⟩, fun _ h => nomatch h⟩
  have hwhole : (e.render values).outcome = .ok (lit "?k=%C3%A9&l=&x=") :=
    eq_ok_of_toOption (by decide +kernel)
  refine ⟨hop, rfl, hvalues, hwhole, ?_, ?_⟩
  · obtain ⟨rest, -, rfl, whole, front, back, h, hfront, hback, hiff⟩ :=
      e.render_cut hop rfl hvalues 2 (lit "&x") 0
    obtain rfl := Except.ok.inj (hwhole.symm.trans h)
    exact ⟨front, back, hfront, hback, hiff.mpr (by decide)⟩
  · obtain ⟨rest, -, rfl, whole, front, back, h, hfront, hback, hiff⟩ :=
      e.render_cut hop rfl hvalues 1 (lit "&y*,x") 0
    obtain rfl := Except.ok.inj (hwhole.symm.trans h)
    exact ⟨front, back, hfront, hback, fun heq => absurd (hiff.mp heq) (by decide)⟩

end UriExpansion
