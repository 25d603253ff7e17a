/-
UriExpansion/Proofs/Recovery.lean

Values are recovered from an expansion under the operators `/`, `;`, `?` and `&`.

A `Datum` is what one unit is written for: a text under the name of its
variable, several texts under one name, or a pair.  `VarSpec.data` lists the
data of a variable with its value, and the units of the variable are these data
written one by one (`VarSpec.written_eq_map_write`).

Whoever reads an expansion sees the text alone.  The reader drops the opening
text of the operator, cuts the rest at every separator, and cuts a unit at its
first `=` (`Datum.ReadFrom`).  A value may hold any of these characters, but an
encoded value holds none, nor does a name (`Operator.not_mem_encoded`,
`Datum.not_mem_write`).  So every cut is one that the engine made, and
`render_recoverable` says that the units come back in order, each with the
datum it was written for.
-/
import Mathlib.Data.List.Forall2
import UriExpansion.Proofs.CanonicalText
import UriExpansion.Proofs.Streaming

namespace UriExpansion

open Percent

/-! ### Data -/

/-- What one unit of an expansion is written for. -/
inductive Datum
  /-- A text under the name of its variable. -/
  | text (name value : Text)
  /-- Several texts under one name, with commas between them. -/
  | texts (name : Text) (values : List Text)
  /-- A key with its value. -/
  | pair (key value : Text)

/-- The data of a variable with a resolved value: one for a scalar, one for
each member of an exploded composite, one for any other composite. -/
def VarSpec.data (spec : VarSpec) : Resolved → List Datum
  | .undefined => []
  | .scalar text => [.text spec.name (spec.modifier.keep text)]
  | .list items =>
    if spec.explodes then items.map (.text spec.name) else [.texts spec.name items]
  | .map pairs =>
    if spec.explodes then pairs.map fun e => .pair e.1 e.2
    else [.texts spec.name (pairs.flatMap fun e => [e.1, e.2])]

/-- The data of several variables with their values, in order. -/
def VarSpec.allData (specs : List VarSpec) (values : List Resolved) : List Datum :=
  (specs.zip values).flatMap fun x => x.1.data x.2

/-! ### Reading a unit -/

/-- What stands before the first `=` of a unit. -/
def unitKey (unit : Text) : Text := (unit.cutAt '=').1

/-- What stands behind the first `=` of a unit, and nothing if there is none. -/
def unitValue (unit : Text) : Text := (unit.cutAt '=').2.getD []

/-- What stands for the value in a unit, which carries a name or does not. -/
def Operator.valueOf (op : Operator) (unit : Text) : Text :=
  if op.named then unitValue unit else unit

/-- The datum is what the unit is read as. -/
def Datum.ReadFrom (op : Operator) (unit : Text) : Datum → Prop
  | .text name value =>
    (op.named = true → unitKey unit = name) ∧ decode (op.valueOf unit) = some value
  | .texts name values =>
    (op.named = true → unitKey unit = name) ∧
      ((op.valueOf unit).split ',').map decode = values.map some
  | .pair key value =>
    (op.named = false → CodePoint.scalar '=' ∈ unit) ∧
      decode (unitKey unit) = some key ∧ decode (unitValue unit) = some value

/-! ### Writing a unit -/

/-- The unit that is written for a datum. -/
def Datum.write (op : Operator) : Datum → Text
  | .text name value => op.unit name (op.encoded value)
  | .texts name values => op.unit name (List.intercalate (lit ",") (values.map op.encoded))
  | .pair key value =>
    if op.named then op.unit (op.encoded key) (op.encoded value)
    else op.encoded key ++ lit "=" ++ op.encoded value

/-- The units of a variable are its data, written one by one. -/
theorem VarSpec.written_eq_map_write (op : Operator) (spec : VarSpec) (value : Resolved) :
    spec.written op value = (spec.data value).map (Datum.write op) := by
  cases value with
  | undefined => rfl
  | scalar text => rfl
  | list items =>
    rw [written, data]
    split
    · rw [List.map_map]
      rfl
    · rfl
  | map pairs =>
    rw [written, data]
    split
    · rw [List.map_map]
      split
      · next hnamed => exact List.map_congr_left fun e _ => (if_pos hnamed).symm
      · next hnamed => exact List.map_congr_left fun e _ => (if_neg hnamed).symm
    · -- keys and values in turn are joined like the pairs
      have hjoin : List.intercalate (lit ",")
            (pairs.flatMap fun e => [op.encoded e.1, op.encoded e.2])
          = List.intercalate (lit ",") (pairs.map fun e =>
            op.encoded e.1 ++ lit "," ++ op.encoded e.2) := by
        rw [← Output.commaSeparated_eq_intercalate, Output.commaSeparated_flatMap]
      rw [← hjoin, List.map_singleton, Datum.write, List.map_flatMap]
      rfl

theorem Operator.written_eq_map_write (op : Operator) (specs : List VarSpec)
    (values : List Resolved) :
    op.written specs values = (VarSpec.allData specs values).map (Datum.write op) := by
  rw [written, VarSpec.allData, List.map_flatMap]
  simp only [VarSpec.written_eq_map_write]

/-! ### Operators whose units can be told apart -/

/-- Values are encoded strictly, and the separator is no character of a name
and no mark within a unit. -/
structure Operator.Separable (op : Operator) : Prop where
  strict : op.profile = .strict
  reserved : isUnreserved op.separator = false
  not_percent : op.separator ≠ CodePoint.scalar '%'
  not_equals : op.separator ≠ CodePoint.scalar '='
  not_comma : op.separator ≠ CodePoint.scalar ','

theorem Operator.separable {op : Operator}
    (h : op ∈ [Operator.path, .parameter, .query, .continuation]) : op.Separable := by
  simp only [List.mem_cons, List.not_mem_nil, or_false] at h
  rcases h with rfl | rfl | rfl | rfl <;>
    exact ⟨rfl, rfl, by decide, by decide, by decide⟩

namespace Operator

variable {op : Operator}

/-- No mark of an expansion occurs in an encoded value. -/
theorem not_mem_encoded (h : op.Separable) (t : Text) {c : CodePoint}
    (hc : isUnreserved c = false) (hp : c ≠ CodePoint.scalar '%') : c ∉ op.encoded t := by
  intro hm
  rw [encoded, h.strict] at hm
  rcases (canonicalText_encoded t).mem c hm with hu | hu
  · rw [hc] at hu
    cases hu
  · exact hp hu

theorem decode_encoded (h : op.Separable) {t : Text} (ht : Text.Encodable t) :
    decode (op.encoded t) = some t := by
  rw [encoded, h.strict, Percent.decode_encoded ht]

/-- A unit that carries a key is cut behind the key. -/
theorem cut_unit (h : op.named = true) {key : Text} (hkey : CodePoint.scalar '=' ∉ key)
    (value : Text) : unitKey (op.unit key value) = key ∧ unitValue (op.unit key value) = value := by
  have hbare : unitKey key = key ∧ unitValue key = [] := by
    rw [unitKey, unitValue, Text.cutAt_of_not_mem hkey]
    exact ⟨rfl, rfl⟩
  have hpair : ∀ u : Text, unitKey (key ++ lit "=" ++ u) = key ∧
      unitValue (key ++ lit "=" ++ u) = u := by
    intro u
    rw [List.append_assoc, show lit "=" ++ u = CodePoint.scalar '=' :: u from rfl, unitKey,
      unitValue, Text.cutAt_append hkey]
    exact ⟨rfl, rfl⟩
  unfold unit
  rw [if_pos h]
  rcases value with - | ⟨c, rest⟩
  · -- without a value the key stands alone or before a bare `=`
    have hempty : op.ifEmpty = [] ∨ op.ifEmpty = lit "=" ++ [] := by
      cases op <;> first | exact .inl rfl | exact .inr rfl
    rw [if_pos List.isEmpty_nil]
    rcases hempty with hempty | hempty
    · rw [hempty, List.append_nil]
      exact hbare
    · rw [hempty, ← List.append_assoc]
      exact hpair []
  · exact hpair (c :: rest)

theorem unit_of_not_named (h : op.named = false) (key value : Text) :
    op.unit key value = value := by
  rw [unit, h]
  rfl

theorem valueOf_unit {key : Text} (hkey : CodePoint.scalar '=' ∉ key) (value : Text) :
    (op.named = true → unitKey (op.unit key value) = key) ∧
      op.valueOf (op.unit key value) = value := by
  rw [valueOf]
  cases h : op.named with
  | true => exact ⟨fun _ => (cut_unit h hkey value).1, (cut_unit h hkey value).2⟩
  | false => exact ⟨nofun, unit_of_not_named h key value⟩

/-- What occurs neither in the key nor in the value, and is no `=`, does not
occur in the unit. -/
theorem not_mem_unit {c : CodePoint} (hc : c ≠ CodePoint.scalar '=') {key value : Text}
    (hkey : c ∉ key) (hvalue : c ∉ value) : c ∉ op.unit key value := by
  have hequals : c ∉ lit "=" := fun hm => hc (List.mem_singleton.mp hm)
  have hempty : c ∉ op.ifEmpty := by
    cases op <;> first | exact List.not_mem_nil | exact hequals
  unfold unit
  split
  · split
    · exact fun hm => (List.mem_append.mp hm).elim hkey hempty
    · intro hm
      rcases List.mem_append.mp hm with hm | hm
      · exact (List.mem_append.mp hm).elim hkey hequals
      · exact hvalue hm
  · exact hvalue

end Operator

/-! ### Sound data -/

namespace Datum

/-- A datum of a variable that can be read, with a value that resolution can
produce. -/
def Sound : Datum → Prop
  | text name value => VarSpec.Name name ∧ Text.Encodable value
  | texts name values =>
    VarSpec.Name name ∧ values ≠ [] ∧ ∀ value ∈ values, Text.Encodable value
  | pair key value => Text.Encodable key ∧ Text.Encodable value

theorem sound_of_mem_data {spec : VarSpec} (hspec : spec.WellFormed) {value : Resolved}
    (hvalue : value.Sound) : ∀ datum ∈ spec.data value, datum.Sound := by
  have hname : VarSpec.Name spec.name := hspec.isName
  intro datum hdatum
  cases value with
  | undefined => cases hdatum
  | scalar text =>
    obtain rfl := List.mem_singleton.mp hdatum
    exact ⟨hname, spec.modifier.encodable_keep hvalue⟩
  | list items =>
    obtain ⟨hne, hitems⟩ := hvalue
    rw [VarSpec.data] at hdatum
    split at hdatum
    · obtain ⟨item, hitem, rfl⟩ := List.mem_map.mp hdatum
      exact ⟨hname, hitems item hitem⟩
    · obtain rfl := List.mem_singleton.mp hdatum
      exact ⟨hname, hne, hitems⟩
  | map pairs =>
    obtain ⟨hne, hpairs⟩ := hvalue
    rw [VarSpec.data] at hdatum
    split at hdatum
    · obtain ⟨pair, hpair, rfl⟩ := List.mem_map.mp hdatum
      exact hpairs pair hpair
    · obtain rfl := List.mem_singleton.mp hdatum
      refine ⟨hname, ?_, fun text htext => ?_⟩
      · obtain ⟨pair, pairs, rfl⟩ := List.exists_cons_of_ne_nil hne
        exact List.cons_ne_nil _ _
      · obtain ⟨pair, hpair, htext⟩ := List.mem_flatMap.mp htext
        simp only [List.mem_cons, List.not_mem_nil, or_false] at htext
        rcases htext with rfl | rfl
        · exact (hpairs pair hpair).1
        · exact (hpairs pair hpair).2

theorem sound_of_mem_allData {specs : List VarSpec} {values : List Resolved}
    (hspecs : ∀ spec ∈ specs, spec.WellFormed) (hvalues : ∀ value ∈ values, value.Sound) :
    ∀ datum ∈ VarSpec.allData specs values, datum.Sound := by
  intro datum hdatum
  obtain ⟨⟨spec, value⟩, hx, hdatum⟩ := List.mem_flatMap.mp hdatum
  obtain ⟨hspec, hvalue⟩ := List.of_mem_zip hx
  exact sound_of_mem_data (hspecs spec hspec) (hvalues value hvalue) datum hdatum

variable {op : Operator}

/-- The separator does not occur in a unit. -/
theorem not_mem_write (hop : op.Separable) {datum : Datum} (h : datum.Sound) :
    op.separator ∉ datum.write op := by
  have hencoded : ∀ t, op.separator ∉ op.encoded t :=
    fun t => op.not_mem_encoded hop t hop.reserved hop.not_percent
  have hname : ∀ {name}, VarSpec.Name name → op.separator ∉ name :=
    fun hname => hname.not_mem hop.reserved hop.not_percent
  have happend : ∀ t u : Text, op.separator ∉ t → op.separator ∉ u → op.separator ∉ t ++ u :=
    fun t u ht hu hm => (List.mem_append.mp hm).elim ht hu
  cases datum with
  | text name value => exact Operator.not_mem_unit hop.not_equals (hname h.1) (hencoded value)
  | texts name values =>
    have hcomma : op.separator ∉ lit "," := fun hm => hop.not_comma (List.mem_singleton.mp hm)
    refine Operator.not_mem_unit hop.not_equals (hname h.1) ?_
    refine Text.intercalate_induction List.not_mem_nil happend hcomma fun t ht => ?_
    obtain ⟨value, -, rfl⟩ := List.mem_map.mp ht
    exact hencoded value
  | pair key value =>
    have hequals : op.separator ∉ lit "=" := fun hm => hop.not_equals (List.mem_singleton.mp hm)
    rw [write]
    split
    · exact Operator.not_mem_unit hop.not_equals (hencoded key) (hencoded value)
    · exact happend _ _ (happend _ _ (hencoded key) hequals) (hencoded value)

/-- **A datum is read from the unit that was written for it.** -/
theorem readFrom_write (hop : op.Separable) {datum : Datum} (h : datum.Sound) :
    datum.ReadFrom op (datum.write op) := by
  have hequals : ∀ t, CodePoint.scalar '=' ∉ op.encoded t :=
    fun t => op.not_mem_encoded hop t rfl (by decide)
  cases datum with
  | text name value =>
    obtain ⟨hkey, hvalue⟩ := op.valueOf_unit (h.1.not_mem rfl (by decide)) (op.encoded value)
    refine ⟨hkey, ?_⟩
    rw [write, hvalue, Operator.decode_encoded hop h.2]
  | texts name values =>
    obtain ⟨hname, hne, hvalues⟩ := h
    obtain ⟨hkey, hvalue⟩ := op.valueOf_unit (hname.not_mem rfl (by decide))
      (List.intercalate (lit ",") (values.map op.encoded))
    refine ⟨hkey, ?_⟩
    -- no comma stands in an encoded text, so that the cuts are those between the texts
    have hsplit : Text.split ',' (List.intercalate (lit ",") (values.map op.encoded))
        = values.map op.encoded := by
      refine Text.split_intercalate (by simpa using hne) fun t ht => ?_
      obtain ⟨value, -, rfl⟩ := List.mem_map.mp ht
      exact op.not_mem_encoded hop value rfl (by decide)
    rw [write, hvalue, hsplit, List.map_map]
    exact List.map_congr_left fun value hv => Operator.decode_encoded hop (hvalues value hv)
  | pair key value =>
    obtain ⟨hkey, hvalue⟩ := h
    rw [write]
    cases hnamed : op.named with
    | true =>
      obtain ⟨hcut, hcut'⟩ := op.cut_unit hnamed (hequals key) (op.encoded value)
      refine ⟨fun h => absurd (hnamed.symm.trans h) (by decide), ?_, ?_⟩
      · rw [if_pos rfl, hcut, Operator.decode_encoded hop hkey]
      · rw [if_pos rfl, hcut', Operator.decode_encoded hop hvalue]
    | false =>
      have hcut := Text.cutAt_append (hequals key) (op.encoded value)
      rw [if_neg Bool.false_ne_true, List.append_assoc,
        show lit "=" ++ op.encoded value = CodePoint.scalar '=' :: op.encoded value from rfl]
      refine ⟨fun _ => List.mem_append_right _ List.mem_cons_self, ?_, ?_⟩
      · rw [unitKey, hcut, Operator.decode_encoded hop hkey]
      · rw [unitValue, hcut, Option.getD_some, Operator.decode_encoded hop hvalue]

end Datum

/-! ### Expansions -/

/-- Variables of which one has a value have a datum. -/
theorem VarSpec.written_ne_nil_of_exists (op : Operator) {specs : List VarSpec}
    {values : List Resolved} (hlen : values.length = specs.length)
    (hsound : ∀ value ∈ values, value.Sound) (hd : ∃ value ∈ values, value.isDefined = true) :
    op.written specs values ≠ [] := by
  obtain ⟨value, hvalue, hd⟩ := hd
  obtain ⟨i, hi, rfl⟩ := List.mem_iff_getElem.mp hvalue
  have hx : (specs[i], values[i]) ∈ specs.zip values := by
    have hzip : i < (specs.zip values).length := by
      rw [List.length_zip]
      omega
    rw [← List.getElem_zip (h := hzip)]
    exact List.getElem_mem hzip
  obtain ⟨unit, hunit⟩ := List.exists_mem_of_ne_nil _
    (specs[i].written_ne_nil op (hsound _ hvalue) hd)
  exact List.ne_nil_of_mem (List.mem_flatMap.mpr ⟨_, hx, hunit⟩)

/-- **Values cannot inject structure under the operators `/`, `;`, `?` and
`&`.**  Behind the operator's opening text, the separators of an expansion cut
it into the units of its variables, and from each unit its datum is read back. -/
theorem Expression.render_recoverable {body : Text} {position : Nat} {e : Expression}
    (he : read body position = .ok e)
    (hop : e.operator ∈ [Operator.path, .parameter, .query, .continuation])
    {values : List Resolved} (hlen : values.length = e.varspecs.length)
    (hsound : ∀ value ∈ values, value.Sound) (hd : ∃ value ∈ values, value.isDefined = true) :
    ∃ rest, (e.render values).outcome = .ok (e.operator.first ++ rest) ∧
      e.operator.units (e.varspecs.zip values) = .ok (rest.split e.operator.separator) ∧
      List.Forall₂ (fun unit datum => Datum.ReadFrom e.operator unit datum)
        (rest.split e.operator.separator) (VarSpec.allData e.varspecs values) := by
  have hseparable := Operator.separable hop
  obtain ⟨-, -, hbody⟩ := read_eq_ok he
  have hdata : ∀ datum ∈ VarSpec.allData e.varspecs values, datum.Sound :=
    Datum.sound_of_mem_allData (readBody_sound hbody).each hsound
  have hne := VarSpec.written_ne_nil_of_exists e.operator hlen hsound hd
  have hwritten := e.operator.written_eq_map_write e.varspecs values
  have hsplit : Text.split e.operator.separator
      (List.intercalate [e.operator.separator] (e.operator.written e.varspecs values))
      = e.operator.written e.varspecs values := by
    refine Text.split_intercalate hne fun unit hunit => ?_
    rw [hwritten] at hunit
    obtain ⟨datum, hdatum, rfl⟩ := List.mem_map.mp hunit
    exact Datum.not_mem_write hseparable (hdata datum hdatum)
  refine ⟨List.intercalate [e.operator.separator] (e.operator.written e.varspecs values),
    ?_, ?_, ?_⟩
  · rw [e.outcome_render hsound, Operator.rendered, Operator.join,
      if_neg (by simpa using hne)]
  · rw [hsplit]
    exact e.operator.units_eq_ok fun x hx => hsound x.2 (List.of_mem_zip hx).2
  · rw [hsplit, hwritten, List.forall₂_map_left_iff, List.forall₂_same]
    exact fun datum hdatum => Datum.readFrom_write hseparable (hdata datum hdatum)

/-- Values full of separators, empty texts and a bare key under `;`. -/
theorem Expression.render_separators_recovered :
    let e : Expression := ⟨lit ";x:5,l,m*", .parameter,
      [⟨lit "x", .upTo 5⟩, ⟨lit "l", .none⟩, ⟨lit "m", .explode⟩], 0⟩
    let values : List Resolved := [.scalar (lit "a;b=é&"), .list [[], lit ","],
      .map [(lit "k=", []), ([], lit "%41")]]
    read (lit ";x:5,l,m*") 0 = .ok e ∧
      e.operator ∈ [Operator.path, .parameter, .query, .continuation] ∧
      values.length = e.varspecs.length ∧ (∀ value ∈ values, value.Sound) ∧
      (∃ value ∈ values, value.isDefined = true) ∧
      (e.render values).outcome = .ok (lit ";x=a%3Bb%3D%C3%A9;l=,%2C;k%3D;=%2541") ∧
      List.Forall₂ (fun unit datum => Datum.ReadFrom .parameter unit datum)
        [lit "x=a%3Bb%3D%C3%A9", lit "l=,%2C", lit "k%3D", lit "=%2541"]
        [.text (lit "x") (lit "a;b=é"), .texts (lit "l") [[], lit ","],
          .pair (lit "k=") [], .pair [] (lit "%41")] := by
  intro e values
  have he : read (lit ";x:5,l,m*") 0 = .ok e := eq_ok_of_toOption (by decide +kernel)
  have hop : e.operator ∈ [Operator.path, .parameter, .query, .continuation] := by decide
  have hsound : ∀ value ∈ values, value.Sound := by
    refine List.forall_mem_cons.mpr ⟨show Text.Encodable _ by decide, ?_⟩
    refine List.forall_mem_cons.mpr ⟨⟨List.cons_ne_nil _ _, by decide⟩, ?_⟩
    exact List.forall_mem_singleton.mpr ⟨List.cons_ne_nil _ _, by decide⟩
  have hd : ∃ value ∈ values, value.isDefined = true := ⟨_, List.mem_cons_self, rfl⟩
  have htext : (e.render values).outcome = .ok (lit ";x=a%3Bb%3D%C3%A9;l=,%2C;k%3D;=%2541") :=
    eq_ok_of_toOption (by decide +kernel)
  obtain ⟨rest, hrest, -, hread⟩ := render_recoverable he hop rfl hsound hd
  -- the text without its opening mark is what is cut
  obtain rfl : rest = lit "x=a%3Bb%3D%C3%A9;l=,%2C;k%3D;=%2541" :=
    (List.cons.inj (Except.ok.inj (hrest.symm.trans htext))).2
  have hcut : Text.split ';' (lit "x=a%3Bb%3D%C3%A9;l=,%2C;k%3D;=%2541")
      = [lit "x=a%3Bb%3D%C3%A9", lit "l=,%2C", lit "k%3D", lit "=%2541"] := by decide +kernel
  rw [show e.operator.separator = CodePoint.scalar ';' from rfl, hcut] at hread
  exact ⟨he, hop, rfl, hsound, hd, htext, hread⟩

end UriExpansion
