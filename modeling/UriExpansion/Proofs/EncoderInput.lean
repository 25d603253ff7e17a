/-
UriExpansion/Proofs/EncoderInput.lean

The texts that an expansion gives to the encoder.

The encoder fails on a surrogate and has no way to say so but a fault, which no
policy softens.  To speak about the texts that it is given, the expansion is
written down a second time as a computation that keeps a record: `Recorded` is
an outcome with the texts that have been encoded on the way to it, and each
function of the expansion has a counterpart in which `Recorded.encode` takes the
place of the encoder.  A record changes no outcome (`Template.outcome_recordExpand`,
`Template.outcome_recordExpandPartial`), whatever the template and the store are.

What stands in the record is said without the record (`Component.Carries`):
literals, what a prefix keeps of a scalar, members of composites.  An expansion
that ends in a text has encoded just these (`Template.encodes_recordExpand`), a
partial expansion those of the expressions that it renders.  The scanner has
searched the literals and the resolution the others, so that none of them holds a
surrogate, also where an expansion fails half-way (`Recorded.Safe`).
-/
import UriExpansion.Proofs.RetainedText
import UriExpansion.Proofs.Residue

namespace UriExpansion

/-! ### Computations with a record -/

/-- A computation with the texts that it has given to the encoder. -/
structure Recorded (α : Type) where
  texts : List Text
  outcome : Except Failure α

namespace Recorded

variable {α β : Type}

/-- A computation that encodes nothing. -/
def ofExcept (x : Except Failure α) : Recorded α := ⟨[], x⟩

/-- The second computation runs if the first ends in a value; its record follows. -/
def bind (x : Recorded α) (f : α → Recorded β) : Recorded β :=
  match x.outcome with
  | .error e => ⟨x.texts, .error e⟩
  | .ok a => ⟨x.texts ++ (f a).texts, (f a).outcome⟩

instance : Monad Recorded where
  pure a := ofExcept (.ok a)
  bind := bind

/-- Encodes a text and records it. -/
def encode (p : Percent.Profile) (t : Text) : Recorded Text :=
  ⟨[t], (Percent.encode p t).mapError .fault⟩

/-- Runs `f` on every element in order and collects the values. -/
def forEach (f : α → Recorded β) : List α → Recorded (List β)
  | [] => pure []
  | a :: as => do
    let b ← f a
    let bs ← forEach f as
    return b :: bs

theorem outcome_bind (x : Recorded α) (f : α → Recorded β) :
    (x >>= f).outcome = x.outcome >>= fun a => (f a).outcome := by
  show (bind x f).outcome = _
  unfold bind
  rcases x.outcome with e | a <;> rfl

theorem outcome_forEach (f : α → Recorded β) (as : List α) :
    (forEach f as).outcome = as.mapM fun a => (f a).outcome := by
  induction as with
  | nil => rfl
  | cons a as ih =>
    rw [forEach, outcome_bind, List.mapM_cons]
    refine congrArg _ (funext fun b => ?_)
    rw [outcome_bind, ih]
    rfl

/-- No text with a surrogate has been given to the encoder. -/
def Safe (x : Recorded α) : Prop := ∀ text ∈ x.texts, Text.Encodable text

theorem safe_ofExcept (x : Except Failure α) : (ofExcept x).Safe :=
  fun _ h => absurd h List.not_mem_nil

theorem Safe.bind {x : Recorded α} (hx : x.Safe) {f : α → Recorded β}
    (hf : ∀ a, x.outcome = .ok a → (f a).Safe) : (x >>= f).Safe := by
  show (Recorded.bind x f).Safe
  unfold Recorded.bind
  split
  · exact hx
  · next a ha => exact List.forall_mem_append.mpr ⟨hx, hf a ha⟩

theorem safe_forEach {f : α → Recorded β} {as : List α} (h : ∀ a ∈ as, (f a).Safe) :
    (forEach f as).Safe := by
  induction as with
  | nil => exact safe_ofExcept _
  | cons a as ih =>
    obtain ⟨ha, has⟩ := List.forall_mem_cons.mp h
    exact ha.bind fun b _ => (ih has).bind fun bs _ => safe_ofExcept _

/-- The computation ends in a value, and `P` says which texts it has encoded. -/
structure Encodes (x : Recorded α) (P : Text → Prop) : Prop where
  ends : ∃ a, x.outcome = .ok a
  mem_iff : ∀ text, text ∈ x.texts ↔ P text

section
variable {x : Recorded α} {P Q : Text → Prop}

theorem Encodes.congr (hx : x.Encodes P) (h : ∀ text, P text ↔ Q text) : x.Encodes Q :=
  ⟨hx.ends, fun text => (hx.mem_iff text).trans (h text)⟩

theorem Encodes.safe (hx : x.Encodes P) (h : ∀ text, P text → Text.Encodable text) : x.Safe :=
  fun text htext => h text ((hx.mem_iff text).mp htext)

theorem encodes_pure (a : α) : (pure a : Recorded α).Encodes fun _ => False :=
  ⟨⟨a, rfl⟩, fun _ => iff_of_false List.not_mem_nil id⟩

theorem encodes_encode (p : Percent.Profile) {t : Text} (h : Text.Encodable t) :
    (encode p t).Encodes fun text => text = t := by
  refine ⟨⟨Percent.encoded p t, ?_⟩, fun text => List.mem_singleton⟩
  rw [encode, Percent.encode_eq_ok p h]
  rfl

theorem Encodes.bind (hx : x.Encodes P) {f : α → Recorded β}
    (hf : ∀ a, x.outcome = .ok a → (f a).Encodes Q) :
    (x >>= f).Encodes fun text => P text ∨ Q text := by
  obtain ⟨a, ha⟩ := hx.ends
  have hbind : (x >>= f) = ⟨x.texts ++ (f a).texts, (f a).outcome⟩ := by
    show Recorded.bind x f = _
    unfold Recorded.bind
    rw [ha]
  rw [hbind]
  refine ⟨(hf a ha).ends, fun text => ?_⟩
  rw [List.mem_append, hx.mem_iff, (hf a ha).mem_iff]

/-- The value can be changed afterwards. -/
theorem Encodes.bind_pure (hx : x.Encodes P) (g : α → β) :
    (x >>= fun a => pure (g a)).Encodes P :=
  (hx.bind fun a _ => encodes_pure (g a)).congr fun _ => or_iff_left id

theorem encodes_forEach {f : α → Recorded β} {as : List α} {P : α → Text → Prop}
    (h : ∀ a ∈ as, (f a).Encodes (P a)) :
    (forEach f as).Encodes fun text => ∃ a ∈ as, P a text := by
  induction as with
  | nil => exact (encodes_pure []).congr fun text => by simp
  | cons a as ih =>
    obtain ⟨ha, has⟩ := List.forall_mem_cons.mp h
    refine (ha.bind fun b _ => (ih has).bind_pure (b :: ·)).congr fun text => ?_
    rw [List.exists_mem_cons_iff]

end

end Recorded

/-! ### Units -/

namespace Operator

/-- Texts encoded under an operator, on record. -/
def recordAll (op : Operator) : List Text → Recorded (List Text) :=
  Recorded.forEach (Recorded.encode op.profile)

/-- Pairs encoded under an operator, on record. -/
def recordPairs (op : Operator) : List (Text × Text) → Recorded (List (Text × Text)) :=
  Recorded.forEach fun e => do
    let key ← Recorded.encode op.profile e.1
    let value ← Recorded.encode op.profile e.2
    return (key, value)

theorem outcome_recordAll (op : Operator) (ts : List Text) :
    (op.recordAll ts).outcome = (op.encodeAll ts).mapError .fault := by
  induction ts with
  | nil => rfl
  | cons t ts ih =>
    rw [recordAll, Recorded.outcome_forEach] at ih
    rw [recordAll, Recorded.outcome_forEach, List.mapM_cons, ih, encodeAll]
    show (Percent.encode op.profile t).mapError Failure.fault >>= _ = _
    rcases Percent.encode op.profile t with f | head
    · rfl
    · rcases op.encodeAll ts with f | tail <;> rfl

theorem outcome_recordPairs (op : Operator) (ps : List (Text × Text)) :
    (op.recordPairs ps).outcome = (op.encodePairs ps).mapError .fault := by
  induction ps with
  | nil => rfl
  | cons p ps ih =>
    obtain ⟨k, v⟩ := p
    rw [recordPairs, Recorded.outcome_forEach] at ih
    rw [recordPairs, Recorded.outcome_forEach, List.mapM_cons, ih, encodePairs]
    simp only [Recorded.outcome_bind, Recorded.encode]
    rcases Percent.encode op.profile k with f | key
    · rfl
    · rcases Percent.encode op.profile v with f | value
      · rfl
      · rcases op.encodePairs ps with f | tail <;> rfl

theorem encodes_recordAll (op : Operator) {ts : List Text} (h : ∀ t ∈ ts, Text.Encodable t) :
    (op.recordAll ts).Encodes (· ∈ ts) :=
  (Recorded.encodes_forEach fun t ht => Recorded.encodes_encode op.profile (h t ht)).congr
    fun _ => exists_eq_right'

theorem encodes_recordPairs (op : Operator) {ps : List (Text × Text)}
    (h : ∀ p ∈ ps, Text.Encodable p.1 ∧ Text.Encodable p.2) :
    (op.recordPairs ps).Encodes fun text => ∃ p ∈ ps, text = p.1 ∨ text = p.2 :=
  Recorded.encodes_forEach fun p hp =>
    (Recorded.encodes_encode op.profile (h p hp).1).bind fun key _ =>
      (Recorded.encodes_encode op.profile (h p hp).2).bind_pure fun value => (key, value)

end Operator

namespace VarSpec

/-- The units of a variable, on record. -/
def recordUnits (op : Operator) (spec : VarSpec) : Resolved → Recorded (List Text)
  | .undefined => pure []
  | .scalar text => do
    let encoded ← Recorded.encode op.profile (spec.modifier.keep text)
    return [op.unit spec.name encoded]
  | .list items => do
    let encoded ← op.recordAll items
    return if spec.explodes then encoded.map (op.unit spec.name)
      else [op.unit spec.name (List.intercalate (lit ",") encoded)]
  | .map pairs => do
    let encoded ← op.recordPairs pairs
    return if spec.explodes then
        if op.named then encoded.map fun e => op.unit e.1 e.2
        else encoded.map fun e => e.1 ++ lit "=" ++ e.2
      else
        [op.unit spec.name (List.intercalate (lit ",") (encoded.map fun e => e.1 ++ lit "," ++ e.2))]

theorem outcome_recordUnits (op : Operator) (spec : VarSpec) (value : Resolved) :
    (spec.recordUnits op value).outcome = (spec.units op value).mapError .fault := by
  cases value with
  | undefined => rfl
  | scalar text =>
    rw [recordUnits, Recorded.outcome_bind, units]
    show (Percent.encode op.profile (spec.modifier.keep text)).mapError Failure.fault >>= _ = _
    rcases Percent.encode op.profile (spec.modifier.keep text) with f | encoded <;> rfl
  | list items =>
    rw [recordUnits, Recorded.outcome_bind, op.outcome_recordAll, units]
    rcases op.encodeAll items with f | encoded <;> rfl
  | map pairs =>
    rw [recordUnits, Recorded.outcome_bind, op.outcome_recordPairs, units]
    rcases op.encodePairs pairs with f | encoded <;> rfl

/-- The texts of a value that a variable has encoded: what its prefix keeps of a
scalar, and every text of a composite. -/
def payload (spec : VarSpec) : Resolved → List Text
  | .scalar text => [spec.modifier.keep text]
  | value => value.texts

theorem encodable_payload (spec : VarSpec) {value : Resolved} (h : value.Sound) :
    ∀ text ∈ spec.payload value, Text.Encodable text := by
  cases value with
  -- what a prefix leaves of a text holds no more than the text
  | scalar text => exact List.forall_mem_singleton.mpr (spec.modifier.encodable_keep h)
  | undefined => exact h.encodable
  | list items => exact h.encodable
  | map pairs => exact h.encodable

theorem encodes_recordUnits (op : Operator) (spec : VarSpec) {value : Resolved}
    (h : value.Sound) : (spec.recordUnits op value).Encodes (· ∈ spec.payload value) := by
  cases value with
  | undefined => exact (Recorded.encodes_pure []).congr fun _ => (iff_false_intro List.not_mem_nil).symm
  | scalar text =>
    have hkept : Text.Encodable (spec.modifier.keep text) := spec.modifier.encodable_keep h
    exact ((Recorded.encodes_encode op.profile hkept).bind_pure _).congr
      fun _ => List.mem_singleton.symm
  | list items => exact (op.encodes_recordAll h.2).bind_pure _
  | map pairs =>
    refine ((op.encodes_recordPairs h.2).bind_pure _).congr fun text => ?_
    simp [payload, Resolved.texts]

end VarSpec

namespace Operator

/-- The units of several variables with their values, on record. -/
def recordUnits (op : Operator) : List (VarSpec × Resolved) → Recorded (List Text)
  | [] => pure []
  | (spec, value) :: rest => do
    let head ← spec.recordUnits op value
    let tail ← recordUnits op rest
    return head ++ tail

theorem outcome_recordUnits (op : Operator) (pairs : List (VarSpec × Resolved)) :
    (op.recordUnits pairs).outcome = (op.units pairs).mapError .fault := by
  induction pairs with
  | nil => rfl
  | cons x pairs ih =>
    obtain ⟨spec, value⟩ := x
    rw [recordUnits, Recorded.outcome_bind, VarSpec.outcome_recordUnits, units]
    rcases spec.units op value with f | head
    · rfl
    · show (op.recordUnits pairs >>= _).outcome = _
      rw [Recorded.outcome_bind, ih]
      rcases op.units pairs with f | tail <;> rfl

theorem encodes_recordUnits (op : Operator) {pairs : List (VarSpec × Resolved)}
    (h : ∀ x ∈ pairs, x.2.Sound) :
    (op.recordUnits pairs).Encodes fun text => ∃ x ∈ pairs, text ∈ x.1.payload x.2 := by
  induction pairs with
  | nil => exact (Recorded.encodes_pure []).congr fun text => by simp
  | cons x pairs ih =>
    obtain ⟨hx, hpairs⟩ := List.forall_mem_cons.mp h
    refine ((x.1.encodes_recordUnits op hx).bind fun head _ =>
      (ih hpairs).bind_pure (head ++ ·)).congr fun text => ?_
    rw [List.exists_mem_cons_iff]

end Operator

/-! ### Expressions -/

namespace Expression

/-- The expansion of an expression whose variables have the given values, on
record. -/
def recordRender (e : Expression) (values : List Resolved) : Recorded Text := do
  let units ← e.operator.recordUnits (e.varspecs.zip values)
  return e.operator.join units

/-- The values of the variables of an expression; resolution encodes nothing. -/
def recordValues (e : Expression) (store : Store) (s : Settings) : Recorded (List Resolved) :=
  Recorded.ofExcept (Traced.forEach (e.resolve store s) e.varspecs).outcome

/-- What partial expansion makes of an expression with the given values, on
record. -/
def recordPartially (e : Expression) (values : List Resolved) : Recorded Text :=
  if values.all Resolved.isDefined then e.recordRender values
  else
    let lead := (values.takeWhile Resolved.isDefined).length
    match e.operator.resumed? with
    | none => pure e.toText
    | some op =>
      if lead = 0 ∨ (values.drop lead).any Resolved.isDefined then pure e.toText
      else do
        let head : Expression := { e with varspecs := e.varspecs.take lead }
        let text ← head.recordRender (values.take lead)
        let rest := VarSpec.listToText (e.varspecs.drop lead)
        return text ++ braced (op.symbol ++ rest)

theorem outcome_recordRender (e : Expression) (values : List Resolved) :
    (e.recordRender values).outcome = (e.render values).outcome := by
  rw [recordRender, Recorded.outcome_bind, Operator.outcome_recordUnits, render,
    Traced.outcome_bind]
  show _ = (e.operator.units (e.varspecs.zip values)).mapError Failure.fault >>= _
  rcases e.operator.units (e.varspecs.zip values) with f | units <;> rfl

theorem outcome_recordPartially (e : Expression) (values : List Resolved) :
    (e.recordPartially values).outcome = (e.renderPartially values).outcome := by
  rw [recordPartially, renderPartially]
  by_cases hall : values.all Resolved.isDefined = true
  · rw [if_pos hall, if_pos hall]
    exact e.outcome_recordRender values
  · rw [if_neg hall, if_neg hall]
    rcases e.operator.resumed? with - | op
    · rfl
    · dsimp only
      split
      · rfl
      -- a continuation: the variables in front are rendered, the others written out
      · rw [Recorded.outcome_bind, Traced.outcome_bind, outcome_recordRender]
        rfl

/-- The text is one of those that the variables of the expression have encoded. -/
def Carries (store : Store) (s : Settings) (e : Expression) (text : Text) : Prop :=
  ∃ spec ∈ e.varspecs, ∃ value, store.meaning s spec.name = .ok value ∧ text ∈ spec.payload value

/-- Partial expansion renders the expression, or the variables in front of it. -/
def Advances (store : Store) (s : Settings) (e : Expression) : Prop :=
  ¬ e.Open store s ∨ ∃ op n, e.ResumesAt store s op n

variable {store : Store} {s : Settings} {e : Expression} {values : List Resolved} {text : Text}

theorem meanings_of_recordValues (h : (e.recordValues store s).outcome = .ok values) :
    store.meanings s e.varspecs = .ok values := by
  have hvalues : (Traced.forEach (e.resolve store s) e.varspecs).outcome = .ok values := h
  rwa [outcome_forEach_resolve, mapError_eq_ok] at hvalues

/-- Resolution encodes nothing. -/
theorem encodes_recordValues (hvalues : store.meanings s e.varspecs = .ok values) :
    (e.recordValues store s).Encodes fun _ => False := by
  have hends : (e.recordValues store s).outcome = .ok values := by
    rw [recordValues, outcome_forEach_resolve, hvalues]
    rfl
  exact ⟨⟨values, hends⟩, fun text => iff_of_false List.not_mem_nil id⟩

theorem carries_iff (hvalues : store.meanings s e.varspecs = .ok values) :
    e.Carries store s text ↔ ∃ x ∈ e.varspecs.zip values, text ∈ x.1.payload x.2 := by
  have hrelated := mapM_eq_ok_iff.mp hvalues
  clear hvalues
  rw [Carries]
  generalize e.varspecs = specs at hrelated ⊢
  induction hrelated with
  | nil => simp
  | cons hvalue _ ih =>
    rw [List.zip_cons_cons, List.exists_mem_cons_iff, List.exists_mem_cons_iff]
    refine or_congr ?_ ih
    rw [hvalue]
    exact ⟨fun ⟨_, heq, htext⟩ => Except.ok.inj heq ▸ htext, fun htext => ⟨_, rfl, htext⟩⟩

theorem Carries.encodable (h : e.Carries store s text) : Text.Encodable text := by
  obtain ⟨spec, -, value, hvalue, htext⟩ := h
  exact spec.encodable_payload (Store.meaning_sound hvalue) text htext

/-- Rendering encodes the texts of the variables. -/
theorem encodes_recordRender (hvalues : store.meanings s e.varspecs = .ok values) :
    (e.recordRender values).Encodes (e.Carries store s) := by
  have hpairs : ∀ x ∈ e.varspecs.zip values, x.2.Sound :=
    fun x hx => Store.meanings_sound hvalues x.2 (List.of_mem_zip hx).2
  exact ((e.operator.encodes_recordUnits hpairs).bind_pure _).congr
    fun text => (carries_iff hvalues).symm

/-- Where an expression goes on, the variables in front carry all its texts. -/
theorem ResumesAt.carries_iff {op : Operator} {n : Nat} (h : e.ResumesAt store s op n) :
    Carries store s { e with varspecs := e.varspecs.take n } text ↔ e.Carries store s text := by
  constructor
  · rintro ⟨spec, hspec, hcarries⟩
    exact ⟨spec, List.mem_of_mem_take hspec, hcarries⟩
  · rintro ⟨spec, hspec, value, hvalue, htext⟩
    rw [← List.take_append_drop n e.varspecs] at hspec
    rcases List.mem_append.mp hspec with hspec | hspec
    · exact ⟨spec, hspec, value, hvalue, htext⟩
    -- a variable behind has no value and so no text
    · have hnone := h.undefined spec hspec
      rw [← Store.isDefined_iff_defines hvalue] at hnone
      cases value with
      | undefined => cases htext
      | scalar t => exact absurd rfl hnone
      | list items => exact absurd rfl hnone
      | map pairs => exact absurd rfl hnone

/-- Partial expansion encodes the texts of an expression that it renders, and none
of one that it keeps. -/
theorem encodes_recordPartially (hvalues : store.meanings s e.varspecs = .ok values) :
    (e.recordPartially values).Encodes fun text =>
      e.Advances store s ∧ e.Carries store s text := by
  rw [recordPartially]
  split
  · next hall =>
    have hdefined := (Store.forall_defines_iff hvalues).mpr (List.all_eq_true.mp hall)
    have hclosed : ¬ e.Open store s := fun ⟨spec, hspec, hnot⟩ => hnot (hdefined spec hspec)
    exact (encodes_recordRender hvalues).congr fun _ => (and_iff_right (.inl hclosed)).symm
  · next hall =>
    have hkept : (∀ op n, ¬ e.ResumesAt store s op n) → (pure e.toText : Recorded Text).Encodes
        fun text => e.Advances store s ∧ e.Carries store s text := by
      intro hnot
      have hstays : ¬ e.Advances store s :=
        not_or.mpr ⟨not_not.mpr (open_of_not_all hvalues hall), fun ⟨op, n, h⟩ => hnot op n h⟩
      exact (Recorded.encodes_pure e.toText).congr fun _ => iff_of_false id fun h => hstays h.1
    dsimp only
    split
    · next hop => exact hkept (not_resumesAt_of_none hop)
    · next op hop =>
      generalize hn : (values.takeWhile Resolved.isDefined).length = n
      split
      · next hlead => exact hkept (not_resumesAt_of_lead hvalues hop hall hn hlead)
      · next hlead =>
        have hresumes := (resumesAt_lead_iff hvalues hop hall hn).mpr hlead
        have hfront := encodes_recordRender (e := { e with varspecs := e.varspecs.take n })
          (take_of_mapM hvalues n)
        refine (hfront.bind_pure _).congr fun text => ?_
        rw [hresumes.carries_iff]
        exact (and_iff_right (.inr ⟨op, n, hresumes⟩)).symm

end Expression

/-! ### Templates -/

namespace Component

section
variable (store : Store) (s : Settings)

/-- The expansion of a component, on record. -/
def recordExpand : Component → Recorded Text
  | literal text _ => Recorded.encode .reserved text
  | expression e => do
    let values ← e.recordValues store s
    e.recordRender values

/-- What partial expansion makes of a component, on record. -/
def recordExpandPartially : Component → Recorded Text
  | literal text _ => pure text
  | expression e => do
    let values ← e.recordValues store s
    e.recordPartially values

theorem outcome_recordExpand (c : Component) :
    (c.recordExpand store s).outcome = (c.expand store s).outcome := by
  cases c with
  | literal text p => rfl
  | expression e =>
    rw [recordExpand, expand, Expression.expand, Recorded.outcome_bind, Traced.outcome_bind]
    exact congrArg _ (funext e.outcome_recordRender)

theorem outcome_recordExpandPartially (c : Component) :
    (c.recordExpandPartially store s).outcome = (c.expandPartially store s).outcome := by
  cases c with
  | literal text p => rfl
  | expression e =>
    rw [recordExpandPartially, expandPartially, Recorded.outcome_bind, Traced.outcome_bind]
    exact congrArg _ (funext e.outcome_recordPartially)

/-- The text is one that an expansion of the component has encoded. -/
def Carries : Component → Text → Prop
  | literal t _, text => text = t
  | expression e, text => e.Carries store s text

/-- The text is one that a partial expansion of the component has encoded. -/
def CarriesPartially : Component → Text → Prop
  | literal _ _, _ => False
  | expression e, text => e.Advances store s ∧ e.Carries store s text

variable {store s} {c : Component}

theorem encodes_recordExpand (hc : c.Sound) (h : ∃ out, (c.expand store s).outcome = .ok out) :
    (c.recordExpand store s).Encodes (c.Carries store s) := by
  cases c with
  | literal text p => exact Recorded.encodes_encode .reserved hc.2
  | expression e =>
    obtain ⟨out, hout⟩ := h
    rw [expand, e.outcome_expand, mapError_eq_ok, Store.expansion] at hout
    obtain ⟨values, hvalues, -⟩ := map_eq_ok.mp hout
    refine (Expression.encodes_recordValues hvalues).bind (fun values' hvalues' => ?_)
      |>.congr fun _ => or_iff_right id
    exact Expression.encodes_recordRender (Expression.meanings_of_recordValues hvalues')

theorem encodes_recordExpandPartially
    (h : ∃ out, (c.expandPartially store s).outcome = .ok out) :
    (c.recordExpandPartially store s).Encodes (c.CarriesPartially store s) := by
  cases c with
  | literal text p => exact Recorded.encodes_pure text
  | expression e =>
    obtain ⟨out, hout⟩ := h
    rw [outcome_expandPartially] at hout
    obtain ⟨values, hvalues, -⟩ := bind_eq_ok.mp hout
    rw [mapError_eq_ok] at hvalues
    refine (Expression.encodes_recordValues hvalues).bind (fun values' hvalues' => ?_)
      |>.congr fun _ => or_iff_right id
    exact Expression.encodes_recordPartially (Expression.meanings_of_recordValues hvalues')

theorem safe_recordExpand (h : c.Sound) : (c.recordExpand store s).Safe := by
  cases c with
  -- the scanner has searched the text
  | literal text p => exact List.forall_mem_singleton.mpr h.2
  | expression e =>
    refine (Recorded.safe_ofExcept _).bind fun values hvalues => ?_
    exact (Expression.encodes_recordRender (Expression.meanings_of_recordValues hvalues)).safe
      fun _ hcarries => hcarries.encodable

theorem safe_recordExpandPartially (c : Component) : (c.recordExpandPartially store s).Safe := by
  cases c with
  -- partial expansion copies the text as it is
  | literal text p => exact Recorded.safe_ofExcept _
  | expression e =>
    refine (Recorded.safe_ofExcept _).bind fun values hvalues => ?_
    exact (Expression.encodes_recordPartially (Expression.meanings_of_recordValues hvalues)).safe
      fun _ h => h.2.encodable

end

end Component

namespace Template

section
variable (t : Template) (store : Store) (s : Settings)

/-- The expansion of a template, on record. -/
def recordExpand : Recorded Text := do
  let parts ← Recorded.forEach (Component.recordExpand store s) t.components
  return parts.flatten

/-- The partial expansion of a template, on record; reading encodes nothing. -/
def recordExpandPartial : Recorded Template := do
  let parts ← Recorded.forEach (Component.recordExpandPartially store s) t.components
  Recorded.ofExcept ((parse parts.flatten).mapError .parse)

/-- **A record changes no expansion.** -/
theorem outcome_recordExpand : (t.recordExpand store s).outcome = t.expand store s := by
  rw [recordExpand, expand, expandTraced, Recorded.outcome_bind, Traced.outcome_bind,
    Recorded.outcome_forEach, Traced.outcome_forEach]
  simp only [Component.outcome_recordExpand]
  rfl

theorem outcome_recordExpandPartial :
    (t.recordExpandPartial store s).outcome = t.expandPartial store s := by
  rw [recordExpandPartial, expandPartial, expandPartialTraced, Recorded.outcome_bind,
    Traced.outcome_bind, Recorded.outcome_forEach, Traced.outcome_forEach]
  simp only [Component.outcome_recordExpandPartially, outcome_parseTraced]
  rfl

end

variable {t : Template} {store : Store} {s : Settings}

/-- The record of an expansion holds the literals and the texts of the variables. -/
theorem encodes_recordExpand (ht : ∀ c ∈ t.components, c.Sound) {out : Text}
    (h : t.expand store s = .ok out) : (t.recordExpand store s).Encodes fun text =>
      ∃ c ∈ t.components, c.Carries store s text := by
  rw [expand, expandTraced, Traced.outcome_bind, Traced.outcome_forEach] at h
  obtain ⟨parts, hparts, -⟩ := bind_eq_ok.mp h
  have hends := exists_mapM_eq_ok_iff.mp ⟨parts, hparts⟩
  exact (Recorded.encodes_forEach fun c hc =>
    Component.encodes_recordExpand (ht c hc) (hends c hc)).bind_pure _

/-- The record of a partial expansion holds the texts of those variables only that
stand in what it renders. -/
theorem encodes_recordExpandPartial {p : Template} (h : t.expandPartial store s = .ok p) :
    (t.recordExpandPartial store s).Encodes fun text =>
      ∃ c ∈ t.components, c.CarriesPartially store s text := by
  obtain ⟨texts, htexts, hparse⟩ := expandPartial_eq_ok.mp h
  have hends := exists_mapM_eq_ok_iff.mp ⟨texts, htexts⟩
  have hparts := Recorded.encodes_forEach fun c hc =>
    Component.encodes_recordExpandPartially (hends c hc)
  refine (hparts.bind fun parts hout => ?_).congr fun _ => or_iff_left id
  -- what was written is read again, which encodes nothing
  rw [Recorded.outcome_forEach] at hout
  simp only [Component.outcome_recordExpandPartially] at hout
  obtain rfl := Except.ok.inj (htexts.symm.trans hout)
  rw [hparse]
  exact Recorded.encodes_pure p

/-- **The encoder never meets a surrogate.**  The texts that an expansion and a
partial expansion of a template give to it hold none, so that each of them is
encoded.  They are the literals, what the prefixes keep of scalars, and the texts
of composites; partial expansion gives it those of what it renders.  Neither does
the source of the template hold a surrogate, nor any text that is retained by a
value that resolves. -/
theorem encoder_meets_no_surrogate {source : Text} (ht : parse source = .ok t) (store : Store)
    (s : Settings) :
    (t.recordExpand store s).outcome = t.expand store s ∧
      (t.recordExpandPartial store s).outcome = t.expandPartial store s ∧
      (∀ out, t.expand store s = .ok out → ∀ text, text ∈ (t.recordExpand store s).texts ↔
        ∃ c ∈ t.components, c.Carries store s text) ∧
      (∀ p, t.expandPartial store s = .ok p →
        ∀ text, text ∈ (t.recordExpandPartial store s).texts ↔
          ∃ c ∈ t.components, c.CarriesPartially store s text) ∧
      (∀ text, text ∈ (t.recordExpand store s).texts ∨
          text ∈ (t.recordExpandPartial store s).texts →
        Text.Encodable text ∧ ∀ p, ∃ out, Percent.encode p text = .ok out) ∧
      Text.Encodable source ∧
      ∀ (v : Value) (text : Text), v.Retains s text → ¬ Text.Encodable text →
        ∀ value, v.resolve s ≠ .ok value := by
  have hsound := parse_sound ht
  have hfull : (t.recordExpand store s).Safe :=
    (Recorded.safe_forEach fun c hc => Component.safe_recordExpand (hsound c hc)).bind
      fun _ _ => Recorded.safe_ofExcept _
  have hpartial : (t.recordExpandPartial store s).Safe :=
    (Recorded.safe_forEach fun c _ => Component.safe_recordExpandPartially c).bind
      fun _ _ => Recorded.safe_ofExcept _
  refine ⟨t.outcome_recordExpand store s, t.outcome_recordExpandPartial store s,
    fun out h => (encodes_recordExpand hsound h).mem_iff,
    fun p h => (encodes_recordExpandPartial h).mem_iff, fun text htext => ?_, encodable_source ht,
    fun v text hretains hnot value hvalue => hnot (hretains.encodable hvalue)⟩
  have hencodable : Text.Encodable text := htext.elim (hfull text) (hpartial text)
  exact ⟨hencodable, fun p => ⟨_, Percent.encode_eq_ok p hencodable⟩⟩

/-- The record of a template with a prefix, pairs and a literal; what is shown of
a key is in it, and of a value that is cut only what is left.  A list with a lone
surrogate does not resolve and leaves nothing in it. -/
theorem encoder_meets_no_surrogate_pairs :
    let lone : Text := [.surrogate 0]
    let bad := Value.list [.str lone]
    let store := Store.ofList [(lit "x", .str (lit "tail")),
      (lit "m", .map [(.str (lit "k;"), .int 1), (.none, .bool true)]), (lit "bad", bad)]
    let settings : Settings := ⟨.none, .undefined⟩
    ∃ t, parse (lit "a b\x7b?x:2,m*,bad\x7d") = .ok t ∧
      (t.recordExpand store settings).texts
        = [lit "a b", lit "ta", lit "k;", lit "1", lit "None", lit "true"] ∧
      t.expand store settings = .ok (lit "a%20b?x=ta&k%3B=1&None=true") ∧
      (∀ text ∈ (t.recordExpand store settings).texts, Text.Encodable text) ∧
      bad.Retains settings lone ∧ ¬ Text.Encodable lone ∧
      ∀ value, bad.resolve settings ≠ .ok value := by
  intro lone bad store settings
  let t : Template := ⟨lit "a b\x7b?x:2,m*,bad\x7d", [.literal (lit "a b") 0, .expression
    ⟨lit "?x:2,m*,bad", .query, [⟨lit "x", .upTo 2⟩, ⟨lit "m", .explode⟩, ⟨lit "bad", .none⟩], 3⟩]⟩
  have hparse : parse (lit "a b\x7b?x:2,m*,bad\x7d") = .ok t :=
    eq_ok_of_toOption (by decide +kernel)
  have htexts : (t.recordExpand store settings).texts
      = [lit "a b", lit "ta", lit "k;", lit "1", lit "None", lit "true"] := by decide +kernel
  have hexpand : t.expand store settings = .ok (lit "a%20b?x=ta&k%3B=1&None=true") :=
    eq_ok_of_toOption (by decide +kernel)
  have hretains : bad.Retains settings lone :=
    .item (.list [.str lone]) (List.mem_singleton_self _) rfl
  have hlone : ¬ Text.Encodable lone := by decide
  obtain ⟨-, -, -, -, hencoded, -, hrefused⟩ := encoder_meets_no_surrogate hparse store settings
  exact ⟨t, hparse, htexts, hexpand, fun text htext => (hencoded text (.inl htext)).1, hretains,
    hlone, hrefused bad lone hretains hlone⟩

end Template

end UriExpansion
