/-
UriExpansion/Proofs/Scanning.lean

Templates written from pieces.

A `Piece` is a run of literal text or a body to be put between braces.  Any
list of pieces can be written down, one after the other; runs may be empty and
may stand next to one another.  `Token.assemble` says what the scanner makes of
them: it merges neighbouring runs, drops empty ones and attaches the offsets.

* `outside_pieces`: scanning the text of brace-free pieces gives their assembly.
* `parse_pieces`: sound pieces are the text of a template.
-/
import UriExpansion.Proofs.Layout

namespace UriExpansion

open Percent

/-- What the text of a URI is made of. -/
theorem UriText.mem {t : Text} (h : UriText t) :
    ∀ c ∈ t, isUnreserved c = true ∨ isReserved c = true ∨ c = CodePoint.scalar '%' := by
  intro c hc
  induction h with
  | nil => cases hc
  | unreserved hd _ ih =>
    rcases List.mem_cons.mp hc with rfl | hc
    · exact .inl hd
    · exact ih hc
  | reserved hd _ ih =>
    rcases List.mem_cons.mp hc with rfl | hc
    · exact .inr (.inl hd)
    · exact ih hc
  | triplet ha hb _ ih =>
    simp only [List.mem_cons] at hc
    rcases hc with rfl | rfl | rfl | hc
    · exact .inr (.inr rfl)
    · exact .inl (isUnreserved_of_isHexDigit ha)
    · exact .inl (isUnreserved_of_isHexDigit hb)
    · exact ih hc

theorem UriText.not_mem {t : Text} (h : UriText t) {c : CodePoint} (hu : isUnreserved c = false)
    (hr : isReserved c = false) (hp : c ≠ CodePoint.scalar '%') : c ∉ t := by
  intro hc
  rcases h.mem c hc with h | h | h
  · rw [hu] at h
    cases h
  · rw [hr] at h
    cases h
  · exact hp h

theorem UriText.braceFree {t : Text} (h : UriText t) : Text.BraceFree t :=
  ⟨h.not_mem rfl rfl (by decide), h.not_mem rfl rfl (by decide)⟩

theorem UriText.encodable {t : Text} (h : UriText t) : Text.Encodable t := by
  intro c hc
  cases c with
  | scalar x => rfl
  | surrogate i => exact absurd hc (h.not_mem rfl (by simp [isReserved]) (by simp))

/-! ### Pieces -/

/-- A piece of a template that is being written. -/
inductive Piece
  /-- Literal text. -/
  | run (text : Text)
  /-- The body of an expression. -/
  | body (text : Text)

namespace Piece

/-- A piece as it stands in the template. -/
def toText : Piece → Text
  | run text => text
  | body text => Expression.braced text

/-- The text of several pieces. -/
def allText (pieces : List Piece) : Text := pieces.flatMap toText

@[simp] theorem allText_nil : allText [] = [] := rfl

@[simp] theorem allText_cons (p : Piece) (ps : List Piece) :
    allText (p :: ps) = p.toText ++ allText ps := rfl

@[simp] theorem allText_append (ps qs : List Piece) :
    allText (ps ++ qs) = allText ps ++ allText qs := List.flatMap_append

/-- What holds of the text of a run, and of a body. -/
def All (run body : Text → Prop) : Piece → Prop
  | .run text => run text
  | .body text => body text

/-- Braces stand only around bodies. -/
def BraceFree : Piece → Prop := All Text.BraceFree Text.BraceFree

/-- A piece that can stand in a template. -/
def Sound : Piece → Prop :=
  All (fun text => Text.BraceFree text ∧ Text.Encodable text) fun text =>
    Text.BraceFree text ∧ ∃ op specs, Expression.readBody text = .ok (op, specs)

theorem All.imp {run run' body body' : Text → Prop} (hr : ∀ t, run t → run' t)
    (hb : ∀ t, body t → body' t) {p : Piece} (h : p.All run body) : p.All run' body' := by
  cases p with
  | run text => exact hr text h
  | body text => exact hb text h

theorem Sound.braceFree {p : Piece} (h : p.Sound) : p.BraceFree :=
  All.imp (fun _ h => h.1) (fun _ h => h.1) h

end Piece

namespace Token

/-- What the scanner makes of pieces that begin at `p`: the literal text up to
the first body, and the tokens from there on. -/
def assemble (p : Nat) : List Piece → Text × List Token
  | [] => ([], [])
  | .run text :: pieces =>
    let (more, tokens) := assemble (p + text.length) pieces
    (text ++ more, tokens)
  | .body text :: pieces =>
    let q := p + text.length + 2
    let (more, tokens) := assemble q pieces
    ([], expression text p :: withLiteral q more tokens)

theorem assemble_run (p : Nat) (text : Text) (pieces : List Piece) :
    assemble p (.run text :: pieces) = (text ++ (assemble (p + text.length) pieces).1,
      (assemble (p + text.length) pieces).2) := rfl

theorem assemble_body (p : Nat) (text : Text) (pieces : List Piece) :
    assemble p (.body text :: pieces) = ([], expression text p ::
      withLiteral (p + text.length + 2) (assemble (p + text.length + 2) pieces).1
        (assemble (p + text.length + 2) pieces).2) := rfl

/-- **The text of pieces is scanned as their assembly.** -/
theorem outside_pieces {pieces : List Piece} (h : ∀ piece ∈ pieces, piece.BraceFree) (p : Nat) :
    outside p (Piece.allText pieces) = .ok (assemble p pieces) := by
  induction pieces generalizing p with
  | nil => rfl
  | cons piece pieces ih =>
    have hpieces := ih fun q hq => h q (List.mem_cons_of_mem piece hq)
    have hpiece : piece.BraceFree := h piece List.mem_cons_self
    cases piece with
    | run text =>
      rw [Piece.allText_cons, Piece.toText, outside_append hpiece, hpieces, assemble_run]
      rfl
    | body text =>
      rw [Piece.allText_cons, Piece.toText, outside_braced hpiece, hpieces, assemble_body,
        Expression.length_braced]
      rfl

/-! ### What the tokens inherit from the pieces -/

theorem forall_mem_withLiteral {P : Token → Prop} {p : Nat} {text : Text} {rest : List Token}
    (hrest : ∀ token ∈ rest, P token) (htext : P (literal text p)) :
    ∀ token ∈ withLiteral p text rest, P token := by
  rw [withLiteral]
  split
  · exact hrest
  · exact List.forall_mem_cons.mpr ⟨htext, hrest⟩

/-- What holds of all runs, and does not get lost when runs are merged, holds
of all literals. -/
theorem forall_assemble {run body : Text → Prop} (hnil : run [])
    (happend : ∀ t u, run t → run u → run (t ++ u)) {pieces : List Piece}
    (h : ∀ piece ∈ pieces, piece.All run body) (p : Nat) :
    run (assemble p pieces).1 ∧ ∀ token ∈ (assemble p pieces).2, token.All run body := by
  induction pieces generalizing p with
  | nil => exact ⟨hnil, fun _ h => absurd h List.not_mem_nil⟩
  | cons piece pieces ih =>
    obtain ⟨hpiece, hpieces⟩ := List.forall_mem_cons.mp h
    cases piece with
    | run text =>
      obtain ⟨htext, htokens⟩ := ih hpieces (p + text.length)
      exact ⟨happend _ _ hpiece htext, htokens⟩
    | body text =>
      obtain ⟨htext, htokens⟩ := ih hpieces (p + text.length + 2)
      exact ⟨hnil, List.forall_mem_cons.mpr ⟨hpiece, forall_mem_withLiteral htokens htext⟩⟩

/-- The tokens of the text that pieces make. -/
def ofPieces (pieces : List Piece) : List Token :=
  withLiteral 0 (assemble 0 pieces).1 (assemble 0 pieces).2

theorem forall_ofPieces {run body : Text → Prop} (hnil : run [])
    (happend : ∀ t u, run t → run u → run (t ++ u)) {pieces : List Piece}
    (h : ∀ piece ∈ pieces, piece.All run body) :
    ∀ token ∈ ofPieces pieces, token.All run body := by
  obtain ⟨htext, htokens⟩ := forall_assemble hnil happend h 0
  exact forall_mem_withLiteral htokens htext

theorem scan_pieces {pieces : List Piece} (h : ∀ piece ∈ pieces, piece.Sound) :
    scan (Piece.allText pieces) = .ok (ofPieces pieces) := by
  have hliterals : ∀ token ∈ ofPieces pieces, token.Encodable :=
    forall_ofPieces (fun _ h => absurd h List.not_mem_nil)
      (fun _ _ ht hu => Text.encodable_append.mpr ⟨ht, hu⟩)
      fun piece hp => Piece.All.imp (fun _ h => h.2) (fun _ _ => trivial) (h piece hp)
  have hnone : (ofPieces pieces).findSome? surrogateError? = none :=
    List.findSome?_eq_none_iff.mpr fun token htoken =>
      surrogateError?_eq_none.mpr (hliterals token htoken)
  -- the braces pair up by construction, and no literal run holds a surrogate
  unfold scan
  rw [outside_pieces fun piece hp => (h piece hp).braceFree]
  dsimp only
  rw [show withLiteral 0 (assemble 0 pieces).1 (assemble 0 pieces).2 = ofPieces pieces from rfl,
    hnone]

end Token

/-! ### Templates -/

/-- The tokens of sound pieces are components. -/
theorem Component.ofToken_ofPieces {pieces : List Piece} (h : ∀ piece ∈ pieces, piece.Sound) :
    ∀ token ∈ Token.ofPieces pieces, ∃ c, Component.ofToken token = .ok c := by
  have hbodies : ∀ token ∈ Token.ofPieces pieces, token.All (fun _ => True) fun text =>
      ∃ op specs, Expression.readBody text = .ok (op, specs) :=
    Token.forall_ofPieces trivial (fun _ _ _ _ => trivial)
      fun piece hp => Piece.All.imp (fun _ _ => trivial) (fun _ h => h.2) (h piece hp)
  intro token htoken
  cases token with
  | literal text p => exact ⟨.literal text p, rfl⟩
  | expression body p =>
    obtain ⟨op, specs, hread⟩ := hbodies _ htoken
    exact ⟨_, Component.ofToken_body hread p⟩

namespace Template

/-- **The text of sound pieces is a template**, whose components are those of
the pieces' assembly. -/
theorem parse_pieces {pieces : List Piece} (h : ∀ piece ∈ pieces, piece.Sound) :
    parse (Piece.allText pieces)
      = .ok ⟨Piece.allText pieces, componentsOf (Token.ofPieces pieces)⟩ := by
  have herrors : errorsOf (Token.ofPieces pieces) = [] := by
    refine List.filterMap_eq_nil_iff.mpr fun token htoken => ?_
    obtain ⟨c, hc⟩ := Component.ofToken_ofPieces h token htoken
    rw [hc]
  exact parse_eq_ok_iff.mpr ⟨_, Token.scan_pieces h, herrors, rfl⟩

end Template

end UriExpansion
