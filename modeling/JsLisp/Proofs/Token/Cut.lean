/-
Source text cut into pieces.

A cut splits source text into pieces from the left and leaves a rest.  At every
point at most one piece can be taken, so a source has one longest cut and all
others are its beginnings.  The lexer takes the longest cut: it returns the
tokens of the pieces if nothing is left, and otherwise the fault with which the
rest starts.
-/
import JsLisp.Proofs.Token.Piece

namespace JsLisp

inductive Cut : List Char → List (List Char × Option Token) → List Char → Prop
  | nil (cs : List Char) : Cut cs [] cs
  | cons {text tail rest : List Char} {t : Option Token}
    {pieces : List (List Char × Option Token)} (hpiece : Piece text tail t)
    (hcut : Cut tail pieces rest) : Cut (text ++ tail) ((text, t) :: pieces) rest

theorem Piece.ne_nil {text rest : List Char} {t : Option Token} (h : Piece text rest t) :
    text ≠ [] := by
  cases h with
  | word htext hrest =>
    rintro rfl
    cases htext
  | whole htext hrest hdot => exact ((Text.isDigits_iff text).1 htext).1
  | _ => simp

theorem Piece.unique {text rest text' rest' : List Char} {t t' : Option Token}
    (h : Piece text rest t) (h' : Piece text' rest' t') (heq : text ++ rest = text' ++ rest') :
    text = text' ∧ rest = rest' ∧ t = t' := by
  have hread := Scan.head_of_piece h
  rw [heq, Scan.head_of_piece h'] at hread
  cases t <;> cases t' <;> simp_all [Scan.ofPiece]

namespace Scan.Stuck

/-- Two faults at one point are the same. -/
theorem unique {error error' : LexError} {cs : List Char} (h : Stuck error cs)
    (h' : Stuck error' cs) : error = error' := by
  obtain ⟨text, hread⟩ := head_of_stuck h
  obtain ⟨text', hread'⟩ := head_of_stuck h'
  rw [hread] at hread'
  cases hread'
  rfl

theorem not_piece {error : LexError} {text rest : List Char} {t : Option Token}
    (h : Stuck error (text ++ rest)) : ¬ Piece text rest t := by
  intro hpiece
  obtain ⟨text', hread⟩ := head_of_stuck h
  rw [head_of_piece hpiece] at hread
  cases t <;> cases hread

end Scan.Stuck

namespace Cut

theorem flatten_append {cs rest : List Char} {pieces : List (List Char × Option Token)}
    (h : Cut cs pieces rest) : cs = (pieces.map Prod.fst).flatten ++ rest := by
  induction h with
  | nil cs => rfl
  | cons hpiece hcut ih =>
    rw [List.map_cons, List.flatten_cons, List.append_assoc, ← ih]

/-- Nothing can be taken from the rest. -/
def Final (rest : List Char) : Prop :=
  rest = [] ∨ ∃ error, Scan.Stuck error rest

theorem exists_final (cs : List Char) : ∃ pieces rest, Cut cs pieces rest ∧ Final rest := by
  cases cs with
  | nil => exact ⟨[], [], .nil [], .inl rfl⟩
  | cons c cs =>
    rcases Scan.decided_cons c cs with ⟨text, tail, t, hpiece, heq⟩ | hstuck
    · have hlength : tail.length < (c :: cs).length := by
        have hpos := List.length_pos_iff.2 hpiece.ne_nil
        rw [← heq, List.length_append]
        omega
      obtain ⟨pieces, rest, hcut, hfinal⟩ := exists_final tail
      exact ⟨(text, t) :: pieces, rest, heq ▸ .cons hpiece hcut, hfinal⟩
    · exact ⟨[], c :: cs, .nil _, .inr hstuck⟩
termination_by cs.length
decreasing_by exact hlength

/-- Every cut is a beginning of the one that leaves nothing to take. -/
theorem isPrefix_of_final {cs rest left : List Char}
    {pieces others : List (List Char × Option Token)} (h : Cut cs pieces rest)
    (hfinal : Final rest) (hother : Cut cs others left) : others <+: pieces := by
  induction hother generalizing pieces with
  | nil cs => exact List.nil_prefix
  | @cons text tail left t others hpiece hcut ih =>
    generalize hcs : text ++ tail = cs at h
    cases h with
    | nil =>
      -- The final cut stops here, but the other takes a piece from its rest.
      rcases hfinal with hnil | ⟨error, hstuck⟩
      · rw [hnil, List.append_eq_nil_iff] at hcs
        exact absurd hcs.1 hpiece.ne_nil
      · exact absurd hpiece (hcs ▸ hstuck).not_piece
    | cons hpiece' hcut' =>
      obtain ⟨rfl, rfl, rfl⟩ := hpiece.unique hpiece' hcs
      exact List.cons_prefix_cons.2 ⟨rfl, ih hcut'⟩

/-- The tokens among the pieces. -/
def tokens (pieces : List (List Char × Option Token)) : List Token :=
  pieces.filterMap Prod.snd

end Cut

namespace Lexer

/-! ## The lexer takes the longest cut -/

theorem past_past (lexer : Lexer) (text tail text' rest : List Char) :
    (lexer.past text tail).past text' rest = lexer.past (text ++ text') rest := by
  simp [past, Nat.add_assoc]

theorem tokenize_of_head {lexer : Lexer} {text rest : List Char} {t : Option Token}
    (h : Scan.head lexer.rest = .ofPiece text rest t) :
    lexer.tokenize =
      ((lexer.past text rest).tokenize.1.map (t.toList ++ ·),
        (lexer.past text rest).tokenize.2) := by
  cases t with
  | none =>
    rw [tokenize, h]
    cases hnext : (lexer.past text rest).tokenize with
    | mk result next => cases result <;> simp [Scan.ofPiece, hnext, Except.map]
  | some t =>
    rw [tokenize, h]
    simp [Scan.ofPiece]

theorem tokenize_of_fault {lexer : Lexer} {error : LexError} {text rest : List Char}
    (h : Scan.head lexer.rest = .fault error text rest) :
    lexer.tokenize = (.error error, lexer.past text rest) := by
  rw [tokenize, h]

theorem tokenize_of_piece {lexer : Lexer} {text rest : List Char} {t : Option Token}
    (h : Piece text rest t) (hrest : lexer.rest = text ++ rest) :
    lexer.tokenize =
      ((lexer.past text rest).tokenize.1.map (t.toList ++ ·),
        (lexer.past text rest).tokenize.2) :=
  tokenize_of_head (by rw [hrest, Scan.head_of_piece h])

theorem tokenize_of_cut {lexer : Lexer} {cs rest : List Char}
    {pieces : List (List Char × Option Token)} (h : Cut cs pieces rest)
    (hrest : lexer.rest = cs) :
    lexer.tokenize =
      ((lexer.past (pieces.map Prod.fst).flatten rest).tokenize.1.map (Cut.tokens pieces ++ ·),
        (lexer.past (pieces.map Prod.fst).flatten rest).tokenize.2) := by
  induction h generalizing lexer with
  | nil cs =>
    have hself : lexer.past [] cs = lexer := by simp [past, ← hrest]
    rw [List.map_nil, List.flatten_nil, hself]
    cases hnext : lexer.tokenize with
    | mk result next => cases result <;> rfl
  | @cons text tail rest t pieces hpiece hcut ih =>
    have htail : (lexer.past text tail).rest = tail := rfl
    rw [tokenize_of_piece hpiece hrest, ih htail, past_past, List.map_cons, List.flatten_cons]
    cases (lexer.past (text ++ (pieces.map Prod.fst).flatten) rest).tokenize.1 with
    | error error => rfl
    | ok tokens => cases t <;> rfl

theorem tokenize_of_nil {lexer : Lexer} (hrest : lexer.rest = []) :
    lexer.tokenize = (.ok [], lexer) := by
  rw [tokenize, hrest]
  rfl

theorem tokenize_of_stuck {lexer : Lexer} {error : LexError} (h : Scan.Stuck error lexer.rest) :
    lexer.tokenize.1 = .error error := by
  obtain ⟨text, hread⟩ := Scan.head_of_stuck h
  rw [tokenize_of_fault hread]

section Final

variable {lexer : Lexer} {rest : List Char} {pieces : List (List Char × Option Token)}

/-- The outcome of a lexer is decided by what its longest cut leaves. -/
theorem tokenize_of_final (h : Cut lexer.rest pieces rest) (hfinal : Cut.Final rest) :
    (rest = [] ∧ lexer.tokenize.1 = .ok (Cut.tokens pieces)) ∨
      ∃ error, Scan.Stuck error rest ∧ lexer.tokenize.1 = .error error := by
  rw [tokenize_of_cut h rfl]
  rcases hfinal with rfl | ⟨error, hstuck⟩
  · rw [tokenize_of_nil rfl]
    exact .inl ⟨rfl, by simp [Except.map]⟩
  · have hpast : Scan.Stuck error (lexer.past (pieces.map Prod.fst).flatten rest).rest := hstuck
    rw [tokenize_of_stuck hpast]
    exact .inr ⟨error, hstuck, rfl⟩

theorem tokenize_eq_ok_iff (h : Cut lexer.rest pieces rest) (hfinal : Cut.Final rest)
    (tokens : List Token) :
    lexer.tokenize.1 = .ok tokens ↔ rest = [] ∧ tokens = Cut.tokens pieces := by
  rcases tokenize_of_final h hfinal with ⟨hnil, hresult⟩ | ⟨error, hstuck, hresult⟩
  · simp [hresult, hnil, eq_comm]
  · have hne : rest ≠ [] := by
      rintro rfl
      cases hstuck
    simp [hresult, hne]

theorem tokenize_eq_error_iff (h : Cut lexer.rest pieces rest) (hfinal : Cut.Final rest)
    (error : LexError) : lexer.tokenize.1 = .error error ↔ Scan.Stuck error rest := by
  rcases tokenize_of_final h hfinal with ⟨hnil, hresult⟩ | ⟨error', hstuck, hresult⟩
  · have hnot : ¬ Scan.Stuck error rest := by
      rw [hnil]
      intro hstuck
      cases hstuck
    simp [hresult, hnot]
  · rw [hresult, Except.error.injEq]
    exact ⟨fun heq => heq ▸ hstuck, fun hother => hstuck.unique hother⟩

end Final

/-- The lexer cuts its source into pieces as far as it can.  The result is the
tokens of the pieces exactly if nothing is left, and each error says how the rest
starts. -/
theorem tokenize_longest_cut (source : String) :
    ∃ pieces rest,
      Cut source.toList pieces rest ∧
      source.toList = (pieces.map Prod.fst).flatten ++ rest ∧
      (∀ others left, Cut source.toList others left → others <+: pieces) ∧
      (∀ tokens, (ofSource source).tokenize.1 = .ok tokens ↔
        rest = [] ∧ tokens = Cut.tokens pieces) ∧
      ((ofSource source).tokenize.1 = .error .unterminatedString ↔
        ∃ body, rest = '"' :: body ∧ '"' ∉ body) ∧
      ((ofSource source).tokenize.1 = .error .unterminatedComment ↔
        ∃ body, rest = '/' :: '*' :: body ∧ ¬ ['*', '/'] <:+: body) ∧
      ∀ c, (ofSource source).tokenize.1 = .error (.unexpected c) ↔
        ∃ more, rest = c :: more ∧ ∀ text tail t, ¬ Piece (c :: text) tail t := by
  obtain ⟨pieces, rest, hcut, hfinal⟩ := Cut.exists_final source.toList
  have hlexer : Cut (ofSource source).rest pieces rest := hcut
  refine ⟨pieces, rest, hcut, hcut.flatten_append,
    fun others left hother => hcut.isPrefix_of_final hfinal hother,
    tokenize_eq_ok_iff hlexer hfinal, ?_, ?_, fun c => ?_⟩
  · rw [tokenize_eq_error_iff hlexer hfinal]
    constructor
    · intro h
      cases h with
      | string hbody => exact ⟨_, rfl, hbody⟩
    · rintro ⟨body, rfl, hbody⟩
      exact .string hbody
  · rw [tokenize_eq_error_iff hlexer hfinal]
    constructor
    · intro h
      cases h with
      | comment hbody => exact ⟨_, rfl, hbody⟩
    · rintro ⟨body, rfl, hbody⟩
      exact .comment hbody
  · rw [tokenize_eq_error_iff hlexer hfinal]
    constructor
    · intro h
      cases h with
      | unexpected more hnone => exact ⟨more, rfl, hnone⟩
    · rintro ⟨more, rfl, hnone⟩
      exact .unexpected more hnone

end Lexer
end JsLisp
