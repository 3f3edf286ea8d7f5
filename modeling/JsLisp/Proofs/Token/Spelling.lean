/-
The texts of tokens that are read from source.

A token made by hand may have any text.  One that the lexer made has a text that
suits its kind.
-/
import JsLisp.Proofs.Token.Cut

namespace JsLisp
namespace Token

/-- The text suits the kind.  Reserved kinds have no text that does. -/
def isSpelled (token : Token) : Bool :=
  match token.kind with
  | .text => Text.isWord token.text.toList
  | .number => Text.isNumeral token.text.toList
  | .string => !token.text.toList.contains '"'
  | .slash => token.text == "/"
  | kind => marks.any fun mark => mark.2 == kind && mark.1.toString == token.text

end Token

theorem Piece.isSpelled {text rest : List Char} {token : Token}
    (h : Piece text rest (some token)) : token.isSpelled = true := by
  cases h with
  | mark rest hmark =>
    have hall : ∀ mark ∈ marks, (Token.mk mark.2 mark.1.toString).isSpelled = true := by decide
    exact hall _ hmark
  | slash hrest => rfl
  | string rest hbody => simpa [Token.isSpelled] using hbody
  | word htext hrest => simpa [Token.isSpelled] using htext
  | whole htext hrest hdot =>
    have hnumeral := (Text.isNumeral_iff text).2 (.inl htext)
    simpa [Token.isSpelled] using hnumeral
  | @fraction whole part rest hwhole hpart hrest =>
    have hnumeral := (Text.isNumeral_iff _).2 (.inr ⟨whole, part, hwhole, hpart, rfl⟩)
    rw [Token.isSpelled, String.toList_ofList]
    exact hnumeral

theorem Cut.isSpelled {cs rest : List Char} {pieces : List (List Char × Option Token)}
    (h : Cut cs pieces rest) : ∀ token ∈ Cut.tokens pieces, token.isSpelled = true := by
  induction h with
  | nil cs => exact fun token htoken => absurd htoken List.not_mem_nil
  | @cons text tail rest t pieces hpiece hcut ih =>
    intro token htoken
    cases t with
    | none => exact ih token htoken
    | some head =>
      rcases List.mem_cons.1 htoken with rfl | htoken
      · exact hpiece.isSpelled
      · exact ih token htoken

/-- Every token that is read from source is spelled as its kind asks. -/
theorem Lexer.isSpelled_of_tokenize {lexer : Lexer} {tokens : List Token}
    (h : lexer.tokenize.1 = .ok tokens) : ∀ token ∈ tokens, token.isSpelled = true := by
  obtain ⟨pieces, rest, hcut, hfinal⟩ := Cut.exists_final lexer.rest
  obtain ⟨-, rfl⟩ := (tokenize_eq_ok_iff hcut hfinal tokens).1 h
  exact hcut.isSpelled

end JsLisp
