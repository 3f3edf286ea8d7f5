/-
Code cut into words and signs.

A word is a longest run of letters and digits, and every other character is a sign
by itself.  Texts that are put together cut apart again wherever a word does not
run on into the next text.
-/
import JsLisp.Proofs.Text.Word

namespace JsLisp
namespace Code

open Text (Ends isWord)

inductive Lexeme
  | word (cs : List Char)
  | sign (c : Char)
deriving DecidableEq

namespace Lexeme

/-- Put a character in front of what is already cut. -/
def cons (c : Char) (ls : List Lexeme) : List Lexeme :=
  if c.isAlphanum then
    match ls with
    | word cs :: ls => word (c :: cs) :: ls
    | ls => word [c] :: ls
  else sign c :: ls

end Lexeme

def lexemes (code : List Char) : List Lexeme :=
  code.foldr Lexeme.cons []

theorem lexemes_sign {c : Char} (h : c.isAlphanum = false) (rest : List Char) :
    lexemes (c :: rest) = .sign c :: lexemes rest := by
  show Lexeme.cons c (lexemes rest) = _
  simp [Lexeme.cons, h]

theorem lexemes_ne_word {rest : List Char} (h : Ends Char.isAlphanum rest) (cs : List Char)
    (ls : List Lexeme) : lexemes rest ≠ .word cs :: ls := by
  cases rest with
  | nil => simp [lexemes]
  | cons c rest =>
    rw [lexemes_sign (h c rfl)]
    simp

theorem lexemes_word {text rest : List Char} (h : isWord text = true)
    (hrest : Ends Char.isAlphanum rest) : lexemes (text ++ rest) = .word text :: lexemes rest := by
  have hrun : ∀ cs c, c.isAlphanum = true → (∀ d ∈ cs, d.isAlphanum = true) →
      lexemes (c :: (cs ++ rest)) = .word (c :: cs) :: lexemes rest := by
    intro cs
    induction cs with
    | nil =>
      intro c hc _
      show Lexeme.cons c (lexemes rest) = _
      rw [Lexeme.cons, if_pos hc]
      exact fun cs ls => lexemes_ne_word hrest cs ls
    | cons d cs ih =>
      intro c hc hcs
      have htail := ih d (hcs d List.mem_cons_self) fun e he => hcs e (List.mem_cons_of_mem d he)
      show Lexeme.cons c (lexemes (d :: (cs ++ rest))) = _
      rw [htail, Lexeme.cons, if_pos hc]
  obtain ⟨c, cs, rfl, halpha, hcs⟩ := Text.exists_cons_of_isWord h
  exact hrun cs c ((Text.isAlphanum_iff c).2 (.inl halpha)) hcs

end Code
end JsLisp
