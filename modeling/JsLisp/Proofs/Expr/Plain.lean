/-
Expressions as source spells them.

In a plain expression names are made of words and numbers are numerals, as in
every program that is read from source.  Its strings are unrestricted.
-/
import JsLisp.Proofs.Expr.Name
import JsLisp.Proofs.Expr.Yield
import JsLisp.Proofs.Token.Spelling

namespace JsLisp
namespace Expr

mutual

def isPlain : Expr → Bool
  | call callee args => callee.isPlain && isPlainAll args
  | name n => n.isPlain
  | string _ => true
  | number raw => Text.isNumeral raw.toList

def isPlainAll : List Expr → Bool
  | [] => true
  | e :: es => isPlain e && isPlainAll es

end

mutual

/-- The values of the string literals, in order. -/
def strings : Expr → List String
  | call _ args => stringsAll args
  | name _ => []
  | string value => [value]
  | number _ => []

def stringsAll : List Expr → List String
  | [] => []
  | e :: es => strings e ++ stringsAll es

end

end Expr

theorem Token.isSpelled_plain {token : Token} (h : token.isSpelled = true) :
    token.plain.isSpelled = true := by
  unfold plain
  split
  · rfl
  · rfl
  · rfl
  · exact h

theorem Name.isPlain_of_tokens {name : Name}
    (h : ∀ token ∈ name.tokens, token.isSpelled = true) : name.isPlain = true := by
  rw [isPlain, List.all_eq_true]
  intro segment hsegment
  have hmem : Token.word segment ∈ name.tokens := by
    rcases List.mem_cons.1 hsegment with rfl | hmember
    · exact List.mem_cons_self
    · refine List.mem_cons_of_mem _ (List.mem_flatMap.2 ⟨segment, hmember, ?_⟩)
      simp
  exact h _ hmem

namespace Expr

mutual

theorem isPlain_of_tokens (e : Expr) (h : ∀ token ∈ e.tokens, token.isSpelled = true) :
    e.isPlain = true := by
  cases e with
  | call callee args =>
    have hcallee : callee.isPlain = true :=
      Name.isPlain_of_tokens fun token htoken => h token (by simp [tokens, htoken])
    have hargs : isPlainAll args = true :=
      isPlainAll_of_tokens args fun token htoken => h token (by simp [tokens, htoken])
    rw [isPlain, hcallee, hargs]
    rfl
  | name n => exact Name.isPlain_of_tokens h
  | string value => rfl
  | number raw => exact h _ List.mem_cons_self

theorem isPlainAll_of_tokens (es : List Expr)
    (h : ∀ token ∈ tokensAll es, token.isSpelled = true) : isPlainAll es = true := by
  cases es with
  | nil => rfl
  | cons e es =>
    have he : e.isPlain = true :=
      isPlain_of_tokens e fun token htoken => h token (by simp [tokensAll, htoken])
    have hes : isPlainAll es = true :=
      isPlainAll_of_tokens es fun token htoken => h token (by simp [tokensAll, htoken])
    rw [isPlainAll, he, hes]
    rfl

end

end Expr

namespace Token

/-- The texts of the string tokens, in order. -/
def strings (tokens : List Token) : List String :=
  (tokens.filter fun token => token.kind = .string).map Token.text

@[simp]
theorem strings_append (as bs : List Token) : strings (as ++ bs) = strings as ++ strings bs := by
  simp [strings]

theorem strings_cons {token : Token} (h : token.kind ≠ .string) (tokens : List Token) :
    strings (token :: tokens) = strings tokens := by
  simp [strings, h]

theorem strings_map_plain (tokens : List Token) : strings (tokens.map plain) = strings tokens := by
  induction tokens with
  | nil => rfl
  | cons token tokens ih =>
    by_cases hkind : token.kind = .string
    · have hself : token.plain = token := by simp [plain, hkind]
      rw [List.map_cons, hself]
      simpa [strings, hkind] using ih
    · rw [List.map_cons, strings_cons (by simpa using hkind), strings_cons hkind, ih]

end Token

theorem Name.strings_tokens (name : Name) : Token.strings name.tokens = [] := by
  have hmembers : ∀ members, Token.strings (memberTokens members) = [] := by
    intro members
    induction members with
    | nil => rfl
    | cons segment members ih => exact ih
  exact hmembers name.members

namespace Expr

mutual

theorem strings_tokens (e : Expr) : Token.strings e.tokens = e.strings := by
  cases e with
  | call callee args =>
    rw [tokens, Token.strings_cons (by decide), Token.strings_append, Token.strings_append,
      Name.strings_tokens, stringsAll_tokensAll args, strings]
    exact List.append_nil _
  | name n => exact n.strings_tokens
  | string value => rfl
  | number raw => rfl

theorem stringsAll_tokensAll (es : List Expr) :
    Token.strings (tokensAll es) = stringsAll es := by
  cases es with
  | nil => rfl
  | cons e es =>
    rw [tokensAll, Token.strings_append, strings_tokens e, stringsAll_tokensAll es, stringsAll]

end

end Expr

namespace Program

section Yields

variable {program : Program} {tokens : List Token}

theorem isPlainAll_of_yields (h : program.Yields tokens)
    (hspelled : ∀ token ∈ tokens, token.isSpelled = true) :
    Expr.isPlainAll program.body = true := by
  refine Expr.isPlainAll_of_tokens program.body fun token htoken => ?_
  have hmem : token ∈ tokens.map Token.plain := by
    rw [h]
    exact htoken
  obtain ⟨original, horiginal, rfl⟩ := List.mem_map.1 hmem
  exact Token.isSpelled_plain (hspelled original horiginal)

theorem strings_of_yields (h : program.Yields tokens) :
    Token.strings tokens = Expr.stringsAll program.body := by
  rw [← Token.strings_map_plain, h]
  exact Expr.stringsAll_tokensAll program.body

end Yields

end Program
end JsLisp
