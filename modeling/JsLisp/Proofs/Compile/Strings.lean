/-
String literals from source to code.

Emission writes quotes only around strings: names, numbers and the texts of forms
have none.  Every argument of a call is written once and in order, so the code of
an expression carries its strings as they stand in it, and the code of a program
carries those of its source.
-/
import Mathlib
import JsLisp.Proofs.Code.Form
import JsLisp.Proofs.Code.Literal
import JsLisp.Proofs.Compile.Stages

namespace JsLisp

open Code (Carries)

namespace Expr

/-- Separators that are left over follow one another. -/
theorem carries_separators {separators : List String}
    (h : ∀ s ∈ separators, '"' ∉ s.toList) : Carries (weave separators []) [] := by
  induction separators with
  | nil => exact Carries.empty
  | cons s separators ih =>
    have hhead := Carries.of_not_mem (h s List.mem_cons_self)
    have htail := ih fun s' hs' => h s' (List.mem_cons_of_mem s hs')
    rw [weave_nil] at htail ⊢
    exact hhead.append htail

theorem carries_weave {separators : List String} {es : List Expr}
    (hseparators : ∀ s ∈ separators, '"' ∉ s.toList)
    (hes : ∀ e ∈ es, Carries e.text e.strings) :
    Carries (weave separators (textAll es)) (stringsAll es) := by
  induction es generalizing separators with
  | nil => exact carries_separators hseparators
  | cons e es ih =>
    have he := hes e List.mem_cons_self
    have hes' : ∀ e' ∈ es, Carries e'.text e'.strings :=
      fun e' he' => hes e' (List.mem_cons_of_mem e he')
    cases separators with
    | nil =>
      -- Arguments without a separator are written one after the other.
      have htail := ih hseparators hes'
      rw [weave] at htail
      rw [textAll, stringsAll, weave, List.foldr_cons]
      exact he.append htail
    | cons s separators =>
      have hs := Carries.of_not_mem (hseparators s List.mem_cons_self)
      have htail := ih (fun s' hs' => hseparators s' (List.mem_cons_of_mem s hs')) hes'
      exact (hs.append he).append htail

mutual

theorem carries_text (e : Expr) (h : e.isPlain = true) : Carries e.text e.strings := by
  cases e with
  | call callee args =>
    rw [isPlain, Bool.and_eq_true] at h
    exact carries_weave (fun s hs => Code.not_quote_mem_separators h.1 hs)
      (carries_textAll args h.2)
  | name n => exact .of_not_mem (Code.not_quote_mem_of_isNameChar (Name.isNameChar_text h))
  | string value => exact .stringLiteral value
  | number raw =>
    exact .of_not_mem (Code.not_quote_mem_of_isNameChar (Name.isNameChar_of_isNumeral h))

theorem carries_textAll (es : List Expr) (h : isPlainAll es = true) :
    ∀ e ∈ es, Carries e.text e.strings := by
  cases es with
  | nil => exact fun e he => absurd he List.not_mem_nil
  | cons e es =>
    rw [isPlainAll, Bool.and_eq_true] at h
    exact List.forall_mem_cons.2 ⟨carries_text e h.1, carries_textAll es h.2⟩

end

theorem carries_statements {es : List Expr} (hes : ∀ e ∈ es, Carries e.text e.strings) :
    Carries (Code.statements (textAll es)) (stringsAll es) := by
  induction es with
  | nil => exact Carries.empty
  | cons e es ih =>
    have he := hes e List.mem_cons_self
    have htail := ih fun e' he' => hes e' (List.mem_cons_of_mem e he')
    cases es with
    | nil =>
      rw [textAll, textAll, Code.statements_singleton]
      simpa [stringsAll] using he
    | cons e' es =>
      have hmark : Carries ";" [] := .of_not_mem (by decide)
      rw [textAll] at htail
      rw [textAll, textAll, Code.statements_cons, stringsAll, ← List.append_nil e.strings]
      exact (he.append hmark).append htail

end Expr

/-- The string literals of compiled code denote the string tokens of its source,
each once and in the same order. -/
theorem literals_compile (source code : String) (h : compile source = .ok code) :
    ∃ tokens, tokenize source = .ok tokens ∧
      Code.literals code.toList = some (Token.strings tokens) := by
  obtain ⟨tokens, program, htokens, hyields, hplain, rfl⟩ := exists_program_of_compile h
  have hcarries : Carries program.text (Expr.stringsAll program.body) :=
    Expr.carries_statements (Expr.carries_textAll program.body hplain)
  refine ⟨tokens, htokens, ?_⟩
  rw [hcarries.literals_eq, Program.strings_of_yields hyields]

/-- A backslash, a comment marker and a line break, in the branches of a conditional. -/
theorem literals_compile_conditional :
    ∃ tokens, tokenize "(if x (throw \"\\\") (print \"//\" \"\n\"))" = .ok tokens ∧
      Code.literals "if(x)throw \"\\\\\";else console.log(\"//\",\"\\n\")".toList =
        some (Token.strings tokens) := by
  have hcompile : compile "(if x (throw \"\\\") (print \"//\" \"\n\"))" =
      .ok "if(x)throw \"\\\\\";else console.log(\"//\",\"\\n\")" := by cbv
  exact literals_compile _ _ hcompile

end JsLisp
