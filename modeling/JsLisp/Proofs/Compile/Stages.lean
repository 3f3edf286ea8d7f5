/-
What compilation passes through.

Source that compiles has tokens, which spell a program, whose text is the code.
Facts about the three stages meet here, so that results about compilation start
from one statement.
-/
import JsLisp.Compile
import JsLisp.Proofs.Code.Emission
import JsLisp.Proofs.Expr.Grammar
import JsLisp.Proofs.Expr.Plain

namespace JsLisp

theorem mapError_eq_ok_iff {ε ε' α : Type} (result : Except ε α) (f : ε → ε') (a : α) :
    result.mapError f = .ok a ↔ result = .ok a := by
  constructor
  · intro h
    cases result with
    | ok b =>
      cases h
      rfl
    | error error => cases h
  · rintro rfl
    rfl

theorem parse_eq_ok_iff (source : String) (program : Program) :
    parse source = .ok program ↔
      ∃ tokens, tokenize source = .ok tokens ∧ (Parser.mk tokens).parse.1 = .ok program := by
  cases htokens : tokenize source with
  | error error => simp [parse, htokens, bind, Except.bind]
  | ok tokens => simp [parse, htokens, bind, Except.bind, mapError_eq_ok_iff]

theorem compile_eq_ok_iff (source code : String) :
    compile source = .ok code ↔
      ∃ program, parse source = .ok program ∧ program.code = .ok code := by
  cases hprogram : parse source with
  | error error => simp [compile, hprogram, bind, Except.bind]
  | ok program => simp [compile, hprogram, bind, Except.bind, mapError_eq_ok_iff]

theorem mapError_eq_error_iff {ε ε' α : Type} (result : Except ε α) (f : ε → ε') (error : ε') :
    result.mapError f = .error error ↔ ∃ cause, result = .error cause ∧ error = f cause := by
  constructor
  · intro h
    cases result with
    | ok a => cases h
    | error cause =>
      cases h
      exact ⟨cause, rfl, rfl⟩
  · rintro ⟨cause, rfl, rfl⟩
    rfl

theorem compile_of_parse {source : String} {program : Program} (h : parse source = .ok program) :
    compile source = program.code.mapError .emit := by
  rw [compile, h]
  rfl

/-- Before the emitter is asked, only the lexer and the parser can fail. -/
theorem cause_of_parse {source : String} {error : CompileError} (h : parse source = .error error) :
    (∃ cause, error = .lex cause) ∨ ∃ cause, error = .parse cause := by
  cases htokens : tokenize source with
  | error first =>
    have herror : first = error := by simpa [parse, htokens, bind, Except.bind] using h
    obtain ⟨cause, -, hcause⟩ := (mapError_eq_error_iff _ _ _).1 htokens
    exact .inl ⟨cause, by rw [← herror, hcause]⟩
  | ok tokens =>
    have hparse : (Parser.mk tokens).parse.1.mapError .parse = .error error := by
      simpa [parse, htokens, bind, Except.bind] using h
    obtain ⟨cause, -, hcause⟩ := (mapError_eq_error_iff _ _ _).1 hparse
    exact .inr ⟨cause, hcause⟩

theorem isSpelled_of_tokenize {source : String} {tokens : List Token}
    (h : tokenize source = .ok tokens) : ∀ token ∈ tokens, token.isSpelled = true :=
  Lexer.isSpelled_of_tokenize ((mapError_eq_ok_iff _ _ _).1 h)

/-- Compiled code is the text of a plain program that the tokens spell. -/
theorem exists_program_of_compile {source code : String} (h : compile source = .ok code) :
    ∃ (tokens : List Token) (program : Program), tokenize source = .ok tokens ∧
      program.Yields tokens ∧
      Expr.isPlainAll program.body = true ∧ code = program.text := by
  obtain ⟨program, hprogram, hcode⟩ := (compile_eq_ok_iff source code).1 h
  obtain ⟨tokens, htokens, hparse⟩ := (parse_eq_ok_iff source program).1 hprogram
  have hyields := Parser.yields_of_parse hparse
  have hplain := Program.isPlainAll_of_yields hyields (isSpelled_of_tokenize htokens)
  obtain ⟨-, -, htext⟩ := (Program.code_eq_ok_iff program code).1 hcode
  exact ⟨tokens, program, htokens, hyields, hplain, htext⟩

end JsLisp
