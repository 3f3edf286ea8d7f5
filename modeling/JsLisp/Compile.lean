/-
From source text to tokens, to a program, to code.
-/
import JsLisp.Code.Emit
import JsLisp.Expr.Parser
import JsLisp.Token.Lexer

namespace JsLisp

/-- The stages of compilation, each with the errors it raises. -/
inductive CompileError
  | lex (error : LexError)
  | parse (error : ParseError)
  | emit (error : EmitError)
deriving DecidableEq

namespace CompileError

def stage : CompileError → String
  | lex _ => "lex"
  | parse _ => "parse"
  | emit _ => "generate"

/-- What went wrong, without the stage. -/
def message : CompileError → String
  | lex error => error.message
  | parse error => error.message
  | emit error => error.message

def display (error : CompileError) : String :=
  error.stage ++ " error: " ++ error.message

end CompileError

def tokenize (source : String) : Except CompileError (List Token) :=
  (Lexer.ofSource source).tokenize.1.mapError .lex

def parse (source : String) : Except CompileError Program := do
  let tokens ← tokenize source
  (Parser.mk tokens).parse.1.mapError .parse

def compile (source : String) : Except CompileError String := do
  let program ← parse source
  program.code.mapError .emit

end JsLisp
