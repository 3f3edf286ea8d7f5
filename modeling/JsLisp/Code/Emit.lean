/-
Writing programs as JavaScript.

Emission counts the calls it stands in, and the count is state: an emitter that
has written one expression goes on to the next.  Leaving a call takes the count
back whether or not the call could be written, so a failure in one expression
says nothing about the next.
-/
import JsLisp.Code.Builtin
import JsLisp.Code.Literal
import JsLisp.Expr.Basic

namespace JsLisp

inductive EmitError
  | argumentCount (builtin : String) (arity : Arity) (count : Nat)
  | tooDeep
deriving DecidableEq

namespace EmitError

def message : EmitError → String
  | argumentCount builtin arity count =>
    s!"{builtin} expects {arity.describe}, got {count}"
  | tooDeep => s!"expression nesting exceeds {maxNesting} levels"

end EmitError

/-- Emission carries the number of calls it stands in, also past a failure. -/
abbrev EmitM := ExceptT EmitError (StateM Nat)

namespace EmitM

/-- Run an action one call deeper and come back up, whatever its outcome. -/
def nested {α : Type} (action : EmitM α) : EmitM α :=
  fun depth =>
    let outcome := action.run (depth + 1)
    (outcome.1, outcome.2 - 1)

/-- Refuse to stand in more calls than allowed. -/
def checkDepth : EmitM Unit := do
  if (← get) ≥ maxNesting then throw .tooDeep

end EmitM

namespace Code

/-- The code of a call, given the code of its arguments. -/
def call (callee : Name) (args : List String) : Except EmitError String :=
  match Builtin.find? callee.text with
  | some builtin =>
    if builtin.arity.accepts args.length then .ok (builtin.form.emit args)
    else .error (.argumentCount builtin.name builtin.arity args.length)
  | none => .ok ((Form.listed (callee.text ++ "(") "," ")").emit args)

/-- Statements are divided by semicolons and the last has none. -/
def statements (codes : List String) : String :=
  ";".intercalate codes

end Code

namespace Expr

mutual

/-- The code of an expression.  A call is refused for its depth before its
arguments are looked at, and for their number after they are written. -/
def emit : Expr → EmitM String
  | call callee args => do
    EmitM.checkDepth
    let codes ← EmitM.nested (emitAll args)
    liftExcept (Code.call callee codes)
  | name n => pure n.text
  | string value => pure (Code.stringLiteral value)
  | number raw => pure raw

/-- The code of each expression, from the left. -/
def emitAll : List Expr → EmitM (List String)
  | [] => pure []
  | e :: es => do
    let code ← emit e
    let codes ← emitAll es
    pure (code :: codes)

end

end Expr

namespace Program

def emit (program : Program) : EmitM String := do
  let codes ← Expr.emitAll program.body
  pure (Code.statements codes)

end Program

/-- An emitter between expressions, with the calls it stands in. -/
structure Emitter where
  depth : Nat
deriving DecidableEq

namespace Emitter

def new : Emitter :=
  { depth := 0 }

/-- Carry out an emission and keep the emitter for the next. -/
def run {α : Type} (emitter : Emitter) (action : EmitM α) : Except EmitError α × Emitter :=
  let outcome := action.run emitter.depth
  (outcome.1, ⟨outcome.2⟩)

end Emitter

/-- The code of a program. -/
def Program.code (program : Program) : Except EmitError String :=
  (Emitter.new.run program.emit).1

/-- The code of a lone expression. -/
def Expr.code (e : Expr) : Except EmitError String :=
  (Emitter.new.run e.emit).1

end JsLisp
