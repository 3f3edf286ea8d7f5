/-
Reading tokens into a program.

The reader is a pushdown machine.  Its stack holds the calls that are open, the
innermost first, and each token is one step, so the whole reading is a
recursion on the token list and the nesting depth is the height of the stack.
One token of lookahead decides whether a dot continues a name.
-/
import JsLisp.Expr.Basic
import JsLisp.Token.Basic

namespace JsLisp

/-- What may stand where a token was refused. -/
inductive Wanted
  | name
  | expression
  | opening
  | closing
  | string
  | number
deriving DecidableEq

namespace Wanted

def describe : Wanted → String
  | name => TokenKind.describe .text
  | expression => "expression"
  | opening => TokenKind.describe .leftParen
  | closing => TokenKind.describe .rightParen
  | string => TokenKind.describe .string
  | number => TokenKind.describe .number

end Wanted

inductive ParseError
  | expected (wanted : Wanted) (found : Option Token)
  | tooDeep
deriving DecidableEq

namespace ParseError

/-- The refused token, or the end of the input in its place. -/
def describeFound : Option Token → String
  | some token => token.display
  | none => "end of input"

def message : ParseError → String
  | expected wanted found =>
    "expected " ++ wanted.describe ++ ", found " ++ describeFound found
  | tooDeep => s!"expression nesting exceeds {maxNesting} levels"

end ParseError

/-- A parser part way through its tokens. -/
structure Parser where
  rest : List Token
deriving DecidableEq

namespace Parser

/-- A call whose closing parenthesis is still to come, with the arguments read
so far, the latest first. -/
structure OpenCall where
  callee : Name
  args : List Expr
deriving DecidableEq

/-- Whether a name is being read to be called or to be an expression. -/
inductive Role
  | callee
  | operand
deriving DecidableEq

/-- Where in an expression the reader stands. -/
inductive Focus
  /-- Between expressions. -/
  | between
  /-- Behind an opening parenthesis. -/
  | opened
  /-- Behind a name that a dot may still continue. -/
  | named (role : Role) (name : Name)
  /-- Behind the dot that continues a name. -/
  | dotted (role : Role) (name : Name)
deriving DecidableEq

/-- The open calls, innermost first, and the finished statements, latest
first. -/
structure State where
  body : List Expr
  calls : List OpenCall
  focus : Focus
deriving DecidableEq

namespace State

def start : State :=
  { body := [], calls := [], focus := .between }

/-- Add a finished expression to the innermost open call, or to the program. -/
def add (state : State) (e : Expr) : State :=
  match state.calls with
  | [] => { state with body := e :: state.body, focus := .between }
  | call :: calls =>
    { state with calls := { call with args := e :: call.args } :: calls, focus := .between }

/-- Finish a name that nothing continues. -/
def settle (state : State) : State :=
  match state.focus with
  | .named .callee name =>
    { state with calls := ⟨name, []⟩ :: state.calls, focus := .between }
  | .named .operand name => state.add (.name name)
  | _ => state

/-- Go on with a token of the kind, and refuse any other. -/
def expect (token : Token) (kind : TokenKind) (wanted : Wanted)
    (next : Except ParseError State) : Except ParseError State :=
  if token.kind = kind then next else .error (.expected wanted token)

@[simp]
theorem expect_of_kind {token : Token} {kind : TokenKind} (h : token.kind = kind)
    (wanted : Wanted) (next : Except ParseError State) : expect token kind wanted next = next :=
  if_pos h

@[simp]
theorem expect_of_ne {token : Token} {kind : TokenKind} (h : token.kind ≠ kind)
    (wanted : Wanted) (next : Except ParseError State) :
    expect token kind wanted next = .error (.expected wanted token) :=
  if_neg h

theorem expect_eq_ok_iff {token : Token} {kind : TokenKind} {wanted : Wanted}
    {next : Except ParseError State} {state : State} :
    expect token kind wanted next = .ok state ↔ token.kind = kind ∧ next = .ok state := by
  by_cases h : token.kind = kind
  · simp [h]
  · simp [h]

/-- Take a token between expressions.  Its kind decides what is read, and is asked for
again where the token is taken. -/
def shift (state : State) (token : Token) : Except ParseError State :=
  match token.kind with
  | .leftParen =>
    expect token .leftParen .opening <|
      if state.calls.length < maxNesting then .ok { state with focus := .opened }
      else .error .tooDeep
  | .rightParen =>
    match state.calls with
    | [] => .error (.expected .expression token)
    | call :: calls =>
      expect token .rightParen .closing <|
        .ok ({ state with calls := calls }.add (.call call.callee call.args.reverse))
  | .text =>
    expect token .text .name <| .ok { state with focus := .named .operand ⟨token.text, []⟩ }
  | .string => expect token .string .string <| .ok (state.add (.string token.text))
  | .number => expect token .number .number <| .ok (state.add (.number token.text))
  | _ => .error (.expected .expression token)

/-- Take a token, knowing the kind of the one behind it. -/
def step (state : State) (token : Token) (next : Option TokenKind) : Except ParseError State :=
  match state.focus with
  | .between => state.shift token
  | .opened =>
    expect token .text .name <| .ok { state with focus := .named .callee ⟨token.text, []⟩ }
  | .named role name =>
    if token.kind = .dot ∧ next = some .text then .ok { state with focus := .dotted role name }
    else state.settle.shift token
  | .dotted role name =>
    expect token .text .name <|
      .ok { state with focus := .named role (name.extend token.text) }

/-- The program, when the tokens end here. -/
def finish (state : State) : Except ParseError Program :=
  match state.focus with
  | .opened | .dotted .. => .error (.expected .name none)
  | .between | .named .. =>
    let settled := state.settle
    if settled.calls.isEmpty then .ok ⟨settled.body.reverse⟩
    else .error (.expected .closing none)

/-- What is left of the tokens after a refusal.  A parenthesis that opens one
call too many is spent, any other refused token stays. -/
def leftover (error : ParseError) (token : Token) (rest : List Token) : List Token :=
  match error with
  | .tooDeep => rest
  | .expected .. => token :: rest

/-- Read to the end of the tokens or to the first refusal. -/
def run (state : State) : List Token → Except ParseError Program × List Token
  | [] => (state.finish, [])
  | token :: rest =>
    match state.step token (rest.head?.map Token.kind) with
    | .ok next => run next rest
    | .error error => (.error error, leftover error token rest)

end State

/-- Read a program.  After a failure the parser stands where reading stopped,
and the next call starts afresh from there. -/
def parse (parser : Parser) : Except ParseError Program × Parser :=
  let outcome := State.start.run parser.rest
  (outcome.1, ⟨outcome.2⟩)

end Parser
end JsLisp
