/-
Tokens and programs as JSON.
-/
import JsLisp.Compile
import JsLisp.Json.Basic

namespace JsLisp

def Token.json (token : Token) : Json :=
  .object [("kind", .string token.kind.tag), ("text", .string token.text)]

def Name.json (name : Name) : Json :=
  .object [("segments", .array (name.segments.map .string))]

namespace Expr

mutual

/-- Each node names its type, except a callee, which can only be a name. -/
def json : Expr → Json
  | call callee args =>
    .object [("type", .string "CallExpression"), ("callee", callee.json),
      ("arguments", .array (jsonAll args))]
  | name n =>
    .object [("type", .string "Identifier"), ("segments", .array (n.segments.map .string))]
  | string value => .object [("type", .string "StringLiteral"), ("value", .string value)]
  | number raw => .object [("type", .string "NumberLiteral"), ("raw", .string raw)]

def jsonAll : List Expr → List Json
  | [] => []
  | e :: es => json e :: jsonAll es

end

end Expr

def Program.json (program : Program) : Json :=
  .object [("body", .array (Expr.jsonAll program.body))]

/-- What is done with a source: it is run, or its tokens or its program are
listed. -/
inductive Mode
  | execute
  | tokenize
  | parse
deriving DecidableEq

/-- Listing tokens takes precedence over listing the program. -/
def Mode.ofFlags (tokenize parse : Bool) : Mode :=
  if tokenize then .tokenize else if parse then .parse else .execute

/-- The listing that a mode asks for.  A source that is to be run is listed as
its program. -/
def listing (mode : Mode) (source : String) : Except CompileError String :=
  match mode with
  | .tokenize => do
    let tokens ← JsLisp.tokenize source
    pure (Json.pretty 0 (.array (tokens.map Token.json)))
  | .parse | .execute => do
    let program ← JsLisp.parse source
    pure (Json.pretty 0 program.json)

end JsLisp
