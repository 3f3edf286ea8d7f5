/-
Why a command fails, with the message for the user and the record that is shown
when the whole tool gives up.
-/
import JsLisp.Compile
import JsLisp.Config
import JsLisp.Disk.Fault

namespace JsLisp

inductive CommandError
  | compile (error : CompileError)
  | config (error : ConfigError)
  | read (path : Path) (fault : Fault)
  | write (path : Path) (fault : Fault)
  | start (program : String) (fault : Fault)
  | input (fault : Fault)
deriving DecidableEq

def CommandError.message : CommandError → String
  | compile error => error.display
  | config error => error.message
  | read path fault => s!"failed to read {path.text}: {fault.message}"
  | write path fault => s!"failed to write {path.text}: {fault.message}"
  | start program fault => s!"failed to start {program}: {fault.message}"
  | input fault => s!"io error: {fault.message}"

/-! ## Records

A record names the kind of failure and its fields, texts in quotes. -/

/-- A record with fields. -/
def fieldRecord (kind : String) (fields : List (String × String)) : String :=
  kind ++ " \x7b " ++ ", ".intercalate (fields.map fun field => field.1 ++ ": " ++ field.2) ++ " \x7d"

/-- A record around another. -/
def wrappedRecord (kind inner : String) : String :=
  kind ++ "(" ++ inner ++ ")"

def LexError.inspect : LexError → String
  | unterminatedString => "UnterminatedString"
  | unterminatedComment => "UnterminatedComment"
  | unexpected char => wrappedRecord "UnexpectedChar" (Text.quotedChar char)

def ParseError.inspect : ParseError → String
  | expected wanted found =>
    fieldRecord "Expected" [("expected", Text.quoted wanted.describe),
      ("found", Text.quoted (describeFound found))]
  | tooDeep => fieldRecord "TooDeep" [("limit", toString maxNesting)]

def EmitError.inspect : EmitError → String
  | argumentCount builtin arity count =>
    fieldRecord "InvalidArgCount" [("builtin", Text.quoted builtin), ("expected", arity.inspect),
      ("got", toString count)]
  | tooDeep => fieldRecord "TooDeep" [("limit", toString maxNesting)]

def CompileError.inspect : CompileError → String
  | lex error => wrappedRecord "Lex" error.inspect
  | parse error => wrappedRecord "Parse" error.inspect
  | emit error => wrappedRecord "Generate" error.inspect

def ConfigError.inspect : ConfigError → String
  | read path fault =>
    fieldRecord "Read" [("path", Text.quoted path.text), ("source", fault.inspect)]
  | malformed _ => "Parse"

def CommandError.inspect : CommandError → String
  | compile error => wrappedRecord "Compile" error.inspect
  | config error => error.inspect
  | read path fault =>
    fieldRecord "Read" [("path", Text.quoted path.text), ("source", fault.inspect)]
  | write path fault =>
    fieldRecord "Write" [("path", Text.quoted path.text), ("source", fault.inspect)]
  | start program fault =>
    fieldRecord "Spawn" [("program", Text.quoted program), ("source", fault.inspect)]
  | input fault => wrappedRecord "Io" fault.inspect

end JsLisp
