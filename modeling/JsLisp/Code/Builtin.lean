/-
The builtins: callees that stand for code of their own instead of a call.
-/
import JsLisp.Code.Arity
import JsLisp.Code.Form

namespace JsLisp

structure Builtin where
  name : String
  arity : Arity
  form : Form
deriving DecidableEq

namespace Builtin

/-- Every builtin, in the order in which listings show them. -/
def all : List Builtin :=
  [ ⟨"add", .atLeast 1, .listed "(" "+" ")"⟩,
    ⟨"sub", .atLeast 1, .listed "(" "-" ")"⟩,
    ⟨"or", .atLeast 1, .listed "(" "||" ")"⟩,
    ⟨"and", .atLeast 1, .listed "(" "&&" ")"⟩,
    ⟨"not", .exactly 1, .fixed ["!(", ")"]⟩,
    ⟨"array", .any, .listed "[" "," "]"⟩,
    ⟨"idx", .exactly 2, .fixed ["", "[", "]"]⟩,
    ⟨"len", .exactly 1, .fixed ["", ".length"]⟩,
    ⟨"object", .even, .entries⟩,
    ⟨"new", .atLeast 1, .construction⟩,
    ⟨"getprop", .exactly 2, .fixed ["", ".", ""]⟩,
    ⟨"import", .exactly 2, .fixed ["import ", " from ", ""]⟩,
    ⟨"export", .exactly 1, .fixed ["export ", ""]⟩,
    ⟨"if", .between 2 3, .conditional⟩,
    ⟨"def", .exactly 2, .fixed ["const ", " = ", ""]⟩,
    ⟨"await", .exactly 1, .fixed ["await ", ""]⟩,
    ⟨"throw", .exactly 1, .fixed ["throw ", ""]⟩,
    ⟨"typeof", .exactly 1, .fixed ["typeof ", ""]⟩,
    ⟨"print", .any, .listed "console.log(" "," ")"⟩ ]

def find? (name : String) : Option Builtin :=
  all.find? fun builtin => builtin.name == name

/-- The builtin as a record listing shows it.  Its form has no text. -/
def inspect (builtin : Builtin) : String :=
  "Builtin \x7b name: \"" ++ builtin.name ++ "\", arity: " ++ builtin.arity.inspect ++ ", .. \x7d"

end Builtin
end JsLisp
