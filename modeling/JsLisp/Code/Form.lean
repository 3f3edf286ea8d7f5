/-
Shapes of emitted code.

A form is a rule for the texts that stand around the arguments.  Every argument
appears once and in order, so code is its separators woven with its arguments.
-/
import JsLisp.Code.Enclosed

namespace JsLisp

/-- Put the separators around and between the arguments.  With one separator
more than arguments the two alternate. -/
def weave : List String → List String → String
  | [], args => args.foldr (· ++ ·) ""
  | separators, [] => separators.foldr (· ++ ·) ""
  | s :: separators, a :: args => s ++ a ++ weave separators args

inductive Form
  /-- The arguments between an opening and a closing text, divided by a third. -/
  | listed (opening divider closing : String)
  /-- Fixed texts around a fixed number of arguments. -/
  | fixed (separators : List String)
  /-- Keys and values in turn, as an object literal. -/
  | entries
  /-- A constructor, then its arguments in parentheses. -/
  | construction
  /-- A condition, a consequence and perhaps an alternative. -/
  | conditional
deriving DecidableEq

namespace Form

/-- The texts behind each of `count` entry parts, where `isKey` says whether the
part before the first of them is a key. -/
def entrySeparators (isKey : Bool) : Nat → List String
  | 0 => []
  | 1 => ["\x7d"]
  | count + 2 => (if isKey then ":" else ",") :: entrySeparators (!isKey) (count + 1)

/-- The texts around the arguments.  Only the conditional looks at an argument:
it adds parentheses unless its condition brings its own. -/
def separators (form : Form) (args : List String) : List String :=
  match form, args with
  | listed opening _ closing, [] => [opening ++ closing]
  | listed opening divider closing, _ :: more =>
    opening :: more.map (fun _ => divider) ++ [closing]
  | fixed texts, _ => texts
  | entries, [] => ["\x7b\x7d"]
  | entries, parts => "\x7b" :: entrySeparators true parts.length
  | construction, [] => ["new ", "()"]
  | construction, [_] => ["new ", "()"]
  | construction, _ :: _ :: more => "new " :: "(" :: more.map (fun _ => ",") ++ [")"]
  | conditional, args =>
    let around := match args with
      | condition :: _ => if Code.isEnclosed condition then ("if", "") else ("if(", ")")
      | [] => ("if(", ")")
    if args.length ≤ 2 then [around.1, around.2, ""] else [around.1, around.2, ";else ", ""]

def emit (form : Form) (args : List String) : String :=
  weave (form.separators args) args

end Form
end JsLisp
