/-
The condition program: it prints nothing and answers by its exit code.
-/
import JsLisp.Disk.Basic
import JsLisp.Text.Blank

namespace JsLisp
namespace Host
namespace Test

def natural? (digits : List Char) : Option Nat :=
  if digits.isEmpty || !digits.all Char.isDigit then none
  else some (digits.foldl (fun n c => 10 * n + (c.toNat - 48)) 0)

/-- A decimal number with an optional sign, blanks around it ignored. -/
def number? (text : String) : Option Int :=
  match Text.trim text.toList with
  | '-' :: digits => (natural? digits).map fun n => -(n : Int)
  | '+' :: digits => (natural? digits).map Int.ofNat
  | digits => (natural? digits).map Int.ofNat

/-- Conditions on one word. -/
def unary? (disk : Disk) (operator word : String) : Option Bool :=
  let path : Path := ⟨word⟩
  match operator with
  | "-n" => some (word != "")
  | "-z" => some (word == "")
  | "-e" | "-r" | "-w" => some (disk.isFile path || disk.isDirectory path)
  | "-f" => some (disk.isFile path)
  | "-d" | "-x" => some (disk.isDirectory path)
  | "-s" =>
    some (disk.isDirectory path ||
      match disk.read path with
      | .ok content => content.size != 0
      | .error _ => false)
  | "-b" | "-c" | "-g" | "-h" | "-L" | "-p" | "-S" | "-t" | "-u" => some false
  | _ => none

def compare? (operator : String) (a b : Int) : Option Bool :=
  match operator with
  | "-eq" => some (a == b)
  | "-ne" => some (a != b)
  | "-lt" => some (a < b)
  | "-le" => some (a ≤ b)
  | "-gt" => some (b < a)
  | "-ge" => some (b ≤ a)
  | _ => none

/-- Conditions on two words.  The flag allows the longer sign of equality, which
the program knows and the shell does not. -/
def binary? (doubled : Bool) (operator left right : String) : Option Bool :=
  match operator with
  | "=" => some (left == right)
  | "==" => if doubled then some (left == right) else none
  | "!=" => some (left != right)
  | "<" => some (left < right)
  | ">" => some (right < left)
  | "-a" => some (left != "" && right != "")
  | "-o" => some (left != "" || right != "")
  | _ =>
    match number? left, number? right with
    | some a, some b => compare? operator a b
    | _, _ => none

/-- The truth of a condition of up to four words, or none if it is malformed.
The number of words decides how they are read. -/
def short? (doubled : Bool) (disk : Disk) : List String → Option Bool
  | [] => some false
  | [word] => some (word != "")
  | [operator, word] =>
    if operator == "!" then some (word == "") else unary? disk operator word
  | [left, operator, right] =>
    match binary? doubled operator left right with
    | some truth => some truth
    | none =>
      if left == "!" then (short? doubled disk [operator, right]).map not
      else if left == "(" && right == ")" then some (operator != "")
      else none
  | ["!", left, operator, right] => (short? doubled disk [left, operator, right]).map not
  | ["(", operator, word, ")"] => short? doubled disk [operator, word]
  | _ => none

/-- The truth of a condition.  Where the words are no short one, they are short
ones joined by `-a`, which binds tighter, and `-o`. -/
def truth? (doubled : Bool) (disk : Disk) (words : List String) : Option Bool :=
  (short? doubled disk words).orElse fun _ =>
    if words.contains "-a" || words.contains "-o" then do
      let sums ← (words.splitOn "-o").mapM fun sum => (sum.splitOn "-a").mapM (short? doubled disk)
      pure (sums.any fun terms => terms.all id)
    else none

def exitCode (doubled : Bool) (disk : Disk) (words : List String) : Nat :=
  match truth? doubled disk words with
  | some true => 0
  | some false => 1
  | none => 2

end Test
end Host
end JsLisp
