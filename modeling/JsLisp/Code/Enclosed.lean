/-
Whether emitted code is a single parenthesised group.

A statement needs parentheses around its condition, and code that already is
one group needs no second pair.  Parentheses inside string literals do not
count.
-/
namespace JsLisp
namespace Code

mutual

/-- Outside a string literal, `depth` groups deep: whether the parenthesis that
closes the outermost group is the last character. -/
def closesLast (depth : Nat) : List Char → Bool
  | [] => false
  | c :: cs =>
    if c = '"' then closesLastInString depth cs
    else if c = '(' then closesLast (depth + 1) cs
    else if c = ')' then
      if depth ≤ 1 then cs.isEmpty else closesLast (depth - 1) cs
    else closesLast depth cs

/-- The same inside a string literal, where a backslash takes the next
character with it. -/
def closesLastInString (depth : Nat) : List Char → Bool
  | [] => false
  | ['\\'] => false
  | '\\' :: _ :: cs => closesLastInString depth cs
  | c :: cs => if c = '"' then closesLast depth cs else closesLastInString depth cs

end

/-- The code starts with a parenthesis whose partner ends it. -/
def isEnclosed (code : String) : Bool :=
  match code.toList with
  | '(' :: cs => closesLast 1 cs
  | _ => false

end Code
end JsLisp
