/-
How many arguments a builtin takes.
-/
namespace JsLisp

inductive Arity
  | exactly (n : Nat)
  | between (min max : Nat)
  | atLeast (n : Nat)
  | even
  | any
deriving DecidableEq

namespace Arity

def accepts : Arity → Nat → Bool
  | exactly n, count => count == n
  | between min max, count => min ≤ count && count ≤ max
  | atLeast n, count => n ≤ count
  | even, count => count % 2 == 0
  | any, _ => true

/-- Counts up to three are written out. -/
def countWord : Nat → String
  | 0 => "zero"
  | 1 => "one"
  | 2 => "two"
  | 3 => "three"
  | n => toString n

def argumentWord (n : Nat) : String :=
  if n = 1 then "argument" else "arguments"

/-- The arity as a reader of an error message meets it. -/
def describe : Arity → String
  | exactly n => s!"exactly {countWord n} {argumentWord n}"
  | between min max => s!"{countWord min} or {countWord max} arguments"
  | atLeast n => s!"at least {countWord n} {argumentWord n}"
  | even => "an even number of arguments"
  | any => "any number of arguments"

/-- The arity as a record listing shows it. -/
def inspect : Arity → String
  | exactly n => s!"Exactly({n})"
  | between min max => s!"Between({min}, {max})"
  | atLeast n => s!"AtLeast({n})"
  | even => "Even"
  | any => "Any"

end Arity
end JsLisp
