/-
Programs that can be started: what one leaves behind.
-/
namespace JsLisp
namespace Host

/-- How a program ended. -/
inductive Status
  | exited (code : Nat)
  | killed (signal : Nat)
deriving DecidableEq

/-- What a program printed, and how it ended. -/
structure Outcome where
  output : String
  status : Status
deriving DecidableEq

/-- A program that prints nothing. -/
def Outcome.silent (code : Nat) : Outcome :=
  { output := "", status := .exited code }

end Host
end JsLisp
