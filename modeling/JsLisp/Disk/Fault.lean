/-
What can go wrong outside the program, with the two texts of each fault: the
message, and the record that the command line shows when it gives up.
-/
import JsLisp.Text.Utf8

namespace JsLisp

inductive Fault
  | notFound
  | denied
  | alreadyExists
  | notDirectory
  | isDirectory
  /-- A file is not UTF-8. -/
  | notText
  /-- A path holds a NUL character. -/
  | nulInPath
  /-- A program or one of its arguments holds a NUL character. -/
  | nulInCommand
  /-- A line of input is not UTF-8 from the given byte on. -/
  | badLine (index : Nat) (defect : Text.Utf8.Defect)
deriving DecidableEq

namespace Fault

/-- The wording of the fault, without the number that some have. -/
def wording : Fault → String
  | notFound => "No such file or directory"
  | denied => "Permission denied"
  | alreadyExists => "File exists"
  | notDirectory => "Not a directory"
  | isDirectory => "Is a directory"
  | notText => "stream did not contain valid UTF-8"
  | nulInPath => "file name contained an unexpected NUL byte"
  | nulInCommand => "nul byte found in provided data"
  | badLine index defect => defect.message index

/-- The number by which the system knows the fault. -/
def number? : Fault → Option Nat
  | notFound => some 2
  | denied => some 13
  | alreadyExists => some 17
  | notDirectory => some 20
  | isDirectory => some 21
  | notText | nulInPath | nulInCommand | badLine .. => none

def kind : Fault → String
  | notFound => "NotFound"
  | denied => "PermissionDenied"
  | alreadyExists => "AlreadyExists"
  | notDirectory => "NotADirectory"
  | isDirectory => "IsADirectory"
  | notText | badLine .. => "InvalidData"
  | nulInPath | nulInCommand => "InvalidInput"

def message (fault : Fault) : String :=
  match fault.number? with
  | some number => s!"{fault.wording} (os error {number})"
  | none => fault.wording

def inspect (fault : Fault) : String :=
  match fault.number? with
  | some number =>
    s!"Os \x7b code: {number}, kind: {fault.kind}, message: \"{fault.wording}\" \x7d"
  | none => s!"Error \x7b kind: {fault.kind}, message: \"{fault.wording}\" \x7d"

end Fault
end JsLisp
