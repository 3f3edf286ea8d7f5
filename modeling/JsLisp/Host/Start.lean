/-
Starting a program by name.

A host offers a handful of standard programs: a shell, the condition program,
`echo`, and the two that only succeed or fail.
-/
import JsLisp.Host.Shell.Eval

namespace JsLisp
namespace Host

/-- The shell.  An option with the letter `c` takes the script from the
arguments; otherwise the first argument names a file that holds it. -/
def shell (disk : Disk) (args : List String) : Outcome :=
  let isOption (arg : String) := arg.toList.head? == some '-' && arg != "-"
  let inline := (args.takeWhile isOption).any (·.toList.contains 'c')
  match args.dropWhile isOption with
  | [] => .silent (if inline then 2 else 0)
  | first :: more =>
    if inline then
      Shell.run disk first (more.headD "sh") more.tail
    else
      match disk.readText ⟨first⟩ with
      | .ok script => Shell.run disk script first more
      | .error _ => .silent 2

/-- The programs a host offers. -/
def program? (disk : Disk) : String → Option (List String → Outcome)
  | "true" => some fun _ => .silent 0
  | "false" => some fun _ => .silent 1
  | "echo" => some fun args => { output := Echo.program args, status := .exited 0 }
  | "test" => some fun args => .silent (Test.exitCode true disk args)
  | "sh" => some (shell disk)
  | _ => none

/-- The name under which a program is looked up.  A path has to lead to a
directory of programs. -/
def programName? (name : String) : Option String :=
  match name.toList.splitOn '/' with
  | [_] => some name
  | [[], ['b', 'i', 'n'], base] => some (String.ofList base)
  | [[], ['u', 's', 'r'], ['b', 'i', 'n'], base] => some (String.ofList base)
  | _ => none

/-- Start a program.  Files on the disk are not programs. -/
def start (disk : Disk) (name : String) (args : List String) : Except Fault Outcome :=
  if (name :: args).any (·.toList.contains (Char.ofNat 0)) then .error .nulInCommand
  else
    match (programName? name).bind (program? disk) with
    | some run => .ok (run args)
    | none =>
      if name.toList.contains '/' then
        match disk.locate ⟨name⟩ with
        | .error fault => .error fault
        | .ok place => .error (if (disk.entry? place).isSome then .denied else .notFound)
      else .error .notFound

end Host
end JsLisp
