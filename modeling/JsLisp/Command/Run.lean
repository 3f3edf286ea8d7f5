/-
Running a source: listing it, or compiling it and handing the code to the
configured program.
-/
import JsLisp.Command.Error
import JsLisp.Host.Start
import JsLisp.Json.Listing

namespace JsLisp

/-- A stretch of output, written by the tool itself or by a program it
started. -/
inductive Chunk
  | own (text : String)
  | started (text : String)
deriving DecidableEq

namespace Chunk

/-- What the tool itself wrote. -/
def ownText : List Chunk → String
  | [] => ""
  | own text :: chunks => text ++ ownText chunks
  | started _ :: chunks => ownText chunks

/-- Everything that was written, in order. -/
def allText : List Chunk → String
  | [] => ""
  | own text :: chunks => text ++ allText chunks
  | started text :: chunks => text ++ allText chunks

end Chunk

/-- The code to report for a program.  A program that was killed has none of
its own. -/
def Host.Status.code : Host.Status → Nat
  | .exited code => code
  | .killed _ => 1

/-- Start the runner on code, which comes behind its own arguments. -/
def Runner.execute (runner : Runner) (disk : Disk) (code : String) :
    Except CommandError Host.Outcome :=
  (Host.start disk runner.program (runner.args ++ [code])).mapError (.start runner.program)

/-- Run a source, and say what to report and what was written. -/
def runSource (disk : Disk) (runner : Runner) (mode : Mode) (source : String) :
    Except CommandError Nat × List Chunk :=
  match mode with
  | .execute =>
    match compile source with
    | .error error => (.error (.compile error), [])
    | .ok code =>
      match runner.execute disk code with
      | .error error => (.error error, [])
      | .ok outcome => (.ok outcome.status.code, [.started outcome.output])
  | .tokenize | .parse =>
    match listing mode source with
    | .error error => (.error (.compile error), [])
    | .ok text => (.ok 0, [.own (text ++ "\n")])

def runFile (disk : Disk) (runner : Runner) (mode : Mode) (path : Path) :
    Except CommandError Nat × List Chunk :=
  match disk.readText path with
  | .error fault => (.error (.read path fault), [])
  | .ok source => runSource disk runner mode source

end JsLisp
