/-
The whole tool: from arguments, input and a disk to an exit code, output and
the disk afterwards.
-/
import JsLisp.Command.Arguments
import JsLisp.Command.Batch
import JsLisp.Command.Session

namespace JsLisp

/-- What the tool leaves behind.  `complaints` went to the error stream on the
way, and `failure` is why it gave up. -/
structure Report where
  exitCode : Nat
  output : List Chunk
  complaints : String
  failure : Option CommandError
  disk : Disk

namespace Tool

/-- Arguments that make no sense. -/
def rejected (disk : Disk) : Report :=
  { exitCode := 2, output := [], complaints := "", failure := none, disk := disk }

def report (disk : Disk) (outcome : Except CommandError Nat) (output : List Chunk) : Report :=
  match outcome with
  | .ok code => { exitCode := code, output := output, complaints := "", failure := none, disk := disk }
  | .error error =>
    { exitCode := 1, output := output, complaints := "", failure := some error, disk := disk }

/-- Names are padded to a column of eight. -/
def builtinLine (builtin : Builtin) : String :=
  let padding := String.ofList (List.replicate (8 - builtin.name.length) ' ')
  builtin.name ++ padding ++ " " ++ builtin.arity.describe ++ "\n"

def builtinListing : String :=
  (Builtin.all.map builtinLine).foldr (· ++ ·) ""

def perform (disk : Disk) (input : ByteArray) (config : Config) : Command → Report
  | .run (some file) mode =>
    let (outcome, output) := runFile disk config.runner mode file
    report disk outcome output
  | .run none mode =>
    let session := Session.run disk config.runner mode (.ofBytes input)
    { exitCode := if session.failure.isSome then 1 else 0, output := session.out,
      complaints := session.err, failure := session.failure, disk := disk }
  | .compile files _ true =>
    let (outcome, output) := Batch.printAll disk files
    report disk (outcome.map fun _ => 0) output
  | .compile files outDir false =>
    let output := { config.output with dir := outDir.orElse fun _ => config.output.dir }
    let (outcome, disk) := (Batch.compileAll output files).run disk
    report disk (outcome.map fun _ => 0) []
  | .builtins => report disk (.ok 0) [.own builtinListing]

/-- The working directory as an absolute path. -/
def workingDirectory (disk : Disk) : Path :=
  ⟨"/" ++ "/".intercalate disk.here⟩

/-- Arguments are checked before the settings are loaded, and the settings
before the command runs. -/
def run (disk : Disk) (input : ByteArray) (arguments : List String) : Report :=
  match Arguments.parse? arguments with
  | none => rejected disk
  | some invocation =>
    match Config.load disk invocation.config (workingDirectory disk) with
    | .error error => report disk (.error (.config error)) []
    | .ok config => perform disk input config invocation.command

/-! ## What an invocation looks at -/

/-- The paths an invocation may read or write, as far as the settings on the
disk tell. -/
def mentioned (disk : Disk) (arguments : List String) : List Path :=
  match Arguments.parse? arguments with
  | none => []
  | some invocation =>
    let settings := invocation.config.getD ((workingDirectory disk).join ⟨Config.fileName⟩)
    let targets := match invocation.command with
      | .run file _ => file.toList
      | .compile files outDir _ =>
        match Config.load disk invocation.config (workingDirectory disk) with
        | .error _ => files
        | .ok config =>
          files ++ files.map fun file =>
            file.output (outDir.orElse fun _ => config.output.dir) config.output.extension
      | .builtins => []
    settings :: targets

/-- Only a session reads input. -/
def readsInput (arguments : List String) : Bool :=
  match Arguments.parse? arguments with
  | some ⟨_, .run none _⟩ => true
  | _ => false

end Tool
end JsLisp
