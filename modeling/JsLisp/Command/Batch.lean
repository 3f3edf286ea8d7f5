/-
Compiling files, one after the other, up to the first that fails.
-/
import JsLisp.Command.Run

namespace JsLisp

/-- A batch changes the disk, also when it fails half way. -/
abbrev BatchM := ExceptT CommandError (StateM Disk)

namespace Batch

def compileFile (disk : Disk) (source : Path) : Except CommandError String := do
  let text ← (disk.readText source).mapError (.read source)
  (compile text).mapError .compile

/-- Carry out a disk operation, naming its target if it fails. -/
def writing (target : Path) (action : DiskM Unit) : BatchM Unit :=
  fun disk =>
    let outcome := action.run disk
    (outcome.1.mapError (.write target), outcome.2)

/-- Write code to its file, with the directories above it. -/
def save (target : Path) (code : String) : BatchM Unit := do
  if let some parent := target.parent? then
    if parent.text != "" then writing parent (Disk.ensureDirectories parent)
  writing target (Disk.write target code.toUTF8)

/-- Compile a file and say where its code went. -/
def compileOne (output : Output) (source : Path) : BatchM Path := do
  let code ← liftExcept (compileFile (← get) source)
  let target := source.output output.dir output.extension
  save target code
  pure target

def compileAll (output : Output) : List Path → BatchM (List Path)
  | [] => pure []
  | source :: sources => do
    let target ← compileOne output source
    let targets ← compileAll output sources
    pure (target :: targets)

/-- Print the code of each file instead.  What was printed before a failure
stays printed. -/
def printAll (disk : Disk) : List Path → Except CommandError Unit × List Chunk
  | [] => (.ok (), [])
  | source :: sources =>
    match compileFile disk source with
    | .error error => (.error error, [])
    | .ok code =>
      let later := printAll disk sources
      (later.1, .own (code ++ "\n") :: later.2)

end Batch
end JsLisp
