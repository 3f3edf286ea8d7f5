/-
Settings: which program runs the code, and where compiled files go.
-/
import JsLisp.Disk.Basic
import JsLisp.Text.Quoted
import JsLisp.Toml.Document

namespace JsLisp

/-- The program that runs code, and the arguments it gets before the code. -/
structure Runner where
  program : String
  args : List String
deriving DecidableEq

/-- The extension of compiled files, and the directory they go to. -/
structure Output where
  extension : String
  dir : Option Path
deriving DecidableEq

structure Config where
  runner : Runner
  output : Output
deriving DecidableEq

inductive ConfigError
  | read (path : Path) (fault : Fault)
  | malformed (path : Path)
deriving DecidableEq

namespace ConfigError

def message : ConfigError → String
  | read path fault => s!"failed to read {path.text}: {fault.message}"
  | malformed path => s!"invalid config {path.text}"

end ConfigError

def Runner.default : Runner :=
  { program := "node", args := ["-e"] }

def Output.default : Output :=
  { extension := "js", dir := none }

namespace Config

def default : Config :=
  { runner := .default, output := .default }

def fileName : String := "tslisp.toml"

/-! ## Reading settings

A section is a table of its fields, or an array of them in order.  Fields that
are left out keep their defaults; unknown ones are refused in a table and
ignored in an array. -/

def text? : Toml.Value → Option String
  | .string text => some text
  | _ => none

def texts? : Toml.Value → Option (List String)
  | .array items | .tables items => items.mapM text?
  | _ => none

/-- Set the fields of a section, `fields` giving them in order. -/
def fill? {α : Type} (fields : List (String × (α → Toml.Value → Option α))) (start : α) :
    Toml.Value → Option α
  | .table _ entries =>
    entries.foldlM (fun current entry =>
      (fields.lookup entry.1).bind fun set => set current entry.2) start
  | .array items | .tables items =>
    (fields.zip items).foldlM (fun current given => given.1.2 current given.2) start
  | _ => none

def runner? : Toml.Value → Option Runner :=
  fill?
    [ ("program", fun runner value => (text? value).map ({ runner with program := · })),
      ("args", fun runner value => (texts? value).map ({ runner with args := · })) ]
    .default

def output? : Toml.Value → Option Output :=
  fill?
    [ ("extension", fun output value => (text? value).map ({ output with extension := · })),
      ("dir", fun output value => (text? value).map fun dir => { output with dir := some ⟨dir⟩ }) ]
    .default

def ofEntries? (entries : Toml.Entries) : Option Config :=
  entries.foldlM (fun config entry =>
    match entry.1 with
    | "runtime" => (runner? entry.2).map ({ config with runner := · })
    | "output" => (output? entry.2).map ({ config with output := · })
    | _ => none) default

def parse? (source : String) : Option Config :=
  (Toml.parse? source).bind ofEntries?

def ofFile (disk : Disk) (path : Path) : Except ConfigError Config :=
  match disk.readText path with
  | .error fault => .error (.read path fault)
  | .ok source =>
    match parse? source with
    | some config => .ok config
    | none => .error (.malformed path)

/-- The settings of the named file, or of the usual file in `dir` if it is
there. -/
def load (disk : Disk) (explicit : Option Path) (dir : Path) : Except ConfigError Config :=
  match explicit with
  | some path => ofFile disk path
  | none =>
    let path := dir.join ⟨fileName⟩
    if disk.isFile path then ofFile disk path else .ok default

end Config
end JsLisp
