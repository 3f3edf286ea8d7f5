/-
Reading the command line.

Options stand anywhere at their level, before or behind other arguments.  An
option's value follows its letter, an equals sign, or as the next argument; the
next argument is no value if it looks like an option itself.  Nothing is given
twice at one level, and no value is empty.
-/
import JsLisp.Disk.Path
import JsLisp.Json.Listing

namespace JsLisp

inductive Command
  | run (file : Option Path) (mode : Mode)
  | compile (files : List Path) (outDir : Option Path) (print : Bool)
  | builtins
deriving DecidableEq

structure Invocation where
  config : Option Path
  command : Command
deriving DecidableEq

namespace Arguments

/-- What a level of the command line takes: options with a value, by letter and
name, and flags by name. -/
structure Level where
  options : List (Char × String)
  flags : List String
  /-- Reading stops at the first argument that is no option. -/
  stopsAtOperand : Bool

/-- What was read at a level. -/
structure Given where
  values : List (String × String)
  flags : List String
  operands : List String

def Given.none : Given :=
  { values := [], flags := [], operands := [] }

/-- What an argument is at a level. -/
inductive Kind
  | endOfOptions
  | flag (name : String)
  | value (name value : String)
  /-- An option whose value is the next argument. -/
  | awaiting (name : String)
  | operand
  | unknown
deriving DecidableEq

/-- A long option, behind its two dashes. -/
def Level.longKind (level : Level) (cs : List Char) : Kind :=
  let name := String.ofList (cs.takeWhile (· ≠ '='))
  match cs.dropWhile (· ≠ '=') with
  | [] =>
    if level.flags.contains name then .flag name
    else if level.options.any (·.2 == name) then .awaiting name
    else .unknown
  | _ :: value =>
    if level.options.any (·.2 == name) then .value name (String.ofList value) else .unknown

/-- A short option, by its letter. -/
def Level.shortKind (level : Level) (letter : Char) (cs : List Char) : Kind :=
  match level.options.lookup letter, cs with
  | none, _ => .unknown
  | some name, [] => .awaiting name
  | some name, '=' :: value => .value name (String.ofList value)
  | some name, value => .value name (String.ofList value)

def Level.kind (level : Level) (argument : String) : Kind :=
  match argument.toList with
  | ['-', '-'] => .endOfOptions
  | '-' :: '-' :: cs => level.longKind cs
  | '-' :: letter :: cs => level.shortKind letter cs
  | _ => .operand

def looksLikeOption (argument : String) : Bool :=
  argument.toList.head? == some '-' && argument != "-"

def Given.setValue? (given : Given) (name value : String) : Option Given :=
  if value == "" || (given.values.lookup name).isSome then Option.none
  else some { given with values := given.values ++ [(name, value)] }

def Given.setFlag? (given : Given) (name : String) : Option Given :=
  if given.flags.contains name then Option.none
  else some { given with flags := given.flags ++ [name] }

def Given.addOperands (given : Given) (operands : List String) : Given :=
  { given with operands := given.operands ++ operands }

/-- Read a level.  `awaiting` is the option whose value comes next. -/
def read? (level : Level) (awaiting : Option String) (given : Given) : List String → Option Given
  | [] => if awaiting.isSome then none else some given
  | argument :: arguments =>
    match awaiting with
    | some name =>
      if looksLikeOption argument then none
      else (given.setValue? name argument).bind fun given => read? level none given arguments
    | none =>
      match level.kind argument with
      | .endOfOptions =>
        if level.stopsAtOperand then none else some (given.addOperands arguments)
      | .flag name => (given.setFlag? name).bind fun given => read? level none given arguments
      | .value name value =>
        (given.setValue? name value).bind fun given => read? level none given arguments
      | .awaiting name => read? level (some name) given arguments
      | .operand =>
        if level.stopsAtOperand then some (given.addOperands (argument :: arguments))
        else read? level none (given.addOperands [argument]) arguments
      | .unknown => none

/-- Paths are never empty. -/
def paths? (operands : List String) : Option (List Path) :=
  operands.mapM fun operand => if operand == "" then none else some ⟨operand⟩

def configOption : Char × String := ('c', "config")

def outDirOption : Char × String := ('o', "out-dir")

def Given.path (given : Given) (name : String) : Option Path :=
  (given.values.lookup name).map Path.mk

def top : Level :=
  { options := [configOption], flags := [], stopsAtOperand := true }

def runLevel : Level :=
  { options := [configOption], flags := ["tokenize", "parse"], stopsAtOperand := false }

def compileLevel : Level :=
  { options := [configOption, outDirOption], flags := ["stdout"], stopsAtOperand := false }

def builtinsLevel : Level :=
  { options := [configOption], flags := [], stopsAtOperand := false }

/-- A command with the settings file given at its own level. -/
def command? (name : String) (arguments : List String) : Option (Command × Option Path) :=
  match name with
  | "run" => do
    let given ← read? runLevel none .none arguments
    let files ← paths? given.operands
    let tokenize := given.flags.contains "tokenize"
    let parse := given.flags.contains "parse"
    if files.length ≤ 1 ∧ !(tokenize && parse) then
      pure (.run files.head? (Mode.ofFlags tokenize parse), given.path "config")
    else none
  | "compile" => do
    let given ← read? compileLevel none .none arguments
    let files ← paths? given.operands
    if files.isEmpty then none
    else
      pure (.compile files (given.path "out-dir") (given.flags.contains "stdout"),
        given.path "config")
  | "builtins" => do
    let given ← read? builtinsLevel none .none arguments
    if given.operands.isEmpty then pure (.builtins, given.path "config") else none
  | _ => none

/-- The invocation that a command line asks for.  A settings file given behind
the command wins over one given before it. -/
def parse? (arguments : List String) : Option Invocation := do
  let given ← read? top none .none arguments
  match given.operands with
  | [] => none
  | name :: arguments =>
    let (command, config) ← command? name arguments
    pure ⟨config.orElse fun _ => given.path "config", command⟩

end Arguments
end JsLisp
