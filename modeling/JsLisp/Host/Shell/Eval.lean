/-
Running shell scripts.
-/
import JsLisp.Host.Basic
import JsLisp.Host.Echo
import JsLisp.Host.Shell.Script
import JsLisp.Host.Test

namespace JsLisp
namespace Host
namespace Shell

/-- A shell between two commands. -/
structure State where
  /-- The name under which the script runs. -/
  zero : String
  args : List String
  bindings : List (String × String)
  /-- The exit code of the latest command. -/
  status : Nat
  output : String
  disk : Disk

/-- Whether a shell goes on. -/
inductive Flow
  | going
  | ended (status : Status)

/-- A shell knows its own number only to send itself signals. -/
def ownNumber : String := "1"

namespace State

def print (state : State) (text : String) : State :=
  { state with output := state.output ++ text, status := 0 }

def finish (state : State) (status : Nat) : Flow × State :=
  (.going, { state with status := status })

def exit (state : State) (code : Nat) : Flow × State :=
  (.ended (.exited code), { state with status := code })

/-! ## Expansion -/

def argument (state : State) (n : Nat) : String :=
  if n = 0 then state.zero else state.args.getD (n - 1) ""

def parameter (state : State) (name : String) : String :=
  match name with
  | "#" => toString state.args.length
  | "?" => toString state.status
  | "$" => ownNumber
  | "@" | "*" => " ".intercalate state.args
  | "!" | "-" => ""
  | _ =>
    match Test.natural? name.toList with
    | some n => state.argument n
    | none => (state.bindings.lookup name).getD ""

/-- Add text to the field under way, which starts one if there is none. -/
def extend (text : List Char) : Option (List Char) → Option (List Char)
  | none => some text
  | some field => some (field ++ text)

/-- Cut unquoted text at blanks.  `current` is the field under way. -/
def cut (fields : List (List Char)) (current : Option (List Char)) :
    List Char → List (List Char) × Option (List Char)
  | [] => (fields, current)
  | c :: cs =>
    if isBlank c || c = '\n' then cut (fields ++ current.toList) none cs
    else cut fields (extend [c] current) cs

/-- Expand the pieces of a word into fields.  All arguments in quotes stay
apart. -/
def expandPieces (state : State) (fields : List (List Char)) (current : Option (List Char)) :
    Word → List (List Char)
  | [] => fields ++ current.toList
  | .text chars _ :: pieces => state.expandPieces fields (extend chars current) pieces
  | .parameter "@" true :: pieces =>
    match state.args.map String.toList with
    | [] => state.expandPieces fields current pieces
    | [arg] => state.expandPieces fields (extend arg current) pieces
    | arg :: more =>
      state.expandPieces (fields ++ (extend arg current).toList ++ more.dropLast) more.getLast? pieces
  | .parameter name true :: pieces =>
    state.expandPieces fields (extend (state.parameter name).toList current) pieces
  | .parameter name false :: pieces =>
    let (fields, current) := cut fields current (state.parameter name).toList
    state.expandPieces fields current pieces

def expand (state : State) (words : List Word) : List String :=
  (words.flatMap (state.expandPieces [] none)).map String.ofList

/-- A word that sets a variable: a name, an equals sign, and the value. -/
def assignment? (state : State) : Word → Option (String × String)
  | .text chars false :: pieces =>
    let name := chars.takeWhile (· ≠ '=')
    match chars.dropWhile (· ≠ '=') with
    | _ :: value =>
      if name.head?.any isNameStart && name.all isNameChar then
        let rest := pieces.flatMap fun piece =>
          match piece with
          | .text chars _ => chars
          | .parameter name _ => (state.parameter name).toList
        some (String.ofList name, String.ofList (value ++ rest))
      else none
    | [] => none
  | _ => none

def assign (state : State) (name value : String) : State :=
  { state with
    bindings := (name, value) :: state.bindings.filter (·.1 ≠ name), status := 0 }

/-! ## Commands -/

/-- Numbers have 31 bits. -/
def decimal? (cs : List Char) : Option Nat :=
  (Test.natural? cs).filter (· < Nat.pow 2 31)

def signals : List (String × Nat) :=
  [("HUP", 1), ("INT", 2), ("QUIT", 3), ("ILL", 4), ("TRAP", 5), ("ABRT", 6), ("BUS", 7), ("FPE", 8),
    ("KILL", 9), ("USR1", 10), ("SEGV", 11), ("USR2", 12), ("PIPE", 13), ("ALRM", 14), ("TERM", 15)]

/-- A signal by number or by name, with or without its first three letters. -/
def signal? (name : List Char) : Option Nat :=
  (decimal? name).orElse fun _ =>
    match name with
    | 'S' :: 'I' :: 'G' :: short => signals.lookup (String.ofList short)
    | _ => signals.lookup (String.ofList name)

/-- Send a signal.  The only process that is known is the shell itself. -/
def kill (state : State) (words : List String) : Flow × State :=
  let (signal, targets) := match words with
    | "-s" :: name :: targets => (signal? name.toList, targets)
    | word :: targets =>
      match word.toList with
      | '-' :: name => (signal? name, targets)
      | _ => (some 15, words)
    | [] => (none, [])
  match signal, targets with
  | none, _ => state.finish 2
  | some _, [] => state.finish 2
  | some signal, targets =>
    if !targets.contains ownNumber then state.finish 1
    else if signal = 0 then state.finish 0
    else (.ended (.killed signal), state)

/-- The exit code of a command that is none of the shell's own. -/
def missing (state : State) (name : String) : Nat :=
  if name.toList.contains '/' && (state.disk.isFile ⟨name⟩ || state.disk.isDirectory ⟨name⟩) then 126
  else 127

def isName (text : String) : Bool :=
  text.toList.head?.any isNameStart && text.toList.all isNameChar

def command (state : State) (name : String) (args : List String) : Flow × State :=
  match name with
  | ":" | "true" => state.finish 0
  | "false" => state.finish 1
  | "exit" =>
    match args with
    | [] => state.exit state.status
    | code :: _ =>
      match decimal? code.toList with
      | some n => state.exit (n % 256)
      | none => state.exit 2
  | "kill" => state.kill args
  | "test" => state.finish (Test.exitCode false state.disk args)
  | "[" =>
    if args.getLast? = some "]" then state.finish (Test.exitCode false state.disk args.dropLast)
    else state.finish 2
  | "echo" => (.going, state.print (Echo.command args))
  | "printf" =>
    if args.isEmpty then state.finish 2 else (.going, state.print (Echo.printf args))
  | "export" | "readonly" =>
    if args.all fun arg => isName (String.ofList (arg.toList.takeWhile (· ≠ '='))) then
      state.finish 0
    else state.exit 2
  | _ => state.finish (state.missing name)

/-- Set the variables in front, then run the command behind them. -/
def simple (state : State) (words : List Word) : Flow × State :=
  let settings := (words.takeWhile fun word => (state.assignment? word).isSome)
  let assigned := settings.foldl (fun state word =>
    match state.assignment? word with
    | some (name, value) => state.assign name value
    | none => state) state
  match state.expand (words.drop settings.length) with
  | [] => (.going, { assigned with status := 0 })
  | name :: args => state.command name args

end State

/-! ## Scripts -/

/-- Go on with `next`, unless the shell has ended. -/
def Flow.andThen (outcome : Flow × State) (next : State → Flow × State) : Flow × State :=
  match outcome.1 with
  | .going => next outcome.2
  | .ended _ => outcome

/-- What a part that runs by itself leaves to its parent: its output and exit
code.  A signal to the shell reaches the parent too. -/
def Flow.inside (parent : State) (outcome : Flow × State) : Flow × State :=
  match outcome.1 with
  | .ended (.killed signal) => (.ended (.killed signal), { parent with output := outcome.2.output })
  | .ended (.exited _) | .going =>
    (.going, { parent with output := outcome.2.output, status := outcome.2.status })

def eval (state : State) : Script → Flow × State
  | .skip => state.finish 0
  | .simple words => state.simple words
  | .silenced body =>
    let outcome := eval state body
    (outcome.1, { outcome.2 with output := state.output })
  | .subshell body => Flow.inside state (eval state body)
  | .sequence first second => Flow.andThen (eval state first) fun state => eval state second
  | .both first second =>
    Flow.andThen (eval state first) fun state =>
      if state.status = 0 then eval state second else (.going, state)
  | .either first second =>
    Flow.andThen (eval state first) fun state =>
      if state.status = 0 then (.going, state) else eval state second
  | .negation body =>
    Flow.andThen (eval state body) fun state => state.finish (if state.status = 0 then 1 else 0)
  | .pipe first second =>
    let left := Flow.inside state (eval state first)
    Flow.andThen (left.1, state) fun state => Flow.inside state (eval state second)
  | .background body =>
    let outcome := Flow.inside state (eval state body)
    Flow.andThen outcome fun state => state.finish 0
  | .branch condition consequence alternative =>
    Flow.andThen (eval state condition) fun state =>
      if state.status = 0 then eval state consequence else eval state alternative

/-- Run line after line.  A line that cannot be read ends the shell. -/
def runLines : Nat → State → List Lexeme → Flow × State
  | 0, state, _ => (.going, state)
  | fuel + 1, state, lexemes =>
    match skipNewlines lexemes with
    | [] => (.going, state)
    | lexemes =>
      match line? lexemes with
      | none => state.exit 2
      | some (script, rest) =>
        Flow.andThen (eval state script) fun state => runLines fuel state rest

def run (disk : Disk) (script zero : String) (args : List String) : Outcome :=
  let lexemes := lex script
  let start : State :=
    { zero := zero, args := args, bindings := [], status := 0, output := "", disk := disk }
  let (flow, state) := runLines (lexemes.length + 1) start lexemes
  { output := state.output,
    status := match flow with
      | .going => .exited state.status
      | .ended status => status }

end Shell
end Host
end JsLisp
