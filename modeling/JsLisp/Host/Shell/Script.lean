/-
Shell scripts: lists of commands joined by conditions.

The grammar covers simple commands, conditions, negation, grouping and
`if`.  Loops, functions and pattern matching are refused like any other
malformed script.
-/
import JsLisp.Host.Shell.Word

namespace JsLisp
namespace Host
namespace Shell

inductive Script
  | skip
  | simple (words : List Word)
  /-- The output goes elsewhere. -/
  | silenced (body : Script)
  | subshell (body : Script)
  | sequence (first second : Script)
  | both (first second : Script)
  | either (first second : Script)
  | negation (body : Script)
  /-- Only the last command's output is seen, and its status counts. -/
  | pipe (first second : Script)
  | background (body : Script)
  | branch (condition consequence alternative : Script)

/-- Words that end a list of commands. -/
def closers : List String :=
  ["then", "else", "elif", "fi", "do", "done", "esac", "\x7d"]

/-- Words that start a construct which is not offered. -/
def refused : List String :=
  ["while", "until", "for", "case", "in"]

/-- The reserved word at the head, where a command may start. -/
def reserved? : List Lexeme → Option String
  | .word word :: _ =>
    (bare? word).filter fun text =>
      text == "!" || text == "\x7b" || text == "if" || closers.contains text ||
        refused.contains text
  | _ => none

def skipNewlines (lexemes : List Lexeme) : List Lexeme :=
  lexemes.dropWhile (· == .newline)

/-- Drop a reserved word that has to come next. -/
def expect? (text : String) (lexemes : List Lexeme) : Option (List Lexeme) :=
  if reserved? lexemes = some text then some lexemes.tail else none

/-- The words and redirections of a simple command, the latest word first. -/
def simple? : List Word → Bool → List Lexeme → Option (Script × List Lexeme)
  | words, silenced, .word word :: rest => simple? (word :: words) silenced rest
  | words, silenced, .redirection ofOutput :: .word _ :: rest =>
    simple? words (silenced || ofOutput) rest
  | _, _, .redirection _ :: _ => none
  | _, _, .operator "(" :: _ => none
  | words, silenced, rest =>
    let command := Script.simple words.reverse
    some (if silenced then .silenced command else command, rest)

/-- Skip the redirections behind a grouping. -/
def trailing? : Bool → List Lexeme → Option (Bool × List Lexeme)
  | silenced, .redirection ofOutput :: .word _ :: rest => trailing? (silenced || ofOutput) rest
  | _, .redirection _ :: _ => none
  | silenced, rest => some (silenced, rest)

/-- A grouping together with the redirections behind it. -/
def grouped? (script : Script) (rest : List Lexeme) : Option (Script × List Lexeme) :=
  (trailing? false rest).map fun (silenced, rest) =>
    (if silenced then .silenced script else script, rest)

/-- Whether no further command can start here. -/
def endsList (lexemes : List Lexeme) : Bool :=
  match lexemes with
  | [] => true
  | .newline :: _ => true
  | .operator ")" :: _ => true
  | _ => (reserved? lexemes).any closers.contains

/- Every nested call gives up fuel, and a lexeme is read every few calls, so a
multiple of the number of lexemes is enough. -/
mutual

def command? : Nat → List Lexeme → Option (Script × List Lexeme)
  | 0, _ => none
  | fuel + 1, lexemes =>
    match reserved? lexemes, lexemes with
    | some "\x7b", _ => do
      let (body, rest) ← list? false fuel (skipNewlines lexemes.tail)
      grouped? body (← expect? "\x7d" rest)
    | some "if", _ => do
      let (script, rest) ← branch? fuel lexemes.tail
      grouped? script rest
    | some _, _ => none
    | none, .operator "(" :: more => do
      let (body, rest) ← list? false fuel (skipNewlines more)
      match rest with
      | .operator ")" :: rest => grouped? (.subshell body) rest
      | _ => none
    | none, .word _ :: _ => simple? [] false lexemes
    | none, .redirection _ :: _ => simple? [] false lexemes
    | none, _ => none

/-- What follows `if` or `elif`, up to and including `fi`. -/
def branch? : Nat → List Lexeme → Option (Script × List Lexeme)
  | 0, _ => none
  | fuel + 1, lexemes => do
    let (condition, rest) ← list? false fuel (skipNewlines lexemes)
    let (consequence, rest) ← list? false fuel (skipNewlines (← expect? "then" rest))
    match reserved? rest with
    | some "fi" => pure (.branch condition consequence .skip, rest.tail)
    | some "elif" =>
      let (alternative, rest) ← branch? fuel rest.tail
      pure (.branch condition consequence alternative, rest)
    | some "else" =>
      let (alternative, rest) ← list? false fuel (skipNewlines rest.tail)
      pure (.branch condition consequence alternative, ← expect? "fi" rest)
    | _ => none

def pipeline? : Nat → List Lexeme → Option (Script × List Lexeme)
  | 0, _ => none
  | fuel + 1, lexemes => do
    let (first, rest) ← command? fuel lexemes
    match rest with
    | .operator "|" :: more =>
      let (second, rest) ← pipeline? fuel (skipNewlines more)
      pure (.pipe first second, rest)
    | _ => pure (first, rest)

def negatable? : Nat → List Lexeme → Option (Script × List Lexeme)
  | 0, _ => none
  | fuel + 1, lexemes =>
    if reserved? lexemes = some "!" then
      (pipeline? fuel lexemes.tail).map fun (script, rest) => (.negation script, rest)
    else pipeline? fuel lexemes

/-- Conditions associate to the left, so what was read so far is passed on. -/
def conditions? : Nat → Script → List Lexeme → Option (Script × List Lexeme)
  | 0, _, _ => none
  | fuel + 1, first, lexemes =>
    match lexemes with
    | .operator "&&" :: more => do
      let (second, rest) ← negatable? fuel (skipNewlines more)
      conditions? fuel (.both first second) rest
    | .operator "||" :: more => do
      let (second, rest) ← negatable? fuel (skipNewlines more)
      conditions? fuel (.either first second) rest
    | _ => some (first, lexemes)

/-- Commands up to something that ends a list.  There is at least one.  A list
of one line also ends with its line. -/
def list? (oneLine : Bool) : Nat → List Lexeme → Option (Script × List Lexeme)
  | 0, _ => none
  | fuel + 1, lexemes => do
    let (first, rest) ← negatable? fuel lexemes
    let (script, rest) ← conditions? fuel first rest
    let script := match rest with
      | .operator "&" :: _ => Script.background script
      | _ => script
    let more := match rest with
      | .operator ";" :: more | .operator "&" :: more => some more
      | .newline :: more => if oneLine then none else some more
      | _ => none
    match more with
    | none => pure (script, rest)
    | some more =>
      let more := if oneLine then more else skipNewlines more
      if endsList more then pure (script, more)
      else
        let (later, rest) ← list? oneLine fuel more
        pure (.sequence script later, rest)

end

/-- The first line of a script and the lines behind it, with nothing left over
in between. -/
def line? (lexemes : List Lexeme) : Option (Script × List Lexeme) :=
  match list? true (8 * lexemes.length + 8) lexemes with
  | some (script, []) => some (script, [])
  | some (script, .newline :: rest) => some (script, rest)
  | _ => none

end Shell
end Host
end JsLisp
