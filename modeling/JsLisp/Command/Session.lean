/-
Interactive sessions: a prompt, a line, what the line gives, and so on until
the input ends or a line asks to leave.
-/
import JsLisp.Command.Run
import JsLisp.Text.Blank

namespace JsLisp

/-- What a session left behind.  `failure` is set when its input could not be
read on. -/
structure Session where
  out : List Chunk
  err : String
  failure : Option CommandError
deriving DecidableEq

namespace Session

def greeting : String := "Welcome to tslisp\n"

def prompt : String := "tslisp > "

def leave : String := ".exit"

/-- Input in lines, and the fault that keeps the line behind them from being
read, if there is one. -/
structure Input where
  lines : List (List Char)
  fault : Option Fault

namespace Input

/-- A line loses one carriage return at its end. -/
def dropReturn (line : List Char) : List Char :=
  if line.getLast? = some '\r' then line.dropLast else line

/-- The lines of a text, as a buffered reader of lines documents them.  A line ends at a
newline, and loses it together with one carriage return in front of it.  The last line may
lack its newline, and then keeps its carriage return; if it is empty there is no such line.
Bytes that are not UTF-8 end the reading, and the line they stand in is lost. -/
def ofText (text : List Char) (defect : Option Text.Utf8.Defect) : Input :=
  let pieces := text.splitOn '\n'
  let ended := pieces.dropLast.map dropReturn
  let last := pieces.getLastD []
  match defect with
  | some defect => ⟨ended, some (.badLine (String.ofList last).utf8ByteSize defect)⟩
  | none => ⟨if last.isEmpty then ended else ended ++ [last], none⟩

def ofBytes (bytes : ByteArray) : Input :=
  let (text, defect) := Text.Utf8.decode bytes
  ofText text.toList defect

end Input

/-- Put output and complaints of a line in front of the rest of a session. -/
def after (out : List Chunk) (err : String) (rest : Session) : Session :=
  { rest with out := out ++ rest.out, err := err ++ rest.err }

/-- A line as it is run: without the blanks around it. -/
def trimmed (line : List Char) : String :=
  String.ofList (Text.trim line)

/-- Answer one line, which is neither blank nor the request to leave. -/
def answer (run : String → Except CommandError Nat × List Chunk) (line : String) :
    List Chunk × String :=
  match run line with
  | (.ok _, out) => (out, "")
  | (.error error, out) => (out, error.message ++ "\n")

/-- Prompt for each line in turn.  Blank lines only bring the next prompt. -/
def ofLines (run : String → Except CommandError Nat × List Chunk) (fault : Option Fault) :
    List (List Char) → Session
  | [] =>
    match fault with
    | none => ⟨[.own prompt, .own "\n"], "", none⟩
    | some fault => ⟨[.own prompt], "", some (.input fault)⟩
  | line :: lines =>
    let text := trimmed line
    if text = leave then ⟨[.own prompt], "", none⟩
    else if text == "" then after [.own prompt] "" (ofLines run fault lines)
    else
      let (out, err) := answer run text
      after (.own prompt :: out) err (ofLines run fault lines)

/-- A whole session, from the greeting on. -/
def run (disk : Disk) (runner : Runner) (mode : Mode) (input : Input) : Session :=
  after [.own greeting] "" (ofLines (runSource disk runner mode) input.fault input.lines)

end Session
end JsLisp
