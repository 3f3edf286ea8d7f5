/-
Programs that print their arguments.
-/
namespace JsLisp
namespace Host
namespace Echo

def digit? (base : Nat) (c : Char) : Option Nat :=
  let value? :=
    if '0' ≤ c ∧ c ≤ '9' then some (c.toNat - 48)
    else if 'a' ≤ c ∧ c ≤ 'f' then some (c.toNat - 87)
    else if 'A' ≤ c ∧ c ≤ 'F' then some (c.toNat - 55)
    else none
  value?.filter (· < base)

def simpleEscape? : Char → Option Char
  | 'a' => some (Char.ofNat 7)
  | 'b' => some (Char.ofNat 8)
  | 'e' => some (Char.ofNat 27)
  | 'f' => some (Char.ofNat 12)
  | 'n' => some '\n'
  | 'r' => some '\r'
  | 't' => some '\t'
  | 'v' => some (Char.ofNat 11)
  | '\\' => some '\\'
  | _ => none

/-- The character that up to `most` digits stand for, and the rest. -/
def numbered (base most : Nat) (cs : List Char) : Char × List Char :=
  let digits := (cs.take most).takeWhile fun c => (digit? base c).isSome
  (Char.ofNat (digits.foldl (fun n c => base * n + (digit? base c).getD 0) 0 % 256),
    cs.drop digits.length)

/-- The character that the text after a backslash stands for, and the rest.  A
zero may stand before three octal digits.  The flag allows hexadecimal digits,
which the program knows and the shell does not. -/
def escape? (hex : Bool) : List Char → Option (Char × List Char)
  | [] => none
  | '0' :: cs => some (numbered 8 3 cs)
  | 'x' :: c :: cs =>
    if hex && (digit? 16 c).isSome then some (numbered 16 2 (c :: cs)) else none
  | c :: cs =>
    if (digit? 8 c).isSome then some (numbered 8 3 (c :: cs))
    else (simpleEscape? c).map fun char => (char, cs)

/-- Carry out the escapes.  The flag tells that an escape stopped all further
output.  Every step consumes a character, so the length is fuel enough. -/
def unescape (hex : Bool) : Nat → List Char → List Char × Bool
  | 0, _ => ([], false)
  | _, [] => ([], false)
  | _, '\\' :: 'c' :: _ => ([], true)
  | fuel + 1, c :: cs =>
    let (char, rest) := if c = '\\' then (escape? hex cs).getD (c, cs) else (c, cs)
    let (text, stopped) := unescape hex fuel rest
    (char :: text, stopped)

/-- The words with blanks between them, escapes carried out, and the line end
unless it is suppressed. -/
def escaped (hex newline : Bool) (words : List String) : String :=
  let line := (" ".intercalate words).toList
  let (text, stopped) := unescape hex (line.length + 1) line
  String.ofList text ++ if newline && !stopped then "\n" else ""

def plain (newline : Bool) (words : List String) : String :=
  " ".intercalate words ++ if newline then "\n" else ""

/-- Options are words of a dash and the letters `n`, `e` and `E`. -/
def isOption (word : String) : Bool :=
  match word.toList with
  | '-' :: letters => !letters.isEmpty && letters.all fun c => c = 'n' || c = 'e' || c = 'E'
  | _ => false

/-- The program: escapes only where an option asks for them. -/
def program (words : List String) : String :=
  let options := (words.takeWhile isOption).flatMap String.toList
  let rest := words.dropWhile isOption
  let newline := !options.contains 'n'
  match (options.filter fun c => c = 'e' || c = 'E').getLast? with
  | some 'e' => escaped true newline rest
  | _ => plain newline rest

/-- The shell's own command: escapes always, and a single option. -/
def command : List String → String
  | "-n" :: words => escaped false false words
  | words => escaped false true words

/-- One pass over a format, taking arguments as it goes.  Text is printed as it
is, `%s` and `%d` print an argument, and `%%` a percent sign. -/
def format : Nat → List Char → List String → List Char × List String
  | 0, _, args => ([], args)
  | _, [], args => ([], args)
  | fuel + 1, '%' :: c :: cs, args =>
    if c = '%' then
      let (text, args) := format fuel cs args
      ('%' :: text, args)
    else
      let shown := match c, args with
        | 'd', [] => "0"
        | _, [] => ""
        | _, arg :: _ => arg
      let (text, args) := format fuel cs args.tail
      (shown.toList ++ text, args)
  | fuel + 1, c :: cs, args =>
    let (text, args) := format fuel cs args
    (c :: text, args)

/-- Use the format again while it takes arguments and some are left. -/
def formatAll : Nat → List Char → List String → List Char
  | 0, _, _ => []
  | fuel + 1, pattern, args =>
    let (text, rest) := format (pattern.length + 1) pattern args
    if rest.isEmpty || rest.length = args.length then text
    else text ++ formatAll fuel pattern rest

def printf : List String → String
  | [] => ""
  | pattern :: args =>
    let pattern := (unescape false (pattern.length + 1) pattern.toList).1
    String.ofList (formatAll (args.length + 1) pattern args)

end Echo
end Host
end JsLisp
