/-
Words and operators of shell scripts.
-/
namespace JsLisp
namespace Host
namespace Shell

/-- A part of a word.  Quoted parts are never cut into fields. -/
inductive Piece
  | text (chars : List Char) (quoted : Bool)
  | parameter (name : String) (quoted : Bool)
deriving DecidableEq

abbrev Word := List Piece

inductive Lexeme
  | word (pieces : Word)
  | operator (spelling : String)
  /-- A redirection, which takes the next word as its target.  The flag tells
  whether it is standard output that goes elsewhere. -/
  | redirection (ofOutput : Bool)
  | newline
  /-- Something that cannot be read, such as a quote without its partner. -/
  | bad
deriving DecidableEq

def isBlank (c : Char) : Bool :=
  c = ' ' || c = '\t'

/-- Characters that end a word. -/
def isDelimiter (c : Char) : Bool :=
  isBlank c || c = '\n' || c = ';' || c = '&' || c = '|' || c = '(' || c = ')' || c = '<' || c = '>'

def isNameStart (c : Char) : Bool :=
  c.isAlpha || c = '_'

def isNameChar (c : Char) : Bool :=
  c.isAlphanum || c = '_'

/-- Parameters named by a single character. -/
def isSpecial (c : Char) : Bool :=
  c.isDigit || c = '?' || c = '$' || c = '#' || c = '@' || c = '*' || c = '!' || c = '-'

/-- A piece behind a dollar sign.  One that starts no parameter stands for
itself; substitution of commands is not offered. -/
def parameter? (quoted : Bool) : List Char → Option (Piece × List Char)
  | '\x7b' :: cs =>
    let name := cs.takeWhile (· ≠ '\x7d')
    let valid := (!name.isEmpty && name.all Char.isDigit) ||
      (name.head?.any isNameStart && name.all isNameChar) ||
      (name.length = 1 && name.all isSpecial)
    match cs.dropWhile (· ≠ '\x7d') with
    | _ :: rest => if valid then some (.parameter (String.ofList name) quoted, rest) else none
    | [] => none
  | '(' :: _ => none
  | c :: cs =>
    if isSpecial c then some (.parameter c.toString quoted, cs)
    else if isNameStart c then
      some (.parameter (String.ofList (c :: cs.takeWhile isNameChar)) quoted, cs.dropWhile isNameChar)
    else some (.text ['$'] quoted, c :: cs)
  | [] => some (.text ['$'] quoted, [])

/-- The pieces up to the closing double quote, the latest first.  Every step
consumes a character, so the length of the input is fuel enough. -/
def doubleQuoted? : Nat → Word → List Char → Option (Word × List Char)
  | 0, _, _ => none
  | _, _, [] => none
  | fuel + 1, pieces, c :: cs =>
    if c = '"' then some (pieces, cs)
    else if c = '\x60' then none
    else if c = '$' then
      match parameter? true cs with
      | some (piece, rest) => doubleQuoted? fuel (piece :: pieces) rest
      | none => none
    else if c = '\\' then
      match cs with
      | '\n' :: rest => doubleQuoted? fuel pieces rest
      | d :: rest =>
        if d = '$' || d = '\x60' || d = '"' || d = '\\' then
          doubleQuoted? fuel (.text [d] true :: pieces) rest
        else doubleQuoted? fuel (.text [c] true :: pieces) (d :: rest)
      | [] => none
    else doubleQuoted? fuel (.text [c] true :: pieces) cs

/-- The pieces of a word, the latest first. -/
def word? : Nat → Word → List Char → Option (Word × List Char)
  | 0, _, _ => none
  | _, pieces, [] => some (pieces, [])
  | fuel + 1, pieces, c :: cs =>
    if isDelimiter c then some (pieces, c :: cs)
    else if c = '\x60' then none
    else if c = '\x27' then
      match cs.dropWhile (· ≠ '\x27') with
      | _ :: rest => word? fuel (.text (cs.takeWhile (· ≠ '\x27')) true :: pieces) rest
      | [] => none
    else if c = '"' then
      match doubleQuoted? (cs.length + 1) [] cs with
      | some ([], rest) => word? fuel (.text [] true :: pieces) rest
      | some (inner, rest) => word? fuel (inner ++ pieces) rest
      | none => none
    else if c = '$' then
      match parameter? false cs with
      | some (piece, rest) => word? fuel (piece :: pieces) rest
      | none => none
    else if c = '\\' then
      match cs with
      | '\n' :: rest => word? fuel pieces rest
      | d :: rest => word? fuel (.text [d] true :: pieces) rest
      | [] => some (.text ['\\'] true :: pieces, [])
    else word? fuel (.text [c] false :: pieces) cs

/-- Join neighbouring texts of the same kind. -/
def joinTexts : Word → Word
  | .text a p :: rest =>
    match joinTexts rest with
    | .text b q :: more => if p = q then .text (a ++ b) p :: more else .text a p :: .text b q :: more
    | more => .text a p :: more
  | piece :: rest => piece :: joinTexts rest
  | [] => []

/-- The text of a word without quotes and parameters. -/
def bare? : Word → Option String
  | [.text chars false] => some (String.ofList chars)
  | _ => none

/-- The operator at the head of the input. -/
def operator? : List Char → Option (Lexeme × List Char)
  | '&' :: '&' :: cs => some (.operator "&&", cs)
  | '|' :: '|' :: cs => some (.operator "||", cs)
  | ';' :: ';' :: cs => some (.operator ";;", cs)
  | ';' :: cs => some (.operator ";", cs)
  | '&' :: cs => some (.operator "&", cs)
  | '|' :: cs => some (.operator "|", cs)
  | '(' :: cs => some (.operator "(", cs)
  | ')' :: cs => some (.operator ")", cs)
  | _ => none

/-- A redirection with its descriptor, if the descriptor is written. -/
def redirection? (descriptor : Option String) : List Char → Option (Lexeme × List Char)
  | '<' :: '<' :: cs => some (.bad, cs)
  | '<' :: '&' :: cs => some (.redirection false, cs)
  | '<' :: '>' :: cs => some (.redirection false, cs)
  | '<' :: cs => some (.redirection false, cs)
  | '>' :: '>' :: cs => some (.redirection ofOutput, cs)
  | '>' :: '&' :: cs => some (.redirection ofOutput, cs)
  | '>' :: '|' :: cs => some (.redirection ofOutput, cs)
  | '>' :: cs => some (.redirection ofOutput, cs)
  | _ => none
where
  ofOutput : Bool := descriptor.all (· == "1")

/-- The lexemes of a script.  Nothing is read past a bad one. -/
def lexemes : Nat → List Char → List Lexeme
  | 0, _ => []
  | _, [] => []
  | fuel + 1, c :: cs =>
    if isBlank c then lexemes fuel cs
    else if c = '\n' then .newline :: lexemes fuel cs
    else if c = '#' then lexemes fuel (cs.dropWhile (· ≠ '\n'))
    else if c = '\\' ∧ cs.head? = some '\n' then lexemes fuel cs.tail
    else
      match (operator? (c :: cs)).orElse fun _ => redirection? none (c :: cs) with
      | some (lexeme, rest) => lexeme :: lexemes fuel rest
      | none =>
        match word? (cs.length + 2) [] (c :: cs) with
        | none => [.bad]
        | some (pieces, rest) =>
          let word := joinTexts pieces.reverse
          let digits := (bare? word).filter fun text => text.toList.all Char.isDigit
          match digits.bind fun text => redirection? (some text) rest with
          | some (lexeme, rest) => lexeme :: lexemes fuel rest
          | none => .word word :: lexemes fuel rest

def lex (script : String) : List Lexeme :=
  lexemes (script.length + 1) script.toList

end Shell
end Host
end JsLisp
