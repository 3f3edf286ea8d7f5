/-
The characters of a TOML document: blanks, comments and the four kinds of
string.  Every reader returns what follows.
-/
namespace JsLisp
namespace Toml

def isSpace (c : Char) : Bool :=
  c = ' ' || c = '\t'

def skipSpace (cs : List Char) : List Char :=
  cs.dropWhile isSpace

/-- Characters that may stand in comments and, quotes and backslashes apart, in
strings: no control characters but the tab. -/
def isPlain (c : Char) : Bool :=
  c = '\t' || (0x20 ≤ c.toNat && c.toNat ≤ 0x7E) || 0x80 ≤ c.toNat

/-- A line ends in a line feed, with or without a carriage return. -/
def newline? : List Char → Option (List Char)
  | '\n' :: cs => some cs
  | '\r' :: '\n' :: cs => some cs
  | _ => none

/-- What may close a line: blanks, a comment, the line's end or the
document's. -/
def lineEnd? (cs : List Char) : Option (List Char) :=
  let rest := match skipSpace cs with
    | '#' :: more => more.dropWhile isPlain
    | more => more
  if rest.isEmpty then some [] else newline? rest

/-- Skip blanks, line ends and comments inside an array. -/
def skipLines (inComment : Bool) : List Char → Option (List Char)
  | [] => some []
  | '\n' :: cs => skipLines false cs
  | '\r' :: '\n' :: cs => skipLines false cs
  | c :: cs =>
    if inComment then if isPlain c then skipLines true cs else none
    else if c = '#' then skipLines true cs
    else if isSpace c then skipLines false cs
    else some (c :: cs)

def hexValue? (c : Char) : Option Nat :=
  if c.isDigit then some (c.toNat - 48)
  else if 'a' ≤ c ∧ c ≤ 'f' then some (c.toNat - 87)
  else if 'A' ≤ c ∧ c ≤ 'F' then some (c.toNat - 55)
  else none

/-- The character with the given hexadecimal code, if there is one. -/
def codeChar? (digits : List Char) : Option Char :=
  (digits.foldlM (fun code c => (hexValue? c).map (16 * code + ·)) 0).bind fun code =>
    if h : code.isValidChar then some (Char.ofNatAux code h) else none

/-- Escapes of a single letter. -/
def shortEscape? : Char → Option Char
  | 'b' => some (Char.ofNat 8)
  | 't' => some '\t'
  | 'n' => some '\n'
  | 'f' => some (Char.ofNat 12)
  | 'r' => some '\r'
  | '"' => some '"'
  | '\\' => some '\\'
  | _ => none

/-- Put a character in front of what is read next. -/
def before (c : Char) (read : Option (List Char × List Char)) : Option (List Char × List Char) :=
  read.map fun outcome => (c :: outcome.1, outcome.2)

/-- A basic string, behind its opening quote. -/
def basic : List Char → Option (List Char × List Char)
  | [] => none
  | '"' :: cs => some ([], cs)
  | '\\' :: 'u' :: a :: b :: c :: d :: cs =>
    (codeChar? [a, b, c, d]).bind fun char => before char (basic cs)
  | '\\' :: 'U' :: a :: b :: c :: d :: e :: f :: g :: h :: cs =>
    (codeChar? [a, b, c, d, e, f, g, h]).bind fun char => before char (basic cs)
  | '\\' :: c :: cs => (shortEscape? c).bind fun char => before char (basic cs)
  | c :: cs => if isPlain c ∧ c ≠ '\\' then before c (basic cs) else none

/-- A basic string over several lines, behind its opening quotes.  Up to two
quotes may stand before the closing three.  Behind a backslash at the end of a
line, `skipping` drops blanks and line ends. -/
def basicLines (skipping : Bool) : List Char → Option (List Char × List Char)
  | [] => none
  | '"' :: '"' :: '"' :: '"' :: '"' :: cs => some (['"', '"'], cs)
  | '"' :: '"' :: '"' :: '"' :: cs => some (['"'], cs)
  | '"' :: '"' :: '"' :: cs => some ([], cs)
  | '\r' :: '\n' :: cs => if skipping then basicLines true cs else before '\n' (basicLines false cs)
  | '\n' :: cs => if skipping then basicLines true cs else before '\n' (basicLines false cs)
  | '\\' :: 'u' :: a :: b :: c :: d :: cs =>
    (codeChar? [a, b, c, d]).bind fun char => before char (basicLines false cs)
  | '\\' :: 'U' :: a :: b :: c :: d :: e :: f :: g :: h :: cs =>
    (codeChar? [a, b, c, d, e, f, g, h]).bind fun char => before char (basicLines false cs)
  | '\\' :: c :: cs =>
    if (newline? (skipSpace (c :: cs))).isSome then basicLines true (c :: cs)
    else (shortEscape? c).bind fun char => before char (basicLines false cs)
  | c :: cs =>
    if skipping && isSpace c then basicLines true cs
    else if isPlain c ∧ c ≠ '\\' then before c (basicLines false cs)
    else none

/-- A literal string, behind its opening quote. -/
def literal : List Char → Option (List Char × List Char)
  | [] => none
  | '\x27' :: cs => some ([], cs)
  | c :: cs => if isPlain c then before c (literal cs) else none

/-- A literal string over several lines, behind its opening quotes. -/
def literalLines : List Char → Option (List Char × List Char)
  | [] => none
  | '\x27' :: '\x27' :: '\x27' :: '\x27' :: '\x27' :: cs => some (['\x27', '\x27'], cs)
  | '\x27' :: '\x27' :: '\x27' :: '\x27' :: cs => some (['\x27'], cs)
  | '\x27' :: '\x27' :: '\x27' :: cs => some ([], cs)
  | '\r' :: '\n' :: cs => before '\n' (literalLines cs)
  | '\n' :: cs => before '\n' (literalLines cs)
  | c :: cs => if isPlain c then before c (literalLines cs) else none

/-- A line end right behind the opening quotes is not part of the string. -/
def skipFirstNewline (cs : List Char) : List Char :=
  (newline? cs).getD cs

/-- A string of any kind, from its opening quote on. -/
def string? : List Char → Option (List Char × List Char)
  | '"' :: '"' :: '"' :: cs => basicLines false (skipFirstNewline cs)
  | '"' :: cs => basic cs
  | '\x27' :: '\x27' :: '\x27' :: cs => literalLines (skipFirstNewline cs)
  | '\x27' :: cs => literal cs
  | _ => none

end Toml
end JsLisp
