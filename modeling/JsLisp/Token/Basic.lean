/-
Tokens: the smallest units of source text that carry meaning.
-/
namespace JsLisp

/-- The four words `true`, `false`, `undefined` and `null` are reserved kinds.
The lexer reads them as plain text, so they appear only in token lists made by
hand. -/
inductive TokenKind
  | leftParen
  | rightParen
  | dot
  | plus
  | minus
  | star
  | slash
  | trueWord
  | falseWord
  | undefinedWord
  | nullWord
  | text
  | string
  | number
deriving DecidableEq

namespace TokenKind

/-- The kind as error messages name it. -/
def describe : TokenKind → String
  | leftParen => "'('"
  | rightParen => "')'"
  | dot => "'.'"
  | plus => "'+'"
  | minus => "'-'"
  | star => "'*'"
  | slash => "'/'"
  | trueWord => "true"
  | falseWord => "false"
  | undefinedWord => "undefined"
  | nullWord => "null"
  | text => "text"
  | string => "string literal"
  | number => "number literal"

/-- The kind as token listings name it. -/
def tag : TokenKind → String
  | leftParen => "LEFT_PAREN"
  | rightParen => "RIGHT_PAREN"
  | dot => "DOT"
  | plus => "PLUS"
  | minus => "MINUS"
  | star => "STAR"
  | slash => "SLASH"
  | trueWord => "TRUE"
  | falseWord => "FALSE"
  | undefinedWord => "UNDEFINED"
  | nullWord => "NULL"
  | text => "TEXT"
  | string => "STRING_LITERAL"
  | number => "NUMBER_LITERAL"

/-- Every kind, in the order of declaration. -/
def all : List TokenKind :=
  [leftParen, rightParen, dot, plus, minus, star, slash, trueWord, falseWord,
    undefinedWord, nullWord, text, string, number]

def ofTag? (tag : String) : Option TokenKind :=
  all.find? fun kind => kind.tag == tag

end TokenKind

/-- A token keeps its text: the spelling, or the contents of a string literal
without its quotes. -/
structure Token where
  kind : TokenKind
  text : String
deriving DecidableEq

namespace Token

/-- The token as error messages show it.  Only the kinds whose text varies show
the text. -/
def display (token : Token) : String :=
  match token.kind with
  | .text | .number => token.kind.describe ++ " '" ++ token.text ++ "'"
  | .string => token.kind.describe ++ " \"" ++ token.text ++ "\""
  | kind => kind.describe

end Token
end JsLisp
