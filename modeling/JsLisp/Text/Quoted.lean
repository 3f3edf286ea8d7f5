/-
Quoted text in records: every character can be seen, and the quotes show where
the text ends.
-/
import JsLisp.Text.Hidden

namespace JsLisp
namespace Text

def hexDigits (n : Nat) : List Char :=
  Nat.toDigits 16 n

/-- A character between two of the given quotes.  Characters that cannot be
shown are written by their code. -/
def showChar (quote c : Char) : List Char :=
  if c = quote then ['\\', c]
  else if c = '\\' then ['\\', '\\']
  else if c = '\n' then ['\\', 'n']
  else if c = '\r' then ['\\', 'r']
  else if c = '\t' then ['\\', 't']
  else if c.toNat = 0 then ['\\', '0']
  else if isHidden c then ['\\', 'u', '\x7b'] ++ hexDigits c.toNat ++ ['\x7d']
  else [c]

def quoted (text : String) : String :=
  String.ofList ('"' :: text.toList.flatMap (showChar '"') ++ ['"'])

def quotedChar (c : Char) : String :=
  String.ofList ('\x27' :: showChar '\x27' c ++ ['\x27'])

end Text
end JsLisp
