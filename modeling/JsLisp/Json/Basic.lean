/-
JSON values, as far as listings need them, and their indented text.
-/
namespace JsLisp

inductive Json
  | string (value : String)
  | array (items : List Json)
  | object (fields : List (String × Json))

namespace Json

def hexDigit (n : Nat) : Char :=
  if n < 10 then Char.ofNat (48 + n) else Char.ofNat (87 + n)

/-- A character inside a JSON string.  Control characters without a short
escape are written by their code. -/
def escapeChar (c : Char) : List Char :=
  if c = '"' then ['\\', '"']
  else if c = '\\' then ['\\', '\\']
  else if c = '\n' then ['\\', 'n']
  else if c = '\r' then ['\\', 'r']
  else if c = '\t' then ['\\', 't']
  else if c.toNat = 0x08 then ['\\', 'b']
  else if c.toNat = 0x0C then ['\\', 'f']
  else if c.toNat < 0x20 then
    ['\\', 'u', '0', '0', hexDigit (c.toNat / 16), hexDigit (c.toNat % 16)]
  else [c]

def quote (value : String) : String :=
  String.ofList ('"' :: value.toList.flatMap escapeChar ++ ['"'])

def indentation (depth : Nat) : String :=
  String.ofList (List.replicate (2 * depth) ' ')

/-- Bracketed items, one a line and a step further in.  No items need no
lines. -/
def block (opening closing : String) (depth : Nat) : List String → String
  | [] => opening ++ closing
  | items =>
    opening ++ "\n" ++ ",\n".intercalate (items.map (indentation (depth + 1) ++ ·)) ++ "\n" ++
      indentation depth ++ closing

mutual

/-- The indented text of a value that starts `depth` steps in, in the layout that printers
of JSON document as pretty: two spaces a step, every item and field on a line of its own, a
comma at the end of all but the last, one space behind the colon of a field, and nothing
between the brackets of an empty array or object.  Fields keep their order. -/
def pretty (depth : Nat) : Json → String
  | string value => quote value
  | array items => block "[" "]" depth (prettyItems (depth + 1) items)
  | object fields => block "\x7b" "\x7d" depth (prettyFields (depth + 1) fields)

def prettyItems (depth : Nat) : List Json → List String
  | [] => []
  | item :: items => pretty depth item :: prettyItems depth items

def prettyFields (depth : Nat) : List (String × Json) → List String
  | [] => []
  | (key, value) :: fields =>
    (quote key ++ ": " ++ pretty depth value) :: prettyFields depth fields

end

end Json
end JsLisp
