/-
Reading a TOML document into its top-level entries.
-/
import JsLisp.Toml.Scalar

namespace JsLisp
namespace Toml

/-- Keys of this many parts, and values this deep, are refused. -/
def nestingLimit : Nat := 80

def isBareKeyChar (c : Char) : Bool :=
  c.isAlphanum || c = '_' || c = '-'

/-- One part of a key: quoted on one line, or bare. -/
def keyPart? : List Char → Option (String × List Char)
  | '"' :: cs => (basic cs).map fun read => (String.ofList read.1, read.2)
  | '\x27' :: cs => (literal cs).map fun read => (String.ofList read.1, read.2)
  | cs =>
    let bare := cs.takeWhile isBareKeyChar
    if bare.isEmpty then none else some (String.ofList bare, cs.dropWhile isBareKeyChar)

/-- The parts of a dotted key, with blanks around them.  A part consumes a
character, so the length of the input is fuel enough. -/
def keyParts? : Nat → List Char → Option (List String × List Char)
  | 0, _ => none
  | fuel + 1, cs => do
    let (part, rest) ← keyPart? (skipSpace cs)
    match skipSpace rest with
    | '.' :: more =>
      let (parts, rest) ← keyParts? fuel more
      pure (part :: parts, rest)
    | rest => pure ([part], rest)

def key? (cs : List Char) : Option (List String × List Char) :=
  (keyParts? (cs.length + 1) cs).filter fun read => read.1.length < nestingLimit

/- A value and its parts pass the rest of the input on.  Every other call
consumes a character, so twice the length of the input is fuel enough. -/
mutual

/-- A value that stands in `depth` others. -/
def value? (depth : Nat) : Nat → List Char → Option (Value × List Char)
  | 0, _ => none
  | fuel + 1, cs =>
    match cs with
    | '[' :: more => if depth + 1 < nestingLimit then items? (depth + 1) fuel [] more else none
    | '\x7b' :: more =>
      if depth + 1 < nestingLimit then
        match skipSpace more with
        | '\x7d' :: rest => some (.table .inline [], rest)
        | more => pairs? (depth + 1) fuel [] more
      else none
    | '"' :: _ | '\x27' :: _ => (string? cs).map fun read => (.string (String.ofList read.1), read.2)
    | cs => readScalar cs

/-- The items of an array, the latest first, behind its opening bracket. -/
def items? (depth : Nat) : Nat → List Value → List Char → Option (Value × List Char)
  | 0, _, _ => none
  | fuel + 1, items, cs => do
    match ← skipLines false cs with
    | ']' :: rest => pure (.array items.reverse, rest)
    | cs =>
      let (item, rest) ← value? depth fuel cs
      match ← skipLines false rest with
      | ',' :: more => items? depth fuel (item :: items) more
      | ']' :: rest => pure (.array (item :: items).reverse, rest)
      | _ => none

/-- The pairs of an inline table that has some. -/
def pairs? (depth : Nat) : Nat → Entries → List Char → Option (Value × List Char)
  | 0, _, _ => none
  | fuel + 1, entries, cs => do
    let (key, rest) ← key? cs
    match rest with
    | '=' :: more =>
      let (value, rest) ← value? depth fuel (skipSpace more)
      let entries ← entries.define value key
      match skipSpace rest with
      | ',' :: more => pairs? depth fuel entries more
      | '\x7d' :: rest => pure (.table .inline entries, rest)
      | _ => none
    | _ => none

end

def readValue (cs : List Char) : Option (Value × List Char) :=
  value? 0 (2 * cs.length + 2) cs

/-- The keys between the brackets of a header. -/
def header? (closing cs : List Char) : Option (List String × List Char) := do
  let (keys, rest) ← key? cs
  if closing.isPrefixOf rest then
    let rest ← lineEnd? (rest.drop closing.length)
    pure (keys, rest)
  else none

/-- The lines of a document.  `under` is the header they stand under.  A line
consumes a character, so the length of the input is fuel enough. -/
def lines? : Nat → List String → Entries → List Char → Option Entries
  | 0, _, _, _ => none
  | fuel + 1, under, root, cs =>
    match skipSpace cs with
    | [] => some root
    | '#' :: _ | '\n' :: _ | '\r' :: _ => do
      let rest ← lineEnd? cs
      lines? fuel under root rest
    | '[' :: '[' :: more => do
      let (keys, rest) ← header? [']', ']'] more
      let root ← root.update (·.openNext (keys.getLastD "")) keys.dropLast
      lines? fuel keys root rest
    | '[' :: more => do
      let (keys, rest) ← header? [']'] more
      let root ← root.update (·.openTable (keys.getLastD "")) keys.dropLast
      lines? fuel keys root rest
    | cs => do
      let (key, rest) ← key? cs
      match rest with
      | '=' :: more =>
        let (value, rest) ← readValue (skipSpace more)
        let rest ← lineEnd? rest
        let root ← root.update (·.define value key) under
        lines? fuel under root rest
      | _ => none

/-- The entries of a document, or none if it is malformed.  A byte order mark
in front is skipped. -/
def parse? (source : String) : Option Entries :=
  let cs := match source.toList with
    | '\uFEFF' :: cs => cs
    | cs => cs
  lines? (cs.length + 1) [] [] cs

end Toml
end JsLisp
