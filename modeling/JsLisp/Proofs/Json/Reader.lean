/-
JSON texts, and a reader for them.

A JSON text is a sequence of lexemes, strings and the six structural characters, with
blanks between them where one likes.  `Json.lexemes` lists the lexemes of a value and
`Spelled` says which texts spell a list of lexemes, so `IsText` is the grammar of JSON,
for values made of strings, arrays and objects.  The reader cuts a text into lexemes
and puts the value together with a pushdown machine, and it reads every text of a
value as that value.  So no text is a text of two values.
-/
import JsLisp.Json.Basic

namespace JsLisp
namespace Json

/-- The structural characters. -/
inductive Mark
  | beginArray
  | endArray
  | beginObject
  | endObject
  | colon
  | comma
deriving DecidableEq

namespace Mark

def char : Mark → Char
  | beginArray => '['
  | endArray => ']'
  | beginObject => '\x7b'
  | endObject => '\x7d'
  | colon => ':'
  | comma => ','

def ofChar? (c : Char) : Option Mark :=
  [beginArray, endArray, beginObject, endObject, colon, comma].find? fun mark => mark.char = c

theorem ofChar?_char (mark : Mark) : ofChar? mark.char = some mark := by
  cases mark <;> rfl

end Mark

inductive Lexeme
  | mark (mark : Mark)
  | string (value : String)
deriving DecidableEq

def isSpace (c : Char) : Bool :=
  c = ' ' || c = '\t' || c = '\n' || c = '\r'

/-- What a letter behind a backslash stands for. -/
def shortEscape? (letter : Char) : Option Char :=
  [('"', '"'), ('\\', '\\'), ('/', '/'), ('b', '\x08'), ('f', '\x0c'), ('n', '\n'), ('r', '\r'),
    ('t', '\t')].lookup letter

def hexValue? (c : Char) : Option Nat :=
  if '0' ≤ c ∧ c ≤ '9' then some (c.toNat - 48)
  else if 'a' ≤ c ∧ c ≤ 'f' then some (c.toNat - 87)
  else if 'A' ≤ c ∧ c ≤ 'F' then some (c.toNat - 55)
  else none

/-- The character whose code the hexadecimal digits write. -/
def unit? (digits : List Char) : Option Char := do
  let code ← digits.foldlM (fun code digit => (hexValue? digit).map (16 * code + ·)) 0
  if code.isValidChar then some (Char.ofNat code) else none

/-- The ways to write a character inside a string.  A pair of codes for one character
is left out: listings write a character with a large code as it is. -/
inductive CharText : Char → List Char → Prop
  | raw {c : Char} (hprintable : 0x20 ≤ c.toNat) (hquote : c ≠ '"') (hslash : c ≠ '\\') :
    CharText c [c]
  | short {c letter : Char} (h : shortEscape? letter = some c) : CharText c ['\\', letter]
  | unit {char a b c d : Char} (h : unit? [a, b, c, d] = some char) :
    CharText char ['\\', 'u', a, b, c, d]

/-- The texts of a string, without its quotes. -/
inductive StringText : List Char → List Char → Prop
  | nil : StringText [] []
  | cons {c : Char} {cs text rest : List Char} (h : CharText c text) (hrest : StringText cs rest) :
    StringText (c :: cs) (text ++ rest)

inductive LexemeText : Lexeme → List Char → Prop
  | mark (mark : Mark) : LexemeText (.mark mark) [mark.char]
  | string {value : String} {text : List Char} (h : StringText value.toList text) :
    LexemeText (.string value) ('"' :: (text ++ ['"']))

/-- The text is that of the lexemes, with blanks in front of any and at the end. -/
inductive Spelled : List Lexeme → List Char → Prop
  | nil : Spelled [] []
  | space {c : Char} {lexemes : List Lexeme} {text : List Char} (h : isSpace c = true)
    (hrest : Spelled lexemes text) : Spelled lexemes (c :: text)
  | lexeme {lexeme : Lexeme} {lexemes : List Lexeme} {text rest : List Char}
    (h : LexemeText lexeme text) (hrest : Spelled lexemes rest) :
    Spelled (lexeme :: lexemes) (text ++ rest)

/-- Parts with commas between them. -/
def separated : List (List Lexeme) → List Lexeme
  | [] => []
  | part :: parts => part ++ parts.flatMap (.mark .comma :: ·)

mutual

def lexemes : Json → List Lexeme
  | string value => [.string value]
  | array items => .mark .beginArray :: (separated (itemLexemes items) ++ [.mark .endArray])
  | object fields => .mark .beginObject :: (separated (fieldLexemes fields) ++ [.mark .endObject])

def itemLexemes : List Json → List (List Lexeme)
  | [] => []
  | item :: items => lexemes item :: itemLexemes items

def fieldLexemes : List (String × Json) → List (List Lexeme)
  | [] => []
  | (key, value) :: fields =>
    (.string key :: .mark .colon :: lexemes value) :: fieldLexemes fields

end

/-- The text is a JSON document, and the value is what it denotes. -/
def IsText (value : Json) (text : String) : Prop :=
  Spelled value.lexemes text.toList

/-- Where in a text the reader stands.  Inside a string, what was read of it is at
hand, the latest first. -/
inductive Place
  | outside
  | inside (read : List Char)
  /-- Behind a backslash. -/
  | escaped (read : List Char)
  /-- Behind some digits of a code, the latest first. -/
  | coded (read digits : List Char)

/-- Cut a text into lexemes. -/
def lex : Place → List Char → Option (List Lexeme)
  | .outside, [] => some []
  | _, [] => none
  | .outside, c :: cs =>
    if isSpace c then lex .outside cs
    else if c = '"' then lex (.inside []) cs
    else (Mark.ofChar? c).bind fun mark => (lex .outside cs).map (.mark mark :: ·)
  | .inside read, c :: cs =>
    if c = '"' then (lex .outside cs).map (.string (String.ofList read.reverse) :: ·)
    else if c = '\\' then lex (.escaped read) cs
    else if c.toNat < 0x20 then none
    else lex (.inside (c :: read)) cs
  | .escaped read, c :: cs =>
    if c = 'u' then lex (.coded read []) cs
    else (shortEscape? c).bind fun char => lex (.inside (char :: read)) cs
  | .coded read digits, c :: cs =>
    if digits.length < 3 then lex (.coded read (c :: digits)) cs
    else (unit? (c :: digits).reverse).bind fun char => lex (.inside (char :: read)) cs

theorem lex_charText {c : Char} {text : List Char} (h : CharText c text) (read rest : List Char) :
    lex (.inside read) (text ++ rest) = lex (.inside (c :: read)) rest := by
  cases h with
  | raw hprintable hquote hslash =>
    have hcontrol : ¬ c.toNat < 0x20 := by omega
    simp [lex, hquote, hslash, hcontrol]
  | short h =>
    rename_i letter
    -- The letter of the long escape is no short escape.
    have hletter : letter ≠ 'u' := by
      intro hu
      rw [hu] at h
      cases h
    simp [lex, h, hletter]
  | unit h => simp [lex, h]

theorem lex_stringText {value text : List Char} (h : StringText value text)
    (read rest : List Char) :
    lex (.inside read) (text ++ '"' :: rest) =
      (lex .outside rest).map (.string (String.ofList (read.reverse ++ value)) :: ·) := by
  induction h generalizing read with
  | nil => simp [lex]
  | @cons c cs text rest' h hrest ih =>
    rw [List.append_assoc, lex_charText h, ih]
    simp

theorem lex_mark (mark : Mark) (rest : List Char) :
    lex .outside (mark.char :: rest) = (lex .outside rest).map (.mark mark :: ·) := by
  have hspace : isSpace mark.char = false := by cases mark <;> rfl
  have hquote : mark.char ≠ '"' := by cases mark <;> decide
  simp [lex, hspace, hquote, Mark.ofChar?_char]

/-- Every text of some lexemes is cut into them. -/
theorem lex_spelled {lexemes : List Lexeme} {text : List Char} (h : Spelled lexemes text) :
    lex .outside text = some lexemes := by
  induction h with
  | nil => rfl
  | space h _ ih => simp [lex, h, ih]
  | @lexeme lexeme lexemes text rest h hrest ih =>
    cases h with
    | mark mark =>
      rw [List.singleton_append, lex_mark, ih]
      rfl
    | @string value text h =>
      have hopen (cs : List Char) : lex .outside ('"' :: cs) = lex (.inside []) cs := by
        simp [lex, isSpace]
      rw [List.cons_append, List.append_assoc, List.singleton_append, hopen, lex_stringText h, ih]
      simp

/-! ## Reading values -/

/-- An array or object that is open around a value, with the parts read before it, the
latest first. -/
inductive Frame
  | array (items : List Json)
  | object (fields : List (String × Json)) (name : String)

/-- Where the reader stands, with what is open around it, the innermost first. -/
inductive State
  /-- A value is to come. -/
  | waiting (frames : List Frame)
  /-- Behind the bracket of an array. -/
  | firstItem (frames : List Frame)
  /-- Behind an item. -/
  | item (frames : List Frame) (items : List Json)
  /-- Behind the brace of an object. -/
  | firstField (frames : List Frame)
  /-- Behind a comma of an object. -/
  | nextField (frames : List Frame) (fields : List (String × Json))
  /-- Behind a key. -/
  | key (frames : List Frame) (fields : List (String × Json)) (name : String)
  /-- Behind a field. -/
  | field (frames : List Frame) (fields : List (String × Json))
  | ended (value : Json)

namespace State

/-- Add a finished value to what is open around it. -/
def add : List Frame → Json → State
  | [], value => ended value
  | .array items :: frames, value => item frames (value :: items)
  | .object fields name :: frames, value => field frames ((name, value) :: fields)

/-- Take the first lexeme of a value. -/
def begin (frames : List Frame) : Lexeme → Option State
  | .string value => some (add frames (.string value))
  | .mark .beginArray => some (firstItem frames)
  | .mark .beginObject => some (firstField frames)
  | _ => none

def step : State → Lexeme → Option State
  | waiting frames, lexeme => begin frames lexeme
  | firstItem frames, .mark .endArray => some (add frames (.array []))
  | firstItem frames, lexeme => begin (.array [] :: frames) lexeme
  | item frames items, .mark .comma => some (waiting (.array items :: frames))
  | item frames items, .mark .endArray => some (add frames (.array items.reverse))
  | firstField frames, .mark .endObject => some (add frames (.object []))
  | firstField frames, .string name => some (key frames [] name)
  | nextField frames fields, .string name => some (key frames fields name)
  | key frames fields name, .mark .colon => some (waiting (.object fields name :: frames))
  | field frames fields, .mark .comma => some (nextField frames fields)
  | field frames fields, .mark .endObject => some (add frames (.object fields.reverse))
  | _, _ => none

def finish : State → Option Json
  | ended value => some value
  | _ => none

def run (state : State) : List Lexeme → Option Json
  | [] => state.finish
  | lexeme :: lexemes => (state.step lexeme).bind fun next => run next lexemes

end State

/-- The value of a JSON text. -/
def read? (text : String) : Option Json :=
  (lex .outside text.toList).bind (State.waiting []).run

namespace State

/-- A first item is a value. -/
theorem run_firstItem (frames : List Frame) (value : Json) (rest : List Lexeme) :
    (firstItem frames).run (value.lexemes ++ rest) =
      (waiting (.array [] :: frames)).run (value.lexemes ++ rest) := by
  cases value <;> rfl

mutual

theorem run_lexemes (value : Json) (frames : List Frame) (rest : List Lexeme) :
    (waiting frames).run (value.lexemes ++ rest) = (add frames value).run rest := by
  cases value with
  | string value => rfl
  | array items =>
    rw [lexemes, List.cons_append, List.append_assoc, List.singleton_append]
    show (firstItem frames).run _ = _
    cases items with
    | nil => rfl
    | cons item items =>
      rw [itemLexemes, separated, List.append_assoc, run_firstItem, run_lexemes]
      exact run_itemLexemes items [item] frames rest
  | object fields =>
    rw [lexemes, List.cons_append, List.append_assoc, List.singleton_append]
    show (firstField frames).run _ = _
    cases fields with
    | nil => rfl
    | cons entry fields =>
      obtain ⟨name, value⟩ := entry
      rw [fieldLexemes, separated, List.append_assoc]
      show (waiting (.object [] name :: frames)).run (value.lexemes ++ _) = _
      rw [run_lexemes]
      exact run_fieldLexemes fields [(name, value)] frames rest

/-- The items behind the first. -/
theorem run_itemLexemes (items done : List Json) (frames : List Frame) (rest : List Lexeme) :
    (item frames done).run ((itemLexemes items).flatMap (.mark .comma :: ·) ++
      .mark .endArray :: rest) = (add frames (.array (done.reverse ++ items))).run rest := by
  cases items with
  | nil =>
    rw [List.append_nil]
    rfl
  | cons value items =>
    rw [itemLexemes, List.flatMap_cons, List.cons_append, List.cons_append, List.append_assoc]
    show (waiting (.array done :: frames)).run _ = _
    rw [run_lexemes, add, run_itemLexemes items (value :: done) frames rest]
    simp

/-- The fields behind the first. -/
theorem run_fieldLexemes (fields done : List (String × Json)) (frames : List Frame)
    (rest : List Lexeme) :
    (field frames done).run ((fieldLexemes fields).flatMap (.mark .comma :: ·) ++
      .mark .endObject :: rest) = (add frames (.object (done.reverse ++ fields))).run rest := by
  cases fields with
  | nil =>
    rw [List.append_nil]
    rfl
  | cons entry fields =>
    obtain ⟨name, value⟩ := entry
    rw [fieldLexemes, List.flatMap_cons, List.cons_append, List.cons_append, List.append_assoc]
    show (waiting (.object done name :: frames)).run (value.lexemes ++ _) = _
    rw [run_lexemes, add, run_fieldLexemes fields ((name, value) :: done) frames rest]
    simp

end

end State

/-- Every text of a value is read as that value. -/
theorem read?_of_isText {value : Json} {text : String} (h : IsText value text) :
    read? text = some value := by
  have hrun := State.run_lexemes value [] []
  rw [List.append_nil] at hrun
  rw [read?, lex_spelled h, Option.bind_some, hrun]
  rfl

end Json
end JsLisp
