/-
Numbers, dates and truth values of TOML.

A scalar reaches to the next character that can follow a value, and its whole
text has to have one of the forms below.
-/
import JsLisp.Toml.Text
import JsLisp.Toml.Value

namespace JsLisp
namespace Toml

/-- Characters that end a scalar. -/
def endsScalar (c : Char) : Bool :=
  isSpace c || c = '\n' || c = '\r' || c = '#' || c = ',' || c = ']' || c = '\x7d'

/-! ## Numbers -/

/-- Digits of a base, where an underscore may stand between two of them. -/
def digits? (isDigit : Char → Bool) (cs : List Char) : Option (List Char) :=
  let groups := cs.splitOn '_'
  if groups.all (fun group => !group.isEmpty && group.all isDigit) then some groups.flatten
  else none

def natOfDigits (base : Nat) (digits : List Char) : Nat :=
  digits.foldl (fun n c => base * n + (hexValue? c).getD 0) 0

/-- The sign in front, and what follows it. -/
def splitSign : List Char → Bool × List Char
  | '-' :: cs => (true, cs)
  | '+' :: cs => (false, cs)
  | cs => (false, cs)

/-- The digits of a decimal integer, which has no leading zero. -/
def decimalDigits? (cs : List Char) : Option (List Char) :=
  (digits? Char.isDigit cs).bind fun digits =>
    match digits with
    | '0' :: _ :: _ => none
    | _ => some digits

/-- Integers have 64 bits. -/
def inRange? (n : Int) : Option Int :=
  if -Int.pow 2 63 ≤ n ∧ n < Int.pow 2 63 then some n else none

def integer? (cs : List Char) : Option Int :=
  match cs with
  | '0' :: 'x' :: more =>
    (digits? (fun c => (hexValue? c).isSome) more).bind fun ds => inRange? (natOfDigits 16 ds)
  | '0' :: 'o' :: more =>
    (digits? (fun c => '0' ≤ c ∧ c ≤ '7') more).bind fun ds => inRange? (natOfDigits 8 ds)
  | '0' :: 'b' :: more =>
    (digits? (fun c => c = '0' || c = '1') more).bind fun ds => inRange? (natOfDigits 2 ds)
  | _ =>
    let (negative, more) := splitSign cs
    (decimalDigits? more).bind fun ds =>
      let n : Int := natOfDigits 10 ds
      inRange? (if negative then -n else n)

/-- A decimal number: the digits around its point, and its exponent. -/
structure Decimal where
  negative : Bool
  whole : List Char
  fraction : List Char
  exponent : Int

/-- The exponent behind its letter, or none where there is no letter. -/
def exponent? : List Char → Option Int
  | [] => some 0
  | _ :: cs =>
    let (negative, more) := splitSign cs
    (digits? Char.isDigit more).map fun ds =>
      let n : Int := natOfDigits 10 ds
      if negative then -n else n

def isExponentLetter (c : Char) : Bool :=
  c = 'e' || c = 'E'

/-- A decimal with a point, an exponent or both. -/
def decimal? (cs : List Char) : Option Decimal :=
  let (negative, more) := splitSign cs
  let mantissa := more.takeWhile fun c => !isExponentLetter c
  let power := more.dropWhile fun c => !isExponentLetter c
  match mantissa.splitOn '.' with
  | [whole] =>
    if power.isEmpty then none
    else do pure ⟨negative, ← decimalDigits? whole, [], ← exponent? power⟩
  | [whole, fraction] =>
    do pure ⟨negative, ← decimalDigits? whole, ← digits? Char.isDigit fraction, ← exponent? power⟩
  | _ => none

/-- Whether a decimal is too large for a double, that is, not below the middle
between the largest double and the next power of two.  Far exponents are
settled by the number of digits, as the largest double has 309. -/
def Decimal.overflows (d : Decimal) : Bool :=
  let significand := natOfDigits 10 (d.whole ++ d.fraction)
  let exponent := d.exponent - d.fraction.length
  let size : Int := (Nat.toDigits 10 significand).length + exponent
  let limit := Nat.pow 2 1024 - Nat.pow 2 970
  if significand = 0 || size < 309 then false
  else if 309 < size then true
  else if 0 ≤ exponent then limit ≤ significand * Nat.pow 10 exponent.toNat
  else limit * Nat.pow 10 (-exponent).toNat ≤ significand

/-- Whether the text is a float.  Of the decimals too large for one, only
negative ones are let through. -/
def isFloat (cs : List Char) : Bool :=
  let special := String.ofList (splitSign cs).2
  special == "inf" || special == "nan" ||
    match decimal? cs with
    | some d => d.negative || !d.overflows
    | none => false

/-! ## Dates and times -/

/-- A number of exactly `width` digits. -/
def fixedNat? (width : Nat) (cs : List Char) : Option Nat :=
  if cs.length = width ∧ cs.all Char.isDigit then some (natOfDigits 10 cs) else none

def isLeapYear (year : Nat) : Bool :=
  year % 4 == 0 && (year % 100 != 0 || year % 400 == 0)

def daysInMonth (year month : Nat) : Nat :=
  if month = 2 then if isLeapYear year then 29 else 28
  else if month = 4 ∨ month = 6 ∨ month = 9 ∨ month = 11 then 30
  else 31

def isDate (cs : List Char) : Bool :=
  match cs.splitOn '-' with
  | [year, month, day] =>
    match fixedNat? 4 year, fixedNat? 2 month, fixedNat? 2 day with
    | some y, some m, some d =>
      1 ≤ m && m ≤ 12 && 1 ≤ d && d ≤ daysInMonth y m
    | _, _, _ => false
  | _ => false

/-- Hours and minutes, as offsets have them. -/
def isClock (cs : List Char) : Bool :=
  match cs.splitOn ':' with
  | [hour, minute] =>
    match fixedNat? 2 hour, fixedNat? 2 minute with
    | some h, some m => h ≤ 23 && m ≤ 59
    | _, _ => false
  | _ => false

/-- Seconds, up to a leap second, and perhaps a fraction. -/
def isSeconds (cs : List Char) : Bool :=
  match cs.splitOn '.' with
  | [second] => (fixedNat? 2 second).any (· ≤ 60)
  | [second, fraction] =>
    (fixedNat? 2 second).any (· ≤ 60) && !fraction.isEmpty && fraction.all Char.isDigit
  | _ => false

def isTime (cs : List Char) : Bool :=
  isClock (cs.take 5) && (cs.drop 5).head? == some ':' && isSeconds (cs.drop 6)

/-- A time with the offset that a full date may have. -/
def isOffsetTime (cs : List Char) : Bool :=
  let time := cs.takeWhile fun c => c.isDigit || c = ':' || c = '.'
  isTime time &&
    match cs.dropWhile fun c => c.isDigit || c = ':' || c = '.' with
    | [] => true
    | ['Z'] => true
    | ['z'] => true
    | '+' :: offset => isClock offset
    | '-' :: offset => isClock offset
    | _ => false

def isDateTime (cs : List Char) : Bool :=
  isDate (cs.take 10) &&
    match cs.drop 10 with
    | [] => true
    | 'T' :: time => isOffsetTime time
    | 't' :: time => isOffsetTime time
    | _ => false

/-! ## Scalars -/

/-- The scalar with the given text. -/
def scalar? (cs : List Char) : Option Value :=
  if cs = ['t', 'r', 'u', 'e'] then some (.boolean true)
  else if cs = ['f', 'a', 'l', 's', 'e'] then some (.boolean false)
  else if isDateTime cs || isTime cs then some (.date (String.ofList cs))
  else if isFloat cs then some (.float (String.ofList cs))
  else (integer? cs).map .integer

/-- Read a scalar.  A date may be followed by a blank and a time. -/
def readScalar (cs : List Char) : Option (Value × List Char) :=
  let text := cs.takeWhile fun c => !endsScalar c
  let rest := cs.dropWhile fun c => !endsScalar c
  let late := rest.tail.takeWhile fun c => !endsScalar c
  if isDate text && rest.head? == some ' ' && isOffsetTime late then
    some (.date (String.ofList (text ++ ' ' :: late)), rest.tail.dropWhile fun c => !endsScalar c)
  else (scalar? text).map fun value => (value, rest)

end Toml
end JsLisp
