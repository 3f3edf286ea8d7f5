/-
Decoding UTF-8, with the place and extent of the first defect.
-/
namespace JsLisp
namespace Text
namespace Utf8

/-- Why decoding stopped.  A sequence is invalid after the bytes that could
still have started a character, and incomplete when the bytes end inside it. -/
inductive Defect
  | invalid (length : Nat)
  | incomplete
deriving DecidableEq

/-- The complaint about a defect at the given byte. -/
def Defect.message (index : Nat) : Defect → String
  | invalid length => s!"invalid utf-8 sequence of {length} bytes from index {index}"
  | incomplete => s!"incomplete utf-8 byte sequence from index {index}"

/-- A character part way through its bytes: how many were taken, how many are
owed, the range of the next, and the code so far. -/
structure Pending where
  taken : Nat
  owed : Nat
  lowest : Nat
  highest : Nat
  code : Nat

/-- What a leading byte announces.  The range of the second byte excludes
overlong forms, surrogates and codes past the last plane. -/
def lead (byte : Nat) : Option Pending :=
  if byte < 0x80 then some ⟨1, 0, 0x80, 0xBF, byte⟩
  else if byte < 0xC2 then none
  else if byte < 0xE0 then some ⟨1, 1, 0x80, 0xBF, byte - 0xC0⟩
  else if byte = 0xE0 then some ⟨1, 2, 0xA0, 0xBF, 0⟩
  else if byte = 0xED then some ⟨1, 2, 0x80, 0x9F, 0xD⟩
  else if byte < 0xF0 then some ⟨1, 2, 0x80, 0xBF, byte - 0xE0⟩
  else if byte = 0xF0 then some ⟨1, 3, 0x90, 0xBF, 0⟩
  else if byte < 0xF4 then some ⟨1, 3, 0x80, 0xBF, byte - 0xF0⟩
  else if byte = 0xF4 then some ⟨1, 3, 0x80, 0x8F, 4⟩
  else none

/-- Take a continuation byte. -/
def Pending.next? (pending : Pending) (byte : Nat) : Option Pending :=
  if pending.lowest ≤ byte ∧ byte ≤ pending.highest then
    some ⟨pending.taken + 1, pending.owed - 1, 0x80, 0xBF, pending.code * 64 + (byte - 0x80)⟩
  else none

/-- Decode up to the end or the first defect.  `pending` is the character under
way, if there is one. -/
def decodeFrom (pending : Option Pending) : List UInt8 → List Char × Option Defect
  | [] => ([], pending.map fun _ => .incomplete)
  | byte :: bytes =>
    let refused := match pending with
      | none => 1
      | some p => p.taken
    match pending.elim (lead byte.toNat) (·.next? byte.toNat) with
    | none => ([], some (.invalid refused))
    | some p =>
      if p.owed = 0 then
        let rest := decodeFrom none bytes
        (Char.ofNat p.code :: rest.1, rest.2)
      else decodeFrom (some p) bytes

/-- The text before the first defect, and the defect. -/
def decode (bytes : ByteArray) : String × Option Defect :=
  let decoded := decodeFrom none bytes.toList
  (String.ofList decoded.1, decoded.2)

/-- The text, when all of it can be decoded. -/
def decode? (bytes : ByteArray) : Option String :=
  match decode bytes with
  | (text, none) => some text
  | (_, some _) => none

end Utf8
end Text
end JsLisp
