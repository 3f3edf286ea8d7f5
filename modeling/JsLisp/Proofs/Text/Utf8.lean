/-
Encoded text decodes to itself.

The encoding of a character is a leading byte, which announces how many bytes follow
and between which bounds the first of them lies, and then six bits in each of these.
Decoding a character's bytes gives the character, whatever stands behind them, so text
comes back whole.
-/
import JsLisp.Text.Utf8

namespace JsLisp
namespace Text
namespace Utf8

/-- Put a decoded character in front. -/
def decoded (code : Nat) (rest : List Char × Option Defect) : List Char × Option Defect :=
  (Char.ofNat code :: rest.1, rest.2)

theorem decodeFrom_lead {byte : Nat} {p : Pending} (hbyte : byte < 256) (h : lead byte = some p)
    (bytes : List UInt8) :
    decodeFrom none (UInt8.ofNat byte :: bytes) =
      if p.owed = 0 then decoded p.code (decodeFrom none bytes)
      else decodeFrom (some p) bytes := by
  have htoNat : (UInt8.ofNat byte).toNat = byte := by
    rw [UInt8.toNat_ofNat']
    omega
  rw [decodeFrom, Option.elim, htoNat, h]
  rfl

/-- A byte that follows adds its six bits to the code. -/
theorem decodeFrom_next {taken owed lowest highest code bits : Nat} (hbits : bits < 64)
    (hlowest : lowest ≤ bits + 128) (hhighest : bits + 128 ≤ highest) (bytes : List UInt8) :
    decodeFrom (some ⟨taken, owed + 1, lowest, highest, code⟩) (UInt8.ofNat (bits + 128) :: bytes) =
      if owed = 0 then decoded (code * 64 + bits) (decodeFrom none bytes)
      else decodeFrom (some ⟨taken + 1, owed, 0x80, 0xBF, code * 64 + bits⟩) bytes := by
  have htoNat : (UInt8.ofNat (bits + 128)).toNat = bits + 128 := by
    rw [UInt8.toNat_ofNat']
    omega
  rw [decodeFrom, Option.elim, htoNat, Pending.next?, if_pos ⟨hlowest, hhighest⟩]
  simp only [Nat.add_sub_cancel, decoded]

/-- The leading byte of three.  The shortest codes and those in front of the surrogates
narrow the bounds of the second. -/
theorem lead_three {code : Nat} (hlong : 2047 < code) (hshort : code ≤ 65535)
    (hvalid : code < 0xD800 ∨ 0xDFFF < code) :
    ∃ lowest highest, lead (code / 4096 + 224) = some ⟨1, 2, lowest, highest, code / 4096⟩ ∧
      lowest ≤ code / 64 % 64 + 128 ∧ code / 64 % 64 + 128 ≤ highest := by
  have hascii : ¬ code / 4096 + 224 < 0x80 := by omega
  have htail : ¬ code / 4096 + 224 < 0xC2 := by omega
  have htwo : ¬ code / 4096 + 224 < 0xE0 := by omega
  rw [lead, if_neg hascii, if_neg htail, if_neg htwo]
  by_cases hfirst : code / 4096 + 224 = 0xE0
  · have hzero : code / 4096 = 0 := by omega
    rw [if_pos hfirst, hzero]
    exact ⟨_, _, rfl, by omega, by omega⟩
  rw [if_neg hfirst]
  by_cases hsurrogate : code / 4096 + 224 = 0xED
  · have hthirteen : code / 4096 = 0xD := by omega
    rw [if_pos hsurrogate, hthirteen]
    exact ⟨_, _, rfl, by omega, by omega⟩
  have hthree : code / 4096 + 224 < 0xF0 := by omega
  rw [if_neg hsurrogate, if_pos hthree, Nat.add_sub_cancel]
  exact ⟨_, _, rfl, by omega, by omega⟩

/-- The leading byte of four.  The bounds of the second are narrowed at both ends. -/
theorem lead_four {code : Nat} (hlong : 65535 < code) (hvalid : code < 0x110000) :
    ∃ lowest highest, lead (code / 262144 + 240) = some ⟨1, 3, lowest, highest, code / 262144⟩ ∧
      lowest ≤ code / 4096 % 64 + 128 ∧ code / 4096 % 64 + 128 ≤ highest := by
  have hnot : ∀ bound, bound ≤ 0xF0 → ¬ code / 262144 + 240 < bound := by
    intro bound hbound
    omega
  have hne : ∀ byte, byte < 0xF0 → ¬ code / 262144 + 240 = byte := by
    intro byte hbyte
    omega
  rw [lead, if_neg (hnot _ (by decide)), if_neg (hnot _ (by decide)), if_neg (hnot _ (by decide)),
    if_neg (hne _ (by decide)), if_neg (hne _ (by decide)), if_neg (hnot _ (by decide))]
  by_cases hfirst : code / 262144 + 240 = 0xF0
  · have hzero : code / 262144 = 0 := by omega
    rw [if_pos hfirst, hzero]
    exact ⟨_, _, rfl, by omega, by omega⟩
  rw [if_neg hfirst]
  by_cases hmiddle : code / 262144 + 240 < 0xF4
  · rw [if_pos hmiddle, Nat.add_sub_cancel]
    exact ⟨_, _, rfl, by omega, by omega⟩
  · have hfour : code / 262144 = 4 := by omega
    rw [if_neg hmiddle, hfour, if_pos rfl]
    exact ⟨_, _, rfl, by omega, by omega⟩

section Length

variable {code : Nat} (bytes : List UInt8)

theorem decodeFrom_one (hshort : code ≤ 127) :
    decodeFrom none (UInt8.ofNat code :: bytes) = decoded code (decodeFrom none bytes) := by
  have hlead : lead code = some ⟨1, 0, 0x80, 0xBF, code⟩ := by rw [lead, if_pos (by omega)]
  rw [decodeFrom_lead (by omega) hlead, if_pos rfl]

theorem decodeFrom_two (hlong : 127 < code) (hshort : code ≤ 2047) :
    decodeFrom none (UInt8.ofNat (code / 64 % 32 + 192) :: UInt8.ofNat (code % 64 + 128) :: bytes) =
      decoded code (decodeFrom none bytes) := by
  have hhead : code / 64 % 32 = code / 64 := by omega
  have hlead : lead (code / 64 + 192) = some ⟨1, 1, 0x80, 0xBF, code / 64⟩ := by
    rw [lead, if_neg (by omega), if_neg (by omega), if_pos (by omega), Nat.add_sub_cancel]
  have hcode : code / 64 * 64 + code % 64 = code := by omega
  rw [hhead, decodeFrom_lead (by omega) hlead, if_neg Nat.one_ne_zero,
    decodeFrom_next (by omega) (by omega) (by omega), if_pos rfl, hcode]

theorem decodeFrom_three (hlong : 2047 < code) (hshort : code ≤ 65535)
    (hvalid : code < 0xD800 ∨ 0xDFFF < code) :
    decodeFrom none (UInt8.ofNat (code / 4096 % 16 + 224) :: UInt8.ofNat (code / 64 % 64 + 128) ::
        UInt8.ofNat (code % 64 + 128) :: bytes) = decoded code (decodeFrom none bytes) := by
  have hhead : code / 4096 % 16 = code / 4096 := by omega
  obtain ⟨lowest, highest, hlead, hlowest, hhighest⟩ := lead_three hlong hshort hvalid
  have hcode : (code / 4096 * 64 + code / 64 % 64) * 64 + code % 64 = code := by omega
  rw [hhead, decodeFrom_lead (by omega) hlead, if_neg (Nat.succ_ne_zero 1),
    decodeFrom_next (by omega) hlowest hhighest, if_neg Nat.one_ne_zero,
    decodeFrom_next (by omega) (by omega) (by omega), if_pos rfl, hcode]

theorem decodeFrom_four (hlong : 65535 < code) (hvalid : code < 0x110000) :
    decodeFrom none (UInt8.ofNat (code / 262144 % 8 + 240) ::
        UInt8.ofNat (code / 4096 % 64 + 128) :: UInt8.ofNat (code / 64 % 64 + 128) ::
        UInt8.ofNat (code % 64 + 128) :: bytes) = decoded code (decodeFrom none bytes) := by
  have hhead : code / 262144 % 8 = code / 262144 := by omega
  obtain ⟨lowest, highest, hlead, hlowest, hhighest⟩ := lead_four hlong hvalid
  have hcode : ((code / 262144 * 64 + code / 4096 % 64) * 64 + code / 64 % 64) * 64 + code % 64 =
      code := by omega
  rw [hhead, decodeFrom_lead (by omega) hlead, if_neg (Nat.succ_ne_zero 2),
    decodeFrom_next (by omega) hlowest hhighest, if_neg (Nat.succ_ne_zero 1),
    decodeFrom_next (by omega) (by omega) (by omega), if_neg Nat.one_ne_zero,
    decodeFrom_next (by omega) (by omega) (by omega), if_pos rfl, hcode]

end Length

theorem decodeFrom_utf8EncodeChar (c : Char) (bytes : List UInt8) :
    decodeFrom none (String.utf8EncodeChar c ++ bytes) =
      (c :: (decodeFrom none bytes).1, (decodeFrom none bytes).2) := by
  have hvalid : c.val.toNat < 0xD800 ∨ 0xDFFF < c.val.toNat ∧ c.val.toNat < 0x110000 := c.valid
  have hself : decoded c.val.toNat (decodeFrom none bytes) =
      (c :: (decodeFrom none bytes).1, (decodeFrom none bytes).2) := by
    rw [decoded, Char.toNat_val, Char.ofNat_toNat]
  rw [← hself, String.utf8EncodeChar]
  generalize c.val.toNat = code at hvalid
  by_cases hone : code ≤ 127
  · rw [if_pos hone]
    exact decodeFrom_one bytes hone
  rw [if_neg hone]
  by_cases htwo : code ≤ 2047
  · rw [if_pos htwo]
    exact decodeFrom_two bytes (by omega) htwo
  rw [if_neg htwo]
  by_cases hthree : code ≤ 65535
  · rw [if_pos hthree]
    exact decodeFrom_three bytes (by omega) hthree (by omega)
  · rw [if_neg hthree]
    exact decodeFrom_four bytes (by omega) (by omega)

theorem toList_eq_toList_data (bytes : ByteArray) : bytes.toList = bytes.data.toList := by
  have hloop : ∀ (left i : Nat) (taken : List UInt8), bytes.size - i = left →
      ByteArray.toList.loop bytes i taken = taken.reverse ++ bytes.data.toList.drop i := by
    intro left
    induction left with
    | zero =>
      intro i taken hleft
      have hend : bytes.data.toList.length ≤ i := by
        rw [Array.length_toList, ByteArray.size_data]
        omega
      rw [ByteArray.toList.loop, if_neg (by omega), List.drop_of_length_le hend, List.append_nil]
    | succ left ih =>
      intro i taken hleft
      have hi : i < bytes.data.toList.length := by
        rw [Array.length_toList, ByteArray.size_data]
        omega
      have hget : bytes.get! i = bytes.data.toList[i] := by
        show bytes.data[i]! = _
        rw [getElem!_pos bytes.data i hi, Array.getElem_toList]
      rw [ByteArray.toList.loop, if_pos (by omega), ih (i + 1) _ (by omega),
        List.drop_eq_getElem_cons hi, List.reverse_cons, List.append_assoc, hget]
      rfl
  exact hloop _ 0 [] rfl

theorem toList_toUTF8 (text : String) :
    text.toUTF8.toList = text.toList.flatMap String.utf8EncodeChar := by
  have hbytes : text.toUTF8 = (text.toList.flatMap String.utf8EncodeChar).toByteArray := by
    rw [← List.utf8Encode, ← String.toByteArray_ofList, String.ofList_toList]
    rfl
  rw [hbytes, toList_eq_toList_data, List.toList_data_toByteArray]

theorem decode_toUTF8 (text : String) : decode text.toUTF8 = (text, none) := by
  have hall : ∀ cs : List Char,
      decodeFrom none (cs.flatMap String.utf8EncodeChar) = (cs, none) := by
    intro cs
    induction cs with
    | nil => rfl
    | cons c cs ih => rw [List.flatMap_cons, decodeFrom_utf8EncodeChar, ih]
  rw [decode, toList_toUTF8, hall, String.ofList_toList]

theorem decode?_toUTF8 (text : String) : decode? text.toUTF8 = some text := by
  rw [decode?, decode_toUTF8]

end Utf8
end Text
end JsLisp
