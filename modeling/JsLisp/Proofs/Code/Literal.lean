/-
Reading string literals out of code.

`readLiteral` reads one literal from behind its opening quote, and `literals` goes
through code from the left and reads every literal on its way.  A piece of code
carries a list of values if reading it adds exactly these values in front of what
is read from the code behind it.  Carrying is closed under concatenation, which is
how all code is put together.
-/
import JsLisp.Code.Literal

namespace JsLisp
namespace Code

/-- What a backslash and the character behind it stand for. -/
def unescape? : Char → Option Char
  | '\\' => some '\\'
  | '"' => some '"'
  | 'n' => some '\n'
  | 'r' => some '\r'
  | 't' => some '\t'
  | _ => none

/-- The value of a literal and what stands behind it, given what stands behind its
opening quote.  The first quote without a backslash closes it, and it does not
span lines. -/
def readLiteral : List Char → Option (List Char × List Char)
  | [] => none
  | '\\' :: c :: cs =>
    match unescape? c, readLiteral cs with
    | some d, some (value, rest) => some (d :: value, rest)
    | _, _ => none
  | c :: cs =>
    if c = '"' then some ([], cs)
    else if c = '\n' ∨ c = '\r' then none
    else (readLiteral cs).map fun cut => (c :: cut.1, cut.2)

theorem length_lt_of_readLiteral {cs value rest : List Char}
    (h : readLiteral cs = some (value, rest)) : rest.length < cs.length := by
  fun_induction readLiteral cs generalizing value with
  | case1 => cases h
  | case2 c cs d value' rest' hread hd ih =>
    cases h
    have := ih hread
    simp only [List.length_cons]
    omega
  | case3 => cases h
  | case4 =>
    cases h
    simp
  | case5 => cases h
  | case6 c cs hesc hquote hline ih =>
    obtain ⟨cut, hcut, heq⟩ := Option.map_eq_some_iff.1 h
    cases heq
    have := ih hcut
    simp only [List.length_cons]
    omega

/-- The values of all string literals, from the left.  There are none if a literal
is not closed or is malformed. -/
def literals (code : List Char) : Option (List String) :=
  match code with
  | [] => some []
  | c :: cs =>
    if c = '"' then
      match _h : readLiteral cs with
      | some (value, rest) => (literals rest).map (String.ofList value :: ·)
      | none => none
    else literals cs
termination_by code.length
decreasing_by
  · have := length_lt_of_readLiteral _h
    simp only [List.length_cons]
    omega
  · simp

/-- An escaped value reads as itself. -/
theorem readLiteral_escape (value rest : List Char) :
    readLiteral (escape value ++ '"' :: rest) = some (value, rest) := by
  induction value with
  | nil => rfl
  | cons c value ih =>
    have hsplit : escape (c :: value) ++ '"' :: rest =
        escapeChar c ++ (escape value ++ '"' :: rest) := by
      rw [escape, List.flatMap_cons, List.append_assoc, escape]
    rw [hsplit]
    unfold escapeChar
    split
    case h_6 hslash hquote hline hreturn htab =>
      have hbreak : ¬ (c = '\n' ∨ c = '\r') := fun h => h.elim hline hreturn
      rw [List.singleton_append, readLiteral, if_neg hquote, if_neg hbreak, ih]
      · rfl
      · exact fun _ _ heq => absurd heq hslash
    all_goals simp [readLiteral, unescape?, ih]

theorem literals_cons {c : Char} (h : c ≠ '"') (cs : List Char) :
    literals (c :: cs) = literals cs := by
  rw [literals, if_neg h]

theorem literals_quote {cs value rest : List Char} (h : readLiteral cs = some (value, rest)) :
    literals ('"' :: cs) = (literals rest).map (String.ofList value :: ·) := by
  rw [literals, if_pos rfl]
  split
  · rename_i value' rest' hread
    rw [h] at hread
    cases hread
    rfl
  · rename_i hread
    rw [h] at hread
    cases hread

/-- Reading the code gives the values, and then whatever stands behind it. -/
def Carries (code : String) (values : List String) : Prop :=
  ∀ rest, literals (code.toList ++ rest) = (literals rest).map (values ++ ·)

namespace Carries

theorem empty : Carries "" [] := by
  intro rest
  simp

theorem append {code code' : String} {values values' : List String} (h : Carries code values)
    (h' : Carries code' values') : Carries (code ++ code') (values ++ values') := by
  intro rest
  rw [String.toList_append, List.append_assoc, h, h', Option.map_map]
  congr 1
  funext more
  exact (List.append_assoc values values' more).symm

theorem of_not_mem {code : String} (h : '"' ∉ code.toList) : Carries code [] := by
  intro rest
  have hskip : ∀ cs : List Char, '"' ∉ cs → literals (cs ++ rest) = literals rest := by
    intro cs hcs
    induction cs with
    | nil => rfl
    | cons c cs ih =>
      rw [List.mem_cons, not_or] at hcs
      rw [List.cons_append, literals_cons (Ne.symm hcs.1), ih hcs.2]
  rw [hskip code.toList h]
  simp

theorem stringLiteral (value : String) : Carries (Code.stringLiteral value) [value] := by
  intro rest
  rw [toList_stringLiteral, literals_quote (readLiteral_escape value.toList rest),
    String.ofList_toList]
  rfl

theorem literals_eq {code : String} {values : List String} (h : Carries code values) :
    literals code.toList = some values := by
  have hend := h []
  rw [List.append_nil] at hend
  rw [hend, literals]
  simp

end Carries
end Code
end JsLisp
