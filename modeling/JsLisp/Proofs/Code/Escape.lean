/-
Literals that delimit themselves.

`stringLiteral` escapes a value in one pass, character by character.  The same text
comes out if the value is rewritten as a whole five times, once for each character that
needs an escape, provided that the backslash goes first: the later passes write
backslashes, and none of them writes a character that a pass behind it looks for.

Whichever way it was written, a reader that starts at the opening quote finds the value
and stops right behind the closing quote, whatever follows there.  So no two values
share a literal.
-/
import JsLisp.Proofs.Code.Literal

namespace JsLisp
namespace Text

/-! ## Replacing a character

`String.replace` folds over the steps of a search.  A step either found the character or
passed over a part of the text without it, and the steps of a valid search lie end to
end. -/

open String.Slice.Pattern (SearchStep ToForwardSearcher)
open String.Slice.Pattern.Model (CharPred.isLongestMatchAt_iff CharPred.matchesAt_iff
  IsValidSearchFrom LawfulToForwardSearcherModel MatchesAt)

/-- What is written for one character when every `c` is replaced by a text. -/
def substitute (c : Char) (text : List Char) (d : Char) : List Char :=
  if d = c then text else [d]

theorem substitute_of_ne {c d : Char} (h : d ≠ c) (text : List Char) :
    substitute c text d = [d] :=
  if_neg h

theorem flatMap_substitute_eq_self {c : Char} {cs : List Char} (h : c ∉ cs) (text : List Char) :
    cs.flatMap (substitute c text) = cs := by
  induction cs with
  | nil => rfl
  | cons d cs ih =>
    rw [List.mem_cons, not_or] at h
    rw [List.flatMap_cons, ih h.2, substitute_of_ne (Ne.symm h.1)]
    rfl

section Search

variable {s : String.Slice} {c : Char}

theorem copy_sliceFrom_next {pos : s.Pos} (h : pos ≠ s.endPos) :
    (s.sliceFrom pos).copy = String.singleton (pos.get h) ++ (s.sliceFrom (pos.next h)).copy :=
  pos.splits.eq_right (pos.splits_next_right h)

theorem copy_sliceFrom_slice {start stop : s.Pos} (h : start ≤ stop) :
    (s.sliceFrom start).copy = (s.slice start stop h).copy ++ (s.sliceFrom stop).copy := by
  obtain ⟨before, behind, hstart, hstop⟩ := String.Slice.copy_slice_eq_iff_splits.1 ⟨h, rfl⟩
  rw [start.splits.eq_right hstart, stop.splits.eq_right hstop]

/-- A part without a match does not hold the character. -/
theorem not_mem_slice {start stop : s.Pos} (h : start ≤ stop)
    (hnone : ∀ pos, start ≤ pos → pos < stop → ¬ MatchesAt (· == c) pos) :
    c ∉ (s.slice start stop h).copy.toList := by
  intro hmem
  obtain ⟨pos, hpos, hget⟩ := String.Slice.mem_toList_copy_iff_exists_get.1 hmem
  have hlt : String.Slice.Pos.ofSlice pos < stop := by
    simp [String.Slice.Pos.ofSlice_lt_iff, h, hpos]
  rw [String.Slice.Pos.get_eq_get_ofSlice] at hget
  have hmatch : MatchesAt (· == c) (String.Slice.Pos.ofSlice pos) :=
    CharPred.matchesAt_iff.2 ⟨String.Slice.Pos.ne_endPos_of_lt hlt, by simp [hget]⟩
  exact hnone _ String.Slice.Pos.le_ofSlice hlt hmatch

/-- What is written for one step of a search. -/
def stepText (text : String) : SearchStep s → String
  | .matched _ _ => text
  | .rejected start stop => (s.slice! start stop).copy

theorem toList_foldl_stepText {pos : s.Pos} {steps : List (SearchStep s)}
    (h : IsValidSearchFrom (· == c) pos steps) (text sofar : String) :
    (steps.foldl (fun sofar step => sofar ++ stepText text step) sofar).toList =
      sofar.toList ++ (s.sliceFrom pos).copy.toList.flatMap (substitute c text.toList) := by
  induction h generalizing sofar with
  | endPos => simp
  | matched hmatch _ ih =>
    obtain ⟨hend, rfl, hget⟩ := CharPred.isLongestMatchAt_iff.1 hmatch
    rw [List.foldl_cons, ih, copy_sliceFrom_next hend, eq_of_beq hget]
    simp [stepText, substitute]
  | mismatched hlt hnone _ ih =>
    have hle := Std.le_of_lt hlt
    have hsame := flatMap_substitute_eq_self (not_mem_slice hle hnone) text.toList
    rw [List.foldl_cons, ih, copy_sliceFrom_slice hle, stepText, ← String.Slice.slice_eq_slice!,
      String.toList_append, String.toList_append, List.flatMap_append, hsame, List.append_assoc]

end Search

/-- Every `c` is replaced, and the other characters stay. -/
theorem toList_replace (s : String) (c : Char) (text : String) :
    (s.replace c text).toList = s.toList.flatMap (substitute c text.toList) := by
  have hfold : s.replace c text =
      (ToForwardSearcher.toSearcher (· == c) s.toSlice).toList.foldl
        (fun sofar step => sofar ++ stepText text step) "" := by
    show s.toSlice.replace c text = _
    rw [String.Slice.replace, ← Std.Iter.foldl_toList]
    congr 1
    funext sofar step
    cases step with
    | matched start stop =>
      show sofar ++ text.toSlice = sofar ++ text
      simp
    | rejected start stop => simp [stepText]
  rw [hfold,
    toList_foldl_stepText (LawfulToForwardSearcherModel.isValidSearchFrom_toList s.toSlice)]
  simp

end Text

namespace Code

open Text (substitute)

/-- The value with its characters escaped one kind after the other. -/
def replacements (value : String) : String :=
  ((((value.replace '\\' "\\\\").replace '"' "\\\"").replace '\n' "\\n").replace
    '\r' "\\r").replace '\t' "\\t"

/-- What the five passes make of one character. -/
theorem flatMap_substitute_eq_escapeChar (c : Char) :
    ((((substitute '\\' ['\\', '\\'] c).flatMap (substitute '"' ['\\', '"'])).flatMap
      (substitute '\n' ['\\', 'n'])).flatMap (substitute '\r' ['\\', 'r'])).flatMap
        (substitute '\t' ['\\', 't']) = escapeChar c := by
  unfold escapeChar
  split
  case h_6 hslash hquote hline hreturn htab =>
    simp [Text.substitute_of_ne hslash, Text.substitute_of_ne hquote,
      Text.substitute_of_ne hline, Text.substitute_of_ne hreturn, Text.substitute_of_ne htab]
  all_goals rfl

theorem toList_replacements (value : String) :
    (replacements value).toList = value.toList.flatMap escapeChar := by
  simp only [replacements, Text.toList_replace, List.flatMap_assoc]
  congr 1
  funext c
  rw [← flatMap_substitute_eq_escapeChar]
  simp only [List.flatMap_assoc]
  rfl

theorem stringLiteral_eq_replacements (value : String) :
    stringLiteral value = "\"" ++ replacements value ++ "\"" := by
  rw [← String.toList_inj, String.toList_append, String.toList_append, toList_replacements]
  simp [stringLiteral, escape]

/-- The value of the literal that the code starts with, and the code behind it. -/
def readString (code : String) : Option (String × String) :=
  match code.toList with
  | '"' :: cs => (readLiteral cs).map fun cut => (String.ofList cut.1, String.ofList cut.2)
  | _ => none

theorem readString_stringLiteral (value rest : String) :
    readString (stringLiteral value ++ rest) = some (value, rest) := by
  rw [readString, String.toList_append, toList_stringLiteral]
  show (readLiteral (escape value.toList ++ '"' :: rest.toList)).map _ = _
  rw [readLiteral_escape, Option.map_some, String.ofList_toList, String.ofList_toList]

/-- A literal reads as its value, and nothing behind it is touched.  The passes over the
whole value escape each character by itself, and a literal has one value. -/
theorem stringLiteral_self_delimiting :
    (∀ value rest : String, readString (stringLiteral value ++ rest) = some (value, rest)) ∧
    (∀ value : String,
      (replacements value).toList = value.toList.flatMap escapeChar ∧
        stringLiteral value = "\"" ++ replacements value ++ "\"") ∧
    ∀ value value' : String, stringLiteral value = stringLiteral value' ↔ value = value' := by
  refine ⟨readString_stringLiteral,
    fun value => ⟨toList_replacements value, stringLiteral_eq_replacements value⟩,
    fun value value' => ⟨fun heq => ?_, congrArg stringLiteral⟩⟩
  have hread := readString_stringLiteral value ""
  rw [heq, readString_stringLiteral] at hread
  cases hread
  rfl

end Code
end JsLisp
