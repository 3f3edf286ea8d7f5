/-
String literals of the emitted code.
-/
namespace JsLisp
namespace Code

/-- A character inside a double-quoted literal.  Everything but the quote, the
backslash and the three commonest control characters stands for itself. -/
def escapeChar : Char → List Char
  | '\\' => ['\\', '\\']
  | '"' => ['\\', '"']
  | '\n' => ['\\', 'n']
  | '\r' => ['\\', 'r']
  | '\t' => ['\\', 't']
  | c => [c]

def escape (value : List Char) : List Char :=
  value.flatMap escapeChar

/-- The double-quoted literal that denotes `value`. -/
def stringLiteral (value : String) : String :=
  String.ofList ('"' :: escape value.toList ++ ['"'])

theorem toList_stringLiteral (value : String) (rest : List Char) :
    (stringLiteral value).toList ++ rest = '"' :: (escape value.toList ++ '"' :: rest) := by
  simp [stringLiteral]

/-- A scan that drops a backslash with the character behind it, and every other
character but the quote, drops an escaped value. -/
theorem scan_escape {α : Type} {scan : List Char → α}
    (hslash : ∀ c cs, scan ('\\' :: c :: cs) = scan cs)
    (hother : ∀ c cs, c ≠ '\\' → c ≠ '"' → scan (c :: cs) = scan cs) (value rest : List Char) :
    scan (escape value ++ rest) = scan rest := by
  have hchar : ∀ c cs, scan (escapeChar c ++ cs) = scan cs := by
    intro c cs
    unfold escapeChar
    split
    case h_6 hback hquote _ _ _ => exact hother c cs hback hquote
    all_goals exact hslash _ cs
  induction value with
  | nil => rfl
  | cons c value ih =>
    rw [escape, List.flatMap_cons, List.append_assoc, hchar]
    exact ih

end Code
end JsLisp
