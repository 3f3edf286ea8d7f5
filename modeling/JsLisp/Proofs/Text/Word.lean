/-
Words and numerals, the two classes of text that source and code share.
-/
import JsLisp.Text.Blank

namespace JsLisp
namespace Text

/-- An ASCII letter, then ASCII letters and digits. -/
def isWord : List Char → Bool
  | [] => false
  | c :: cs => c.isAlpha && cs.all Char.isAlphanum

/-- One ASCII digit or more. -/
def isDigits (cs : List Char) : Bool :=
  !cs.isEmpty && cs.all Char.isDigit

/-- Digits, or digits on both sides of one dot. -/
def isNumeral (cs : List Char) : Bool :=
  isDigits cs ||
    (isDigits (cs.takeWhile (· ≠ '.')) && isDigits ((cs.dropWhile (· ≠ '.')).drop 1))

theorem isWord_cons (c : Char) (cs : List Char) :
    isWord (c :: cs) = true ↔ c.isAlpha = true ∧ ∀ d ∈ cs, d.isAlphanum = true := by
  simp [isWord]

theorem exists_cons_of_isWord {cs : List Char} (h : isWord cs = true) :
    ∃ c more, cs = c :: more ∧ c.isAlpha = true ∧ ∀ d ∈ more, d.isAlphanum = true := by
  cases cs with
  | nil => cases h
  | cons c more => exact ⟨c, more, rfl, (isWord_cons c more).1 h⟩

theorem isDigits_iff (cs : List Char) :
    isDigits cs = true ↔ cs ≠ [] ∧ ∀ d ∈ cs, d.isDigit = true := by
  simp [isDigits]

/-- What follows does not go on with a character of the class. -/
def Ends (p : Char → Bool) (rest : List Char) : Prop :=
  ∀ c, rest.head? = some c → p c = false

theorem ends_nil (p : Char → Bool) : Ends p [] := by
  intro c h
  cases h

theorem ends_cons {p : Char → Bool} {c : Char} (cs : List Char) (h : p c = false) :
    Ends p (c :: cs) := by
  intro d hd
  cases hd
  exact h

theorem ends_append {p : Char → Bool} {cs rest : List Char} (h : Ends p cs) (h' : Ends p rest) :
    Ends p (cs ++ rest) := by
  cases cs with
  | nil => exact h'
  | cons c cs => exact ends_cons _ (h c rfl)

theorem ends_dropWhile (p : Char → Bool) (cs : List Char) : Ends p (cs.dropWhile p) := by
  intro c h
  have hnot := List.head?_dropWhile_not p cs
  rw [h] at hnot
  simpa using hnot

theorem takeWhile_append {p : Char → Bool} {cs rest : List Char} (hcs : ∀ c ∈ cs, p c = true)
    (hrest : Ends p rest) : (cs ++ rest).takeWhile p = cs := by
  have hnil : rest.takeWhile p = [] := by
    cases rest with
    | nil => rfl
    | cons c rest => simp [hrest c rfl]
  rw [List.takeWhile_append_of_pos hcs, hnil, List.append_nil]

theorem dropWhile_append {p : Char → Bool} {cs rest : List Char} (hcs : ∀ c ∈ cs, p c = true)
    (hrest : Ends p rest) : (cs ++ rest).dropWhile p = rest := by
  rw [List.dropWhile_append_of_pos hcs]
  cases rest with
  | nil => rfl
  | cons c rest => simp [hrest c rfl]

theorem not_mem_takeWhile (x : Char) (cs : List Char) : x ∉ cs.takeWhile (· ≠ x) := by
  intro hmem
  have hall := List.all_eq_true.1 (List.all_takeWhile (p := (· ≠ x)) (l := cs)) x hmem
  simp at hall

/-- A text that was cut at a character has it in none of its pieces. -/
theorem not_mem_of_mem_splitOn {x : Char} {cs piece : List Char} (h : piece ∈ cs.splitOn x) :
    x ∉ piece := by
  induction cs generalizing piece with
  | nil =>
    rw [List.splitOn_nil, List.mem_singleton] at h
    rw [h]
    exact List.not_mem_nil
  | cons c cs ih =>
    rw [List.splitOn_cons_eq_if_modifyHead] at h
    by_cases hcut : (c == x) = true
    · rw [if_pos hcut] at h
      rcases List.mem_cons.1 h with rfl | hmem
      · exact List.not_mem_nil
      · exact ih hmem
    · -- The character joins the first piece of what follows it.
      obtain ⟨first, more, hpieces⟩ := List.exists_cons_of_ne_nil (List.splitOn_ne_nil x cs)
      rw [if_neg hcut, hpieces, List.modifyHead_cons] at h
      rw [hpieces] at ih
      rcases List.mem_cons.1 h with rfl | hmem
      · have hne : x ≠ c := fun heq => hcut (by simp [heq])
        exact List.not_mem_cons_of_ne_of_not_mem hne (ih List.mem_cons_self)
      · exact ih (List.mem_cons_of_mem first hmem)

theorem all_ne_of_not_mem {x : Char} {cs : List Char} (h : x ∉ cs) :
    ∀ c ∈ cs, decide (c ≠ x) = true := by
  intro c hc
  have hne : c ≠ x := fun heq => h (heq ▸ hc)
  simpa using hne

theorem isAlpha_iff (c : Char) :
    c.isAlpha = true ↔ (65 ≤ c.toNat ∧ c.toNat ≤ 90) ∨ (97 ≤ c.toNat ∧ c.toNat ≤ 122) := by
  show (decide (c.val ≥ 65 ∧ c.val ≤ 90) ||
    (decide (c.val ≥ 97) && decide (c.val ≤ 122))) = true ↔ _
  simp [UInt32.le_iff_toNat_le, ← Char.toNat_val]

theorem isDigit_iff (c : Char) : c.isDigit = true ↔ 48 ≤ c.toNat ∧ c.toNat ≤ 57 := by
  simp [Char.isDigit, UInt32.le_iff_toNat_le, ← Char.toNat_val]

theorem isAlphanum_iff (c : Char) :
    c.isAlphanum = true ↔ c.isAlpha = true ∨ c.isDigit = true := by
  simp [Char.isAlphanum]

theorem isBlank_eq_false_of_isAlphanum {c : Char} (h : c.isAlphanum = true) :
    isBlank c = false := by
  rw [isAlphanum_iff, isAlpha_iff, isDigit_iff] at h
  simp only [isBlank, inRanges, blankRanges, List.any_cons, List.any_nil, Bool.or_false,
    Bool.or_eq_false_iff, Bool.and_eq_false_iff, decide_eq_false_iff_not]
  omega

theorem isAlpha_eq_false_of_isDigit {c : Char} (h : c.isDigit = true) : c.isAlpha = false := by
  rw [isDigit_iff] at h
  rw [Bool.eq_false_iff, ne_eq, isAlpha_iff]
  omega

theorem isDigit_eq_false_of_isAlpha {c : Char} (h : c.isAlpha = true) : c.isDigit = false := by
  rw [isAlpha_iff] at h
  rw [Bool.eq_false_iff, ne_eq, isDigit_iff]
  omega

theorem all_ne_dot_of_isDigits {cs : List Char} (h : isDigits cs = true) :
    ∀ c ∈ cs, decide (c ≠ '.') = true := by
  refine all_ne_of_not_mem fun hmem => ?_
  exact absurd (((isDigits_iff cs).1 h).2 '.' hmem) (by decide)

theorem isNumeral_iff (cs : List Char) :
    isNumeral cs = true ↔ isDigits cs = true ∨
      ∃ whole part, isDigits whole = true ∧ isDigits part = true ∧ cs = whole ++ '.' :: part := by
  rw [isNumeral, Bool.or_eq_true, Bool.and_eq_true]
  constructor
  · rintro (hdigits | ⟨hwhole, hpart⟩)
    · exact .inl hdigits
    · have happend := List.takeWhile_append_dropWhile (p := (· ≠ '.')) (l := cs)
      cases hdrop : cs.dropWhile (· ≠ '.') with
      | nil =>
        rw [hdrop] at hpart
        cases hpart
      | cons c part =>
        have hdot : c = '.' := by
          have hends := ends_dropWhile (· ≠ '.') cs c (by rw [hdrop]; rfl)
          simpa using hends
        subst hdot
        rw [hdrop] at hpart happend
        exact .inr ⟨_, part, hwhole, hpart, happend.symm⟩
  · rintro (hdigits | ⟨whole, part, hwhole, hpart, rfl⟩)
    · exact .inl hdigits
    · have hends : Ends (· ≠ '.') ('.' :: part) := ends_cons part (by decide)
      have hall := all_ne_dot_of_isDigits hwhole
      rw [takeWhile_append hall hends, dropWhile_append hall hends]
      exact .inr ⟨hwhole, hpart⟩

theorem exists_cons_of_isDigits {cs : List Char} (h : isDigits cs = true) :
    ∃ c more, cs = c :: more ∧ c.isDigit = true ∧ ∀ d ∈ more, d.isDigit = true := by
  obtain ⟨hne, hall⟩ := (isDigits_iff cs).1 h
  cases cs with
  | nil => exact absurd rfl hne
  | cons c more =>
    exact ⟨c, more, rfl, hall c List.mem_cons_self, fun d hd => hall d (List.mem_cons_of_mem c hd)⟩

/-- A numeral is a digit, then digits and dots. -/
theorem exists_cons_of_isNumeral {cs : List Char} (h : isNumeral cs = true) :
    ∃ c more, cs = c :: more ∧ c.isDigit = true ∧
      ∀ d ∈ more, d.isDigit = true ∨ d = '.' := by
  rcases (isNumeral_iff cs).1 h with hdigits | ⟨whole, part, hwhole, hpart, rfl⟩
  · obtain ⟨c, more, rfl, hc, hmore⟩ := exists_cons_of_isDigits hdigits
    exact ⟨c, more, rfl, hc, fun d hd => .inl (hmore d hd)⟩
  · obtain ⟨c, more, rfl, hc, hmore⟩ := exists_cons_of_isDigits hwhole
    have hall := ((isDigits_iff part).1 hpart).2
    refine ⟨c, more ++ '.' :: part, rfl, hc, fun d hd => ?_⟩
    simp only [List.mem_append, List.mem_cons] at hd
    rcases hd with hd | rfl | hd
    · exact .inl (hmore d hd)
    · exact .inr rfl
    · exact .inl (hall d hd)

end Text
end JsLisp
