/-
The scan for a group, against a grammar and against a count that may fail.

The scan answers for every text, not only for emitted code.  `Unquoted` and `Balanced`
say what it answers without a scan: string literals are taken out of the text by the
grammar of literals, and what stays is a balanced word by the grammar of such words.

`Scanner` is the scan one character at a time, with a count of open groups, flags for
literals and the index in bytes.  Its count goes up and down on its own, so a parenthesis
may in principle close where nothing is open, and then the scan has no result.  It never
comes to that, because the scan ends where the outermost group closes.
-/
import JsLisp.Proofs.Code.Enclosed

namespace JsLisp
namespace Code

/-- The inside of a string literal.  A backslash takes the next character with it. -/
inductive Quoted : List Char → Prop
  | nil : Quoted []
  | plain {c : Char} {cs : List Char} (hquote : c ≠ '"') (hslash : c ≠ '\\') (h : Quoted cs) :
    Quoted (c :: cs)
  | escaped {cs : List Char} (c : Char) (h : Quoted cs) : Quoted ('\\' :: c :: cs)

/-- Every literal that the text opens is closed in it, and `outside` is left without them. -/
inductive Unquoted : List Char → List Char → Prop
  | nil : Unquoted [] []
  | plain {c : Char} {cs outside : List Char} (hquote : c ≠ '"') (h : Unquoted cs outside) :
    Unquoted (c :: cs) (c :: outside)
  | literal {inside cs outside : List Char} (hinside : Quoted inside) (h : Unquoted cs outside) :
    Unquoted ('"' :: (inside ++ '"' :: cs)) outside

theorem bareInString_of_quoted {inside : List Char} (h : Quoted inside) (cs : List Char) :
    bareInString (inside ++ '"' :: cs) = bare cs := by
  induction h with
  | nil => rfl
  | plain hquote hslash _ ih =>
    rw [List.cons_append, bareInString_cons hslash, if_neg hquote]
    exact ih
  | escaped c _ ih => exact ih

mutual

theorem unquoted_of_bare {cs outside : List Char} (h : bare cs = some outside) :
    Unquoted cs outside := by
  cases cs with
  | nil =>
    cases h
    exact .nil
  | cons c cs =>
    rw [bare] at h
    by_cases hquote : c = '"'
    · rw [if_pos hquote] at h
      obtain ⟨inside, rest, hinside, hrest, rfl⟩ := quoted_of_bareInString h
      rw [hquote]
      exact .literal hinside hrest
    · rw [if_neg hquote, Option.map_eq_some_iff] at h
      obtain ⟨more, hmore, rfl⟩ := h
      exact .plain hquote (unquoted_of_bare hmore)

theorem quoted_of_bareInString {cs outside : List Char} (h : bareInString cs = some outside) :
    ∃ inside rest, Quoted inside ∧ Unquoted rest outside ∧ cs = inside ++ '"' :: rest := by
  cases cs with
  | nil => cases h
  | cons c cs =>
    by_cases hslash : c = '\\'
    · subst hslash
      cases cs with
      | nil => cases h
      | cons d cs =>
        have hinside : bareInString cs = some outside := h
        obtain ⟨inside, rest, hquoted, hrest, rfl⟩ := quoted_of_bareInString hinside
        exact ⟨'\\' :: d :: inside, rest, .escaped d hquoted, hrest, rfl⟩
    · rw [bareInString_cons hslash] at h
      by_cases hquote : c = '"'
      · rw [if_pos hquote] at h
        exact ⟨[], cs, .nil, unquoted_of_bare h, by rw [hquote]; rfl⟩
      · rw [if_neg hquote] at h
        obtain ⟨inside, rest, hquoted, hrest, rfl⟩ := quoted_of_bareInString h
        exact ⟨c :: inside, rest, .plain hquote hslash hquoted, hrest, rfl⟩

end

theorem bare_eq_some_iff (cs outside : List Char) :
    bare cs = some outside ↔ Unquoted cs outside := by
  refine ⟨unquoted_of_bare, fun h => ?_⟩
  induction h with
  | nil => rfl
  | plain hquote _ ih =>
    rw [bare, if_neg hquote, ih]
    rfl
  | literal hinside _ ih => rw [bare, if_pos rfl, bareInString_of_quoted hinside, ih]

/-- Balanced words in parentheses, where other characters stand for nothing. -/
inductive Balanced : List Char → Prop
  | nil : Balanced []
  | other {c : Char} (hopening : c ≠ '(') (hclosing : c ≠ ')') : Balanced [c]
  | append {cs ds : List Char} (h : Balanced cs) (h' : Balanced ds) : Balanced (cs ++ ds)
  | pair {cs : List Char} (h : Balanced cs) : Balanced ('(' :: (cs ++ [')']))

theorem nested_parens_iff (cs : List Char) : Nested parens cs ↔ Balanced cs := by
  constructor
  · intro h
    induction h with
    | nil => exact .nil
    | other hc _ ih =>
      obtain ⟨hopening, hclosing⟩ := hc ('(', ')') List.mem_cons_self
      exact .append (.other hopening hclosing) ih
    | group hpair _ _ ihinner ih =>
      cases List.mem_singleton.1 hpair
      have hgroup := Balanced.append (.pair ihinner) ih
      simpa using hgroup
  · intro h
    induction h with
    | nil => exact .nil
    | other hopening hclosing =>
      refine .other (fun pair hpair => ?_) .nil
      cases List.mem_singleton.1 hpair
      exact ⟨hopening, hclosing⟩
    | append _ _ ih ih' => exact ih.append ih'
    | pair _ ih => exact .group List.mem_cons_self ih .nil

/-! ## The scan by steps -/

/-- The scan between two characters: the groups that are open, whether it stands in a string
literal, and there whether behind a backslash. -/
structure Scanner where
  depth : Nat
  inString : Bool
  escaped : Bool
deriving DecidableEq

namespace Scanner

/-- Read a character.  There is no state behind a parenthesis that closes nothing. -/
def step (scanner : Scanner) (c : Char) : Option Scanner :=
  if scanner.inString then
    if scanner.escaped then some { scanner with escaped := false }
    else if c = '\\' then some { scanner with escaped := true }
    else if c = '"' then some { scanner with inString := false }
    else some scanner
  else if c = '"' then some { scanner with inString := true }
  else if c = '(' then some { scanner with depth := scanner.depth + 1 }
  else if c = ')' then
    if scanner.depth = 0 then none else some { scanner with depth := scanner.depth - 1 }
  else some scanner

/-- Read the characters from a byte index on.  Where the outermost group closes, the answer
is whether that is the last of `size` bytes. -/
def scan (size : Nat) (scanner : Scanner) (index : Nat) : List Char → Option Bool
  | [] => some false
  | c :: cs =>
    match scanner.step c with
    | none => none
    | some next =>
      if !scanner.inString && c == ')' && next.depth == 0 then some (index == size - 1)
      else scan size next (index + c.utf8Size) cs

end Scanner

/-- Whether the code is one group, if the count of open groups stays above zero. -/
def isEnclosed? (code : String) : Option Bool :=
  if code.toList.head? = some '(' then
    Scanner.scan code.utf8ByteSize ⟨0, false, false⟩ 0 code.toList
  else some false

namespace Scanner

/-- A scan that has not come to its end: a group is open, and a backslash counts only inside
a literal. -/
structure Open (scanner : Scanner) : Prop where
  depth_pos : 0 < scanner.depth
  unescaped : scanner.inString = false → scanner.escaped = false

/-- What is still to be answered.  A backslash that was read stands in front again. -/
def answer (scanner : Scanner) (cs : List Char) : Bool :=
  if scanner.inString then
    closesLastInString scanner.depth (if scanner.escaped then '\\' :: cs else cs)
  else closesLast scanner.depth cs

theorem answer_nil (scanner : Scanner) : scanner.answer [] = false := by
  obtain ⟨depth, inString, escaped⟩ := scanner
  cases inString with
  | false => rfl
  | true => cases escaped <;> rfl

section Step

variable {depth : Nat} (hdepth : 0 < depth)

include hdepth

theorem open_inString (escaped : Bool) : Open ⟨depth, true, escaped⟩ :=
  ⟨hdepth, fun h => Bool.noConfusion h⟩

theorem open_outside : Open ⟨depth, false, false⟩ :=
  ⟨hdepth, fun _ => rfl⟩

theorem step_inString (escaped : Bool) (c : Char) (cs : List Char) :
    ∃ next, step ⟨depth, true, escaped⟩ c = some next ∧ next.Open ∧
      answer ⟨depth, true, escaped⟩ (c :: cs) = next.answer cs := by
  cases escaped with
  | true => exact ⟨⟨depth, true, false⟩, rfl, open_inString hdepth false, rfl⟩
  | false =>
    by_cases hslash : c = '\\'
    · subst hslash
      exact ⟨⟨depth, true, true⟩, rfl, open_inString hdepth true, rfl⟩
    · have hanswer : answer ⟨depth, true, false⟩ (c :: cs) =
          if c = '"' then closesLast depth cs else closesLastInString depth cs :=
        closesLastInString_cons hslash depth cs
      by_cases hquote : c = '"'
      · refine ⟨⟨depth, false, false⟩, by simp [step, hquote], open_outside hdepth, ?_⟩
        rw [hanswer, if_pos hquote]
        rfl
      · refine ⟨⟨depth, true, false⟩, by simp [step, hslash, hquote],
          open_inString hdepth false, ?_⟩
        rw [hanswer, if_neg hquote]
        rfl

theorem step_outside (c : Char) (cs : List Char) :
    (c = ')' ∧ depth = 1 ∧ answer ⟨depth, false, false⟩ (c :: cs) = cs.isEmpty) ∨
    ∃ next, step ⟨depth, false, false⟩ c = some next ∧ next.Open ∧
      answer ⟨depth, false, false⟩ (c :: cs) = next.answer cs := by
  have hanswer : answer ⟨depth, false, false⟩ (c :: cs) = closesLast depth (c :: cs) := rfl
  rw [hanswer, closesLast]
  by_cases hquote : c = '"'
  · rw [if_pos hquote]
    exact .inr ⟨_, by simp [step, hquote], open_inString hdepth false, rfl⟩
  rw [if_neg hquote]
  by_cases hopening : c = '('
  · rw [if_pos hopening]
    exact .inr ⟨_, by simp [step, hopening], open_outside (Nat.succ_pos depth), rfl⟩
  rw [if_neg hopening]
  by_cases hclosing : c = ')'
  · rw [if_pos hclosing]
    by_cases hlast : depth ≤ 1
    · have hone : depth = 1 := by omega
      exact .inl ⟨hclosing, hone, if_pos hlast⟩
    · have hpos : 0 < depth - 1 := by omega
      have hstep : step ⟨depth, false, false⟩ c = some ⟨depth - 1, false, false⟩ := by
        have hne : depth ≠ 0 := by omega
        simp [step, hclosing, hne]
      exact .inr ⟨_, hstep, open_outside hpos, if_neg hlast⟩
  · rw [if_neg hclosing]
    exact .inr ⟨_, by simp [step, hquote, hopening, hclosing], open_outside hdepth, rfl⟩

end Step

/-- A character closes the outermost group, or the scan goes on with a group open. -/
theorem step_of_open {scanner : Scanner} (h : scanner.Open) (c : Char) (cs : List Char) :
    (scanner = ⟨1, false, false⟩ ∧ c = ')' ∧ scanner.answer (c :: cs) = cs.isEmpty) ∨
    ∃ next, scanner.step c = some next ∧ next.Open ∧
      scanner.answer (c :: cs) = next.answer cs := by
  obtain ⟨depth, inString, escaped⟩ := scanner
  obtain ⟨hdepth, hunescaped⟩ := h
  cases inString with
  | true => exact .inr (step_inString hdepth escaped c cs)
  | false =>
    obtain rfl : escaped = false := hunescaped rfl
    rcases step_outside hdepth c cs with ⟨hclosing, rfl, hanswer⟩ | hnext
    · exact .inl ⟨rfl, hclosing, hanswer⟩
    · exact .inr hnext

end Scanner

theorem utf8ByteSize_cons (c : Char) (cs : List Char) :
    (String.ofList (c :: cs)).utf8ByteSize = c.utf8Size + (String.ofList cs).utf8ByteSize := by
  have hcons : String.ofList (c :: cs) = String.singleton c ++ String.ofList cs := by
    rw [← String.toList_inj]
    simp
  rw [hcons, String.utf8ByteSize_append, String.utf8ByteSize_singleton]

/-- A closing parenthesis is one byte, so it stands at the last index exactly if no character
is left. -/
theorem beq_last_index {size index : Nat} {cs : List Char}
    (hsize : size = index + (String.ofList (')' :: cs)).utf8ByteSize) :
    (index == size - 1) = cs.isEmpty := by
  have hwidth : ')'.utf8Size = 1 := rfl
  rw [utf8ByteSize_cons, hwidth] at hsize
  cases cs with
  | nil =>
    have hnone : (String.ofList []).utf8ByteSize = 0 := rfl
    rw [List.isEmpty_nil, beq_iff_eq]
    omega
  | cons c cs =>
    have hpos := c.utf8Size_pos
    rw [utf8ByteSize_cons] at hsize
    rw [List.isEmpty_cons, beq_eq_false_iff_ne]
    omega

/-- The scan has an answer. -/
theorem Scanner.scan_eq {scanner : Scanner} (h : scanner.Open) {size index : Nat}
    {cs : List Char} (hsize : size = index + (String.ofList cs).utf8ByteSize) :
    scan size scanner index cs = some (scanner.answer cs) := by
  induction cs generalizing scanner index with
  | nil => rw [scan, answer_nil]
  | cons c cs ih =>
    rcases step_of_open h c cs with ⟨rfl, rfl, hanswer⟩ | ⟨next, hstep, hopen, hanswer⟩
    · rw [hanswer, ← beq_last_index hsize]
      rfl
    · have hgoes : (next.depth == 0) = false := by
        have hpos := hopen.depth_pos
        rw [beq_eq_false_iff_ne]
        omega
      rw [utf8ByteSize_cons] at hsize
      rw [scan, hstep, hanswer]
      simp only [hgoes, Bool.and_false, Bool.false_eq_true, if_false]
      exact ih hopen (by omega)

theorem isEnclosed?_eq (code : String) : isEnclosed? code = some (isEnclosed code) := by
  unfold isEnclosed? isEnclosed
  split
  · rename_i hfirst
    obtain ⟨cs, hcs⟩ := List.head?_eq_some_iff.1 hfirst
    have hsize : code.utf8ByteSize = 1 + (String.ofList cs).utf8ByteSize := by
      rw [← String.ofList_toList (s := code), hcs, utf8ByteSize_cons]
      rfl
    rw [hcs]
    -- The first parenthesis opens the group that the scan ends with.
    exact Scanner.scan_eq (Scanner.open_outside Nat.one_pos) hsize
  · rename_i hfirst
    split
    · rename_i cs hcs
      rw [hcs] at hfirst
      exact absurd rfl hfirst
    · rfl

/-- The scan for a group has an answer for every text, with no parenthesis that closes
nothing, and the answer is yes exactly for a pair of parentheses around text that closes its
string literals and is balanced without them. -/
theorem isEnclosed_exact (code : String) :
    isEnclosed? code = some (isEnclosed code) ∧
    (isEnclosed code = true ↔
      ∃ (inner : String) (outside : List Char), code = "(" ++ inner ++ ")" ∧
        Unquoted inner.toList outside ∧ Balanced outside) := by
  refine ⟨isEnclosed?_eq code, ?_⟩
  rw [isEnclosed_iff]
  constructor
  · rintro ⟨inner, outside, hcode, hbare, hnested⟩
    refine ⟨String.ofList inner, outside, ?_, ?_, (nested_parens_iff outside).1 hnested⟩
    · rw [← String.toList_inj, hcode]
      simp
    · rw [String.toList_ofList]
      exact (bare_eq_some_iff inner outside).1 hbare
  · rintro ⟨inner, outside, rfl, hunquoted, hbalanced⟩
    exact ⟨inner.toList, outside, by simp, (bare_eq_some_iff _ _).2 hunquoted,
      (nested_parens_iff outside).2 hbalanced⟩

end Code
end JsLisp
