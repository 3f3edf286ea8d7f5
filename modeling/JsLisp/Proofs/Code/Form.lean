/-
The texts that forms put around their arguments.

How many separators a form has depends on its arguments, but they come from a
vocabulary that does not, so what holds of every text of a vocabulary is checked
once and holds of all code written with the form.  So it is checked here that code
has only printable ASCII around its arguments, and no quote.
-/
import JsLisp.Proofs.Code.Emission
import JsLisp.Proofs.Expr.Name

namespace JsLisp

theorem weave_nil (separators : List String) :
    weave separators [] = separators.foldr (· ++ ·) "" := by
  cases separators <;> rfl

theorem weave_cons (s a : String) (separators args : List String) :
    (weave (s :: separators) (a :: args)).toList =
      s.toList ++ (a.toList ++ (weave separators args).toList) := by
  simp [weave]

theorem toList_weave_nil (separators : List String) :
    (weave separators []).toList = separators.flatMap String.toList := by
  rw [weave_nil]
  induction separators with
  | nil => rfl
  | cons s separators ih => rw [List.foldr_cons, String.toList_append, ih, List.flatMap_cons]

namespace Form

def vocabulary : Form → List String
  | listed opening divider closing => [opening ++ closing, opening, divider, closing]
  | fixed texts => texts
  | entries => ["\x7b\x7d", "\x7b", ",", ":", "\x7d"]
  | construction => ["new ", "()", "(", ",", ")"]
  | conditional => ["if", "if(", ")", ";else ", ""]

theorem entrySeparators_succ (isKey : Bool) (count : Nat) :
    ∃ dividers, entrySeparators isKey (count + 1) = dividers ++ ["\x7d"] ∧
      dividers.length = count ∧ ∀ d ∈ dividers, d ∈ [",", ":"] := by
  induction count generalizing isKey with
  | zero => exact ⟨[], rfl, rfl, by simp⟩
  | succ count ih =>
    obtain ⟨dividers, hseparators, hlength, hdividers⟩ := ih (!isKey)
    refine ⟨(if isKey then ":" else ",") :: dividers, ?_, by simp [hlength], ?_⟩
    · rw [entrySeparators, hseparators]
      rfl
    · intro d hd
      rcases List.mem_cons.1 hd with rfl | hd
      · cases isKey <;> simp
      · exact hdividers d hd

theorem mem_of_mem_entrySeparators {s : String} {isKey : Bool} {count : Nat}
    (h : s ∈ entrySeparators isKey count) : s ∈ [",", ":", "\x7d"] := by
  cases count with
  | zero => cases h
  | succ count =>
    obtain ⟨dividers, hseparators, -, hdividers⟩ := entrySeparators_succ isKey count
    rw [hseparators] at h
    rcases List.mem_append.1 h with hd | hclosing
    · exact List.mem_append_left ["\x7d"] (hdividers s hd)
    · exact List.mem_append_right [",", ":"] hclosing

theorem separators_conditional (args : List String) :
    ∃ around ∈ [("if", ""), ("if(", ")")], conditional.separators args =
      if args.length ≤ 2 then [around.1, around.2, ""]
      else [around.1, around.2, ";else ", ""] := by
  cases args with
  | nil => exact ⟨("if(", ")"), by decide, rfl⟩
  | cons condition args =>
    by_cases hown : Code.isEnclosed condition = true
    · exact ⟨("if", ""), by decide, by simp [separators, hown]⟩
    · exact ⟨("if(", ")"), by decide, by simp [separators, hown]⟩

theorem keyword_append (rest : String) : "if(" ++ rest = "if" ++ ("(" ++ rest) := by
  rw [← String.append_assoc]
  rfl

/-- A conditional has one group behind its keyword, its condition or a pair of parentheses
around it. -/
theorem emit_conditional (condition consequence : String) :
    conditional.emit [condition, consequence] =
        "if" ++ (if Code.isEnclosed condition then condition else "(" ++ condition ++ ")") ++
          consequence ∧
      ∀ alternative, conditional.emit [condition, consequence, alternative] =
        "if" ++ (if Code.isEnclosed condition then condition else "(" ++ condition ++ ")") ++
          consequence ++ ";else " ++ alternative := by
  by_cases henclosed : Code.isEnclosed condition = true
  · simp [emit, separators, weave, henclosed, String.append_assoc]
  · simp [emit, separators, weave, henclosed, keyword_append, String.append_assoc]

/-- The texts depend only on how many arguments there are and, in a conditional, on whether
the first is a group of its own. -/
theorem separators_congr (form : Form) {args args' : List String}
    (hlength : args.length = args'.length)
    (hfirst : form = .conditional →
      args.head?.map Code.isEnclosed = args'.head?.map Code.isEnclosed) :
    form.separators args = form.separators args' := by
  cases args with
  | nil =>
    obtain rfl := List.length_eq_zero_iff.1 hlength.symm
    rfl
  | cons a more =>
    cases args' with
    | nil => cases hlength
    | cons a' more' =>
      have hmore : more.length = more'.length := Nat.succ.inj hlength
      cases form with
      | listed opening divider closing => simp [separators, List.map_const', hmore]
      | fixed texts => rfl
      | entries => simp [separators, hmore]
      | construction =>
        cases more with
        | nil =>
          obtain rfl := List.length_eq_zero_iff.1 hmore.symm
          rfl
        | cons b rest =>
          cases more' with
          | nil => cases hmore
          | cons b' rest' =>
            have hrest : rest.length = rest'.length := Nat.succ.inj hmore
            simp [separators, List.map_const', hrest]
      | conditional =>
        have henclosed : Code.isEnclosed a = Code.isEnclosed a' := Option.some.inj (hfirst rfl)
        simp [separators, henclosed, hmore]

theorem mem_vocabulary {form : Form} {args : List String} {s : String}
    (h : s ∈ form.separators args) : s ∈ form.vocabulary := by
  cases form with
  | listed opening divider closing =>
    cases args with
    | nil =>
      obtain rfl := List.mem_singleton.1 h
      simp [vocabulary]
    | cons a more =>
      simp only [separators, List.cons_append, List.mem_cons, List.mem_append, List.mem_map,
        List.not_mem_nil, or_false] at h
      rcases h with rfl | ⟨-, -, rfl⟩ | rfl <;> simp [vocabulary]
  | fixed texts => exact h
  | entries =>
    cases args with
    | nil =>
      obtain rfl := List.mem_singleton.1 h
      simp [vocabulary]
    | cons a more =>
      rcases List.mem_cons.1 h with rfl | h
      · simp [vocabulary]
      · exact List.mem_cons_of_mem _ (List.mem_cons_of_mem _ (mem_of_mem_entrySeparators h))
  | construction =>
    match args with
    | [] | [_] =>
      have hs : s = "new " ∨ s = "()" := by simpa [separators] using h
      rcases hs with rfl | rfl <;> simp [vocabulary]
    | _ :: _ :: more =>
      simp only [separators, List.cons_append, List.mem_cons, List.mem_append, List.mem_map,
        List.not_mem_nil, or_false] at h
      rcases h with rfl | rfl | ⟨-, -, rfl⟩ | rfl <;> simp [vocabulary]
  | conditional =>
    obtain ⟨around, haround, hseparators⟩ := separators_conditional args
    rw [hseparators] at h
    simp only [List.mem_cons, List.not_mem_nil, or_false] at haround
    rcases haround with rfl | rfl <;> split at h <;> revert s <;> decide

end Form

namespace Builtin

theorem mem_all_of_find? {name : String} {builtin : Builtin} (h : find? name = some builtin) :
    builtin ∈ all :=
  List.mem_of_find?_eq_some h

/-- No two builtins share a name. -/
theorem find?_name : ∀ builtin ∈ all, find? builtin.name = some builtin := by
  decide

theorem name_of_find? {name : String} {builtin : Builtin} (h : find? name = some builtin) :
    builtin.name = name := by
  simpa using List.find?_some h

end Builtin

namespace Code

/-- The characters that code may have outside string literals. -/
def isMark (c : Char) : Bool :=
  32 ≤ c.toNat && c.toNat < 127 && c != '"'

theorem isMark_iff (c : Char) :
    isMark c = true ↔ 32 ≤ c.toNat ∧ c.toNat < 127 ∧ c ≠ '"' := by
  simp [isMark, and_assoc]

theorem not_quote_mem_of_isMark {cs : List Char} (h : ∀ c ∈ cs, isMark c = true) : '"' ∉ cs :=
  fun hquote => absurd (h '"' hquote) (by decide)

theorem isMark_of_isNameChar {c : Char} (h : Name.isNameChar c = true) : isMark c = true := by
  rw [isMark_iff]
  simp only [Name.isNameChar, Bool.or_eq_true, beq_iff_eq, Text.isAlphanum_iff, Text.isAlpha_iff,
    Text.isDigit_iff] at h
  rcases h with h | rfl
  · refine ⟨by omega, by omega, ?_⟩
    rintro rfl
    exact absurd h (by decide)
  · decide

theorem not_quote_mem_of_isNameChar {cs : List Char} (h : ∀ c ∈ cs, Name.isNameChar c = true) :
    '"' ∉ cs :=
  not_quote_mem_of_isMark fun c hc => isMark_of_isNameChar (h c hc)

/-- The texts that a call puts around its arguments, whoever is called. -/
theorem isMark_separators {callee : Name} (h : callee.isPlain = true) {args : List String}
    {s : String} (hs : s ∈ (form callee).separators args) : ∀ c ∈ s.toList, isMark c = true := by
  have hword := Form.mem_vocabulary hs
  unfold form at hword
  split at hword
  · rename_i builtin hfind
    have hall : ∀ b ∈ Builtin.all, ∀ s ∈ b.form.vocabulary, s.toList.all isMark = true := by
      decide
    exact List.all_eq_true.1 (hall builtin (Builtin.mem_all_of_find? hfind) s hword)
  · have hcallee : ∀ c ∈ callee.text.toList, isMark c = true :=
      fun c hc => isMark_of_isNameChar (Name.isNameChar_text h c hc)
    have hcalling : ∀ tail ∈ ["()", "("], ∀ c ∈ (callee.text ++ tail).toList,
        isMark c = true := by
      intro tail htail c hc
      have htails : ∀ tail ∈ ["()", "("], tail.toList.all isMark = true := by decide
      rw [String.toList_append, List.mem_append] at hc
      exact hc.elim (hcallee c) (List.all_eq_true.1 (htails tail htail) c)
    simp only [Form.vocabulary, List.mem_cons, List.not_mem_nil, or_false] at hword
    rcases hword with rfl | rfl | rfl | rfl
    · rw [String.append_assoc]
      exact hcalling "()" (by decide)
    · exact hcalling "(" (by decide)
    · exact List.all_eq_true.1 rfl
    · exact List.all_eq_true.1 rfl

theorem not_quote_mem_separators {callee : Name} (h : callee.isPlain = true) {args : List String}
    {s : String} (hs : s ∈ (form callee).separators args) : '"' ∉ s.toList :=
  not_quote_mem_of_isMark (isMark_separators h hs)

end Code
end JsLisp
