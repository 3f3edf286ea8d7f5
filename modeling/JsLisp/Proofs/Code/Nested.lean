/-
Brackets outside string literals.

`bare` drops the string literals from code and keeps the rest, and `Nested` says
by a grammar that the brackets of a text are matched and nested.  A stack decides
it: `nest` reads a text and returns the brackets that are then open.  A text is
neutral if it leaves every stack as it was, so it may stand between any brackets.
-/
import JsLisp.Code.Literal

namespace JsLisp
namespace Code

mutual

/-- The characters outside string literals, or nothing if a literal is not
closed. -/
def bare : List Char → Option (List Char)
  | [] => some []
  | c :: cs => if c = '"' then bareInString cs else (bare cs).map (c :: ·)

/-- The same from inside a string literal, where a backslash takes the next
character with it. -/
def bareInString : List Char → Option (List Char)
  | [] => none
  | ['\\'] => none
  | '\\' :: _ :: cs => bareInString cs
  | c :: cs => if c = '"' then bare cs else bareInString cs

end

/-- Every opening bracket has its partner, and pairs do not overlap. -/
inductive Nested (pairs : List (Char × Char)) : List Char → Prop
  | nil : Nested pairs []
  | other {c : Char} {cs : List Char} (hc : ∀ pair ∈ pairs, c ≠ pair.1 ∧ c ≠ pair.2)
    (h : Nested pairs cs) : Nested pairs (c :: cs)
  | group {left right : Char} {inner cs : List Char} (hpair : (left, right) ∈ pairs)
    (hinner : Nested pairs inner) (h : Nested pairs cs) :
    Nested pairs (left :: (inner ++ right :: cs))

def brackets : List (Char × Char) :=
  [('(', ')'), ('[', ']'), ('\x7b', '\x7d')]

/-- Without its string literals the code is `cs`, whatever follows it. -/
def Bares (code : String) (cs : List Char) : Prop :=
  ∀ rest, bare (code.toList ++ rest) = (bare rest).map (cs ++ ·)

namespace Bares

theorem append {code code' : String} {cs cs' : List Char} (h : Bares code cs)
    (h' : Bares code' cs') : Bares (code ++ code') (cs ++ cs') := by
  intro rest
  rw [String.toList_append, List.append_assoc, h, h', Option.map_map]
  congr 1
  funext more
  exact (List.append_assoc cs cs' more).symm

theorem of_not_mem {code : String} (h : '"' ∉ code.toList) : Bares code code.toList := by
  intro rest
  generalize code.toList = cs at h
  induction cs with
  | nil => simp
  | cons c cs ih =>
    rw [List.mem_cons, not_or] at h
    rw [List.cons_append, bare, if_neg (Ne.symm h.1), ih h.2, Option.map_map]
    rfl

theorem bare_eq {code : String} {cs : List Char} (h : Bares code cs) :
    bare code.toList = some cs := by
  have hend := h []
  rw [List.append_nil] at hend
  rw [hend, bare, Option.map_some, List.append_nil]

end Bares

theorem bareInString_escape (value rest : List Char) :
    bareInString (escape value ++ rest) = bareInString rest := by
  refine scan_escape (fun _ _ => rfl) (fun c cs hslash hquote => ?_) value rest
  rw [bareInString, if_neg hquote]
  · exact fun h => absurd h hslash
  · exact fun _ _ h => absurd h hslash

theorem Bares.stringLiteral (value : String) : Bares (Code.stringLiteral value) [] := by
  intro rest
  rw [toList_stringLiteral, bare, if_pos rfl, bareInString_escape]
  show bare rest = _
  simp

section Stack

variable (pairs : List (Char × Char))

/-- Read one character.  The stack holds the closing brackets that are owed, the
next one first, and an owed bracket is the only one that may close. -/
def nestStep (stack : List Char) (c : Char) : Option (List Char) :=
  match pairs.find? fun pair => pair.1 == c with
  | some pair => some (pair.2 :: stack)
  | none =>
    if pairs.any fun pair => pair.2 == c then
      if stack.head? = some c then some stack.tail else none
    else some stack

def nest (stack cs : List Char) : Option (List Char) :=
  cs.foldlM (nestStep pairs) stack

variable {pairs}

/-- A character opens, closes or is no bracket. -/
theorem nestStep_cases {stack next : List Char} {c : Char}
    (h : nestStep pairs stack c = some next) :
    (∃ right, (c, right) ∈ pairs ∧ next = right :: stack) ∨ stack = c :: next ∨
      ((∀ pair ∈ pairs, c ≠ pair.1 ∧ c ≠ pair.2) ∧ next = stack) := by
  unfold nestStep at h
  split at h
  · rename_i pair hfind
    have hleft : pair.1 = c := by simpa using List.find?_some hfind
    cases h
    exact .inl ⟨pair.2, hleft ▸ List.mem_of_find?_eq_some hfind, rfl⟩
  · rename_i hfind
    split at h
    · split at h
      · rename_i howed
        obtain ⟨below, rfl⟩ := List.head?_eq_some_iff.1 howed
        cases h
        exact .inr (.inl rfl)
      · cases h
    · rename_i hclosing
      cases h
      refine .inr (.inr ⟨fun pair hpair => ⟨?_, ?_⟩, rfl⟩)
      · rintro rfl
        exact List.find?_eq_none.1 hfind pair hpair (by simp)
      · rintro rfl
        exact hclosing (List.any_eq_true.2 ⟨pair, hpair, by simp⟩)

theorem nestStep_other {c : Char} (hc : ∀ pair ∈ pairs, c ≠ pair.1 ∧ c ≠ pair.2)
    (stack : List Char) : nestStep pairs stack c = some stack := by
  have hopening : (pairs.find? fun pair => pair.1 == c) = none :=
    List.find?_eq_none.2 fun pair hpair => by simpa using Ne.symm (hc pair hpair).1
  have hclosing : (pairs.any fun pair => pair.2 == c) = false :=
    List.any_eq_false.2 fun pair hpair => by simpa using Ne.symm (hc pair hpair).2
  simp [nestStep, hopening, hclosing]

theorem nestStep_below {stack next : List Char} {c : Char}
    (h : nestStep pairs stack c = some next) (below : List Char) :
    nestStep pairs (stack ++ below) c = some (next ++ below) := by
  unfold nestStep at h ⊢
  split at h
  · cases h
    rfl
  · split at h
    · rename_i hclosing
      split at h
      · rename_i howed
        obtain ⟨owed, rfl⟩ := List.head?_eq_some_iff.1 howed
        cases h
        simp [hclosing]
      · cases h
    · rename_i hclosing
      cases h
      simp [hclosing]

theorem nest_cons (stack cs : List Char) (c : Char) :
    nest pairs stack (c :: cs) = (nestStep pairs stack c).bind fun next => nest pairs next cs :=
  List.foldlM_cons

theorem nest_append (stack cs ds : List Char) :
    nest pairs stack (cs ++ ds) = (nest pairs stack cs).bind fun next => nest pairs next ds :=
  List.foldlM_append

theorem nest_below {stack owed cs : List Char} (h : nest pairs stack cs = some owed)
    (below : List Char) : nest pairs (stack ++ below) cs = some (owed ++ below) := by
  induction cs generalizing stack with
  | nil =>
    cases h
    rfl
  | cons c cs ih =>
    rw [nest_cons, Option.bind_eq_some_iff] at h
    obtain ⟨next, hstep, hrest⟩ := h
    rw [nest_cons, nestStep_below hstep below]
    exact ih hrest

namespace Nested

theorem append {cs ds : List Char} (h : Nested pairs cs) (h' : Nested pairs ds) :
    Nested pairs (cs ++ ds) := by
  induction h with
  | nil => exact h'
  | other hc h ih => exact .other hc ih
  | group hpair hinner h ihinner ih =>
    rw [List.cons_append, List.append_assoc, List.cons_append]
    exact .group hpair hinner ih

end Nested

/-- The text closes the brackets of the stack one after the other, with nested
text in front of each and behind the last. -/
def Closes (pairs : List (Char × Char)) : List Char → List Char → Prop
  | [], cs => Nested pairs cs
  | right :: stack, cs =>
    ∃ inner rest, Nested pairs inner ∧ Closes pairs stack rest ∧ cs = inner ++ right :: rest

theorem Closes.append {stack cs ds : List Char} (h : Nested pairs cs) (h' : Closes pairs stack ds) :
    Closes pairs stack (cs ++ ds) := by
  cases stack with
  | nil => exact h.append h'
  | cons right stack =>
    obtain ⟨inner, rest, hinner, hrest, rfl⟩ := h'
    exact ⟨cs ++ inner, rest, h.append hinner, hrest, (List.append_assoc ..).symm⟩

theorem closes_of_nest {stack cs : List Char} (h : nest pairs stack cs = some []) :
    Closes pairs stack cs := by
  induction cs generalizing stack with
  | nil =>
    cases h
    exact Nested.nil
  | cons c cs ih =>
    rw [nest_cons, Option.bind_eq_some_iff] at h
    obtain ⟨next, hstep, hrest⟩ := h
    have hcloses := ih hrest
    rcases nestStep_cases hstep with ⟨right, hpair, rfl⟩ | rfl | ⟨hother, rfl⟩
    · -- The partner of `c` is the first bracket that the rest closes.
      obtain ⟨inner, rest, hinner, hbelow, rfl⟩ := hcloses
      have hgroup := Closes.append (Nested.group hpair hinner .nil) hbelow
      simpa using hgroup
    · exact ⟨[], cs, .nil, hcloses, rfl⟩
    · exact Closes.append (Nested.other hother .nil) hcloses

/-- What the stack accepts is nested. -/
theorem nested_of_nest {cs : List Char} (h : nest pairs [] cs = some []) : Nested pairs cs :=
  closes_of_nest h

end Stack

def Neutral (cs : List Char) : Prop :=
  ∀ stack, nest brackets stack cs = some stack

namespace Neutral

theorem nil : Neutral [] :=
  fun _ => rfl

theorem append {cs ds : List Char} (h : Neutral cs) (h' : Neutral ds) : Neutral (cs ++ ds) := by
  intro stack
  rw [nest_append, h stack]
  exact h' stack

theorem of_nest {cs : List Char} (h : nest brackets [] cs = some []) : Neutral cs :=
  fun stack => nest_below h stack

theorem of_forall {cs : List Char} (h : ∀ c ∈ cs, ∀ pair ∈ brackets, c ≠ pair.1 ∧ c ≠ pair.2) :
    Neutral cs := by
  intro stack
  induction cs with
  | nil => rfl
  | cons c cs ih =>
    rw [nest_cons, nestStep_other (h c List.mem_cons_self)]
    exact ih fun d hd => h d (List.mem_cons_of_mem c hd)

theorem nest_insert {ds : List Char} (h : Neutral ds) (stack cs es : List Char) :
    nest brackets stack (cs ++ (ds ++ es)) = nest brackets stack (cs ++ es) := by
  rw [nest_append, nest_append]
  congr 1
  funext next
  rw [nest_append, h next]
  rfl

end Neutral

end Code
end JsLisp
