/-
Code that is one parenthesised group.

The conditional looks at the code of its condition and asks whether it is one
group already.  The scan that answers counts parentheses.  `IsGroup` says the same
without a count: a pair around text whose parentheses are matched and nested once
its string literals are dropped.

Which expressions are written as a group shows in the tree.  An infix call is one,
since its operands are sealed and stand between its own parentheses.  All other code
starts with sealed text, perhaps none, that goes on with something else than a
parenthesis, so a group at its front ends before the code does.
-/
import JsLisp.Proofs.Compile.Nesting
import JsLisp.Proofs.Compile.Sealed

namespace JsLisp

namespace Code

/-- The only brackets that count for a group. -/
def parens : List (Char × Char) :=
  [('(', ')')]

def IsGroup (code : List Char) : Prop :=
  ∃ inner outside, code = '(' :: (inner ++ [')']) ∧ bare inner = some outside ∧
    Nested parens outside

theorem nestStep_opening (stack : List Char) :
    nestStep parens stack '(' = some (')' :: stack) :=
  rfl

theorem nestStep_closing (stack : List Char) :
    nestStep parens (')' :: stack) ')' = some stack :=
  rfl

theorem nestStep_paren_other {c : Char} (hopening : c ≠ '(') (hclosing : c ≠ ')')
    (stack : List Char) : nestStep parens stack c = some stack := by
  refine nestStep_other (fun pair hpair => ?_) stack
  obtain rfl := List.mem_singleton.1 hpair
  exact ⟨hopening, hclosing⟩

theorem nest_of_nested {cs : List Char} (h : Nested parens cs) (stack : List Char) :
    nest parens stack cs = some stack := by
  induction h generalizing stack with
  | nil => rfl
  | other hc h ih =>
    rw [nest_cons, nestStep_other hc]
    exact ih stack
  | group hpair hinner h ihinner ih =>
    cases List.mem_singleton.1 hpair
    rw [nest_cons, nestStep_opening]
    show nest parens (')' :: stack) _ = _
    rw [nest_append, ihinner (')' :: stack)]
    exact ih stack

/-- Other brackets are no brackets among parentheses. -/
theorem Nested.parens_of_brackets {cs : List Char} (h : Nested brackets cs) :
    Nested parens cs := by
  induction h with
  | nil => exact .nil
  | other hc h ih =>
    refine .other (fun pair hpair => hc pair ?_) ih
    obtain rfl := List.mem_singleton.1 hpair
    exact List.mem_cons_self
  | group hpair hinner h ihinner ih =>
    simp only [brackets, List.mem_cons, Prod.mk.injEq, List.not_mem_nil, or_false] at hpair
    rcases hpair with ⟨rfl, rfl⟩ | ⟨rfl, rfl⟩ | ⟨rfl, rfl⟩
    · exact .group List.mem_cons_self ihinner ih
    · exact .other (by decide) (ihinner.append (.other (by decide) ih))
    · exact .other (by decide) (ihinner.append (.other (by decide) ih))

/-! ## The scan finds the groups -/

theorem bareInString_cons {c : Char} (h : c ≠ '\\') (cs : List Char) :
    bareInString (c :: cs) = if c = '"' then bare cs else bareInString cs := by
  rw [bareInString]
  · exact fun heq => absurd heq h
  · exact fun _ _ heq => absurd heq h

theorem closesLastInString_cons {c : Char} (h : c ≠ '\\') (depth : Nat) (cs : List Char) :
    closesLastInString depth (c :: cs) =
      if c = '"' then closesLast depth cs else closesLastInString depth cs := by
  rw [closesLastInString]
  · exact fun heq => absurd heq h
  · exact fun _ _ heq => absurd heq h

/-- The text closes `depth` groups, with nothing of its literals counted, and behind
it stands one more closing parenthesis at the end. -/
def ClosesAtEnd (outside? : List Char → Option (List Char)) (depth : Nat) (cs : List Char) :
    Prop :=
  ∃ inner outside, cs = inner ++ [')'] ∧ outside? inner = some outside ∧
    nest parens (List.replicate depth ')') outside = some []

section ClosesAtEnd

variable {outside? outside?' : List Char → Option (List Char)} {c : Char} {cs : List Char}
  {depth next : Nat}

theorem closesAtEnd_skip (h : ∀ inner, outside? (c :: inner) = outside?' inner)
    (hlast : outside? [] = none ∨ c ≠ ')') :
    ClosesAtEnd outside? depth (c :: cs) ↔ ClosesAtEnd outside?' depth cs := by
  constructor
  · rintro ⟨inner, outside, heq, houtside, hnest⟩
    cases inner with
    | nil =>
      cases heq
      rcases hlast with hnone | hne
      · rw [hnone] at houtside
        cases houtside
      · exact absurd rfl hne
    | cons d inner =>
      cases heq
      exact ⟨inner, outside, rfl, by rw [← h, houtside], hnest⟩
  · rintro ⟨inner, outside, rfl, houtside, hnest⟩
    exact ⟨c :: inner, outside, rfl, by rw [h, houtside], hnest⟩

theorem closesAtEnd_keep (hquote : c ≠ '"')
    (hstep : nestStep parens (List.replicate depth ')') c = some (List.replicate next ')'))
    (hlast : c = ')' → depth ≠ 0) :
    ClosesAtEnd bare depth (c :: cs) ↔ ClosesAtEnd bare next cs := by
  have hbare : ∀ inner, bare (c :: inner) = (bare inner).map (c :: ·) := by
    intro inner
    rw [bare, if_neg hquote]
  have hnest : ∀ outside, nest parens (List.replicate depth ')') (c :: outside) =
      nest parens (List.replicate next ')') outside := by
    intro outside
    rw [nest_cons, hstep]
    rfl
  constructor
  · rintro ⟨inner, outside, heq, houtside, hcloses⟩
    cases inner with
    | nil =>
      -- The last parenthesis would have to close a group further in.
      cases heq
      cases houtside
      have hdepth : List.replicate depth ')' = [] := Option.some.inj hcloses
      rw [List.replicate_eq_nil_iff] at hdepth
      exact absurd hdepth (hlast rfl)
    | cons d inner =>
      cases heq
      rw [hbare, Option.map_eq_some_iff] at houtside
      obtain ⟨rest, hrest, rfl⟩ := houtside
      exact ⟨inner, rest, rfl, hrest, by rw [← hnest, hcloses]⟩
  · rintro ⟨inner, outside, rfl, houtside, hcloses⟩
    refine ⟨c :: inner, c :: outside, rfl, ?_, ?_⟩
    · rw [hbare, houtside]
      rfl
    · rw [hnest, hcloses]

theorem not_closesAtEnd_nil : ¬ ClosesAtEnd outside? depth [] := by
  rintro ⟨inner, outside, heq, -, -⟩
  cases inner <;> cases heq

theorem closesAtEnd_closing : ClosesAtEnd bare 0 (')' :: cs) ↔ cs = [] := by
  constructor
  · rintro ⟨inner, outside, heq, houtside, hcloses⟩
    cases inner with
    | nil =>
      cases heq
      rfl
    | cons d inner =>
      cases heq
      obtain ⟨rest, -, rfl⟩ := Option.map_eq_some_iff.1 houtside
      cases hcloses
  · rintro rfl
    exact ⟨[], [], rfl, rfl, rfl⟩

end ClosesAtEnd

/- The count of the scan is one more than the stack is high: the stack does without
the outermost group, so it is empty where that group may close. -/
mutual

theorem closesLast_iff (depth : Nat) (cs : List Char) :
    closesLast (depth + 1) cs = true ↔ ClosesAtEnd bare depth cs := by
  cases cs with
  | nil => exact iff_of_false Bool.false_ne_true not_closesAtEnd_nil
  | cons c cs =>
    rw [closesLast]
    by_cases hquote : c = '"'
    · subst hquote
      rw [closesAtEnd_skip (fun inner => rfl) (.inr (by decide))]
      exact closesLastInString_iff depth cs
    rw [if_neg hquote]
    by_cases hopening : c = '('
    · subst hopening
      have hstep := nestStep_opening (List.replicate depth ')')
      rw [← List.replicate_succ] at hstep
      rw [closesAtEnd_keep hquote hstep (fun h => absurd h (by decide))]
      exact closesLast_iff (depth + 1) cs
    rw [if_neg hopening]
    by_cases hclosing : c = ')'
    · subst hclosing
      cases depth with
      | zero => simpa using closesAtEnd_closing.symm
      | succ depth =>
        have hstep := nestStep_closing (List.replicate depth ')')
        rw [← List.replicate_succ] at hstep
        rw [closesAtEnd_keep hquote hstep (fun _ => Nat.succ_ne_zero depth)]
        simpa using closesLast_iff depth cs
    · have hstep := nestStep_paren_other hopening hclosing (List.replicate depth ')')
      rw [if_neg hclosing, closesAtEnd_keep hquote hstep (fun h => absurd h hclosing)]
      exact closesLast_iff depth cs

theorem closesLastInString_iff (depth : Nat) (cs : List Char) :
    closesLastInString (depth + 1) cs = true ↔ ClosesAtEnd bareInString depth cs := by
  cases cs with
  | nil => exact iff_of_false Bool.false_ne_true not_closesAtEnd_nil
  | cons c cs =>
    by_cases hslash : c = '\\'
    · subst hslash
      rw [closesAtEnd_skip (fun inner => rfl) (.inl rfl)]
      cases cs with
      | nil => exact iff_of_false Bool.false_ne_true not_closesAtEnd_nil
      | cons d cs =>
        rw [closesAtEnd_skip (fun inner => rfl) (.inl rfl)]
        exact closesLastInString_iff depth cs
    rw [closesLastInString_cons hslash]
    by_cases hquote : c = '"'
    · subst hquote
      rw [closesAtEnd_skip (fun inner => rfl) (.inl rfl)]
      exact closesLast_iff depth cs
    · have hskip : ∀ inner, bareInString (c :: inner) = bareInString inner := by
        intro inner
        rw [bareInString_cons hslash, if_neg hquote]
      rw [if_neg hquote, closesAtEnd_skip hskip (.inl rfl)]
      exact closesLastInString_iff depth cs

end

theorem isEnclosed_iff (code : String) : isEnclosed code = true ↔ IsGroup code.toList := by
  have hgroup : ∀ cs, ClosesAtEnd bare 0 cs ↔ IsGroup ('(' :: cs) := by
    intro cs
    constructor
    · rintro ⟨inner, outside, rfl, hbare, hnest⟩
      exact ⟨inner, outside, rfl, hbare, nested_of_nest hnest⟩
    · rintro ⟨inner, outside, heq, hbare, hnested⟩
      cases heq
      exact ⟨inner, outside, rfl, hbare, nest_of_nested hnested []⟩
  rw [isEnclosed]
  split
  · rename_i cs heq
    rw [heq, ← hgroup, ← closesLast_iff]
  · rename_i hnot
    refine iff_of_false Bool.false_ne_true ?_
    rintro ⟨inner, outside, heq, -, -⟩
    exact hnot _ heq

/-- The text starts with something else than an opening parenthesis. -/
def startsOther (text : String) : Bool :=
  text.toList.head?.any (· ≠ '(')

theorem startsOther_iff (text : String) :
    startsOther text = true ↔ ∃ c cs, text.toList = c :: cs ∧ c ≠ '(' := by
  unfold startsOther
  cases text.toList <;> simp

theorem startsOther_append {text : String} (h : startsOther text = true) (rest : String) :
    startsOther (text ++ rest) = true := by
  obtain ⟨c, cs, htext, hc⟩ := (startsOther_iff text).1 h
  refine (startsOther_iff _).2 ⟨c, cs ++ rest.toList, ?_, hc⟩
  rw [String.toList_append, htext, List.cons_append]

namespace Sealed

theorem nested_parens {code : String} (h : Sealed code) :
    ∃ outside, Bares code outside ∧ Nested parens outside := by
  obtain ⟨outside, hbares, hneutral, -⟩ := h.bares
  exact ⟨outside, hbares, (nested_of_nest (hneutral [])).parens_of_brackets⟩

/-- A pair of parentheses makes a group of sealed code. -/
theorem isGroup {code : String} (h : Sealed code) : IsGroup ("(" ++ code ++ ")").toList := by
  obtain ⟨outside, hbares, hnested⟩ := h.nested_parens
  exact ⟨code.toList, outside, by simp, hbares.bare_eq, hnested⟩

/-- A group at the front of other code is not the whole of it: it closes inside the
sealed code that it starts in. -/
theorem not_isGroup_append {code tail : String} (h : Sealed code)
    (hother : startsOther tail = true) : ¬ IsGroup (code ++ tail).toList := by
  rintro ⟨inner, outside, heq, hbare, hnested⟩
  obtain ⟨c, cs, htail, hc⟩ := (startsOther_iff tail).1 hother
  rw [String.toList_append] at heq
  obtain ⟨own, hbares, hown⟩ := h.nested_parens
  unfold Bares at hbares
  generalize code.toList = front at heq hbares
  cases front with
  | nil =>
    rw [List.nil_append, htail] at heq
    cases heq
    exact hc rfl
  | cons d front =>
    rw [List.cons_append, List.cons.injEq] at heq
    obtain ⟨rfl, heq⟩ := heq
    have hcons : ∀ rest, bare ('(' :: rest) = (bare rest).map ('(' :: ·) := fun rest => rfl
    -- What the sealed code has behind its first parenthesis closes it.
    obtain ⟨own, rfl⟩ : ∃ more, own = '(' :: more := by
      have hend := hbares []
      rw [List.append_nil, hcons] at hend
      obtain ⟨more, -, hmore⟩ := Option.map_eq_some_iff.1 (hend.trans rfl)
      exact ⟨more, by simpa using hmore.symm⟩
    have hcloses : nest parens [')'] own = some [] := nest_of_nested hown []
    -- But the inside of a group closes nothing that it does not open.
    obtain ⟨body, last, hlast⟩ : ∃ body last, tail.toList = body ++ [last] :=
      ⟨_, _, (List.dropLast_append_getLast (by simp [htail])).symm⟩
    rw [hlast, ← List.append_assoc] at heq
    have hinner : front ++ body = inner := (List.append_inj' heq rfl).1
    have hwhole := hbares body
    rw [List.cons_append, hcons, hinner, hbare] at hwhole
    obtain ⟨more, -, hmore⟩ := Option.map_eq_some_iff.1 hwhole.symm
    have hsplit : outside = own ++ more := by simpa using hmore.symm
    have hopen := nest_of_nested hnested []
    rw [hsplit, nest_append, Option.bind_eq_some_iff] at hopen
    obtain ⟨owed, howed, -⟩ := hopen
    have hbelow := nest_below howed [')']
    rw [List.nil_append, hcloses] at hbelow
    simp at hbelow

end Sealed

end Code

namespace Form

theorem weave_closing (closing : String) {separators args : List String}
    (h : args.length ≤ separators.length) :
    weave (separators ++ [closing]) args = weave (separators ++ [""]) args ++ closing := by
  induction separators generalizing args with
  | nil =>
    obtain rfl := List.length_eq_zero_iff.1 (Nat.le_zero.1 h)
    simp [weave]
  | cons s separators ih =>
    cases args with
    | nil =>
      rw [← String.toList_inj, String.toList_append, toList_weave_nil, toList_weave_nil]
      simp
    | cons a args =>
      have hlength : args.length ≤ separators.length := by
        simp only [List.length_cons] at h
        omega
      rw [List.cons_append, List.cons_append, weave, weave, ih hlength]
      simp only [String.append_assoc]

/-- What a listing puts around its arguments stands apart from what it puts between
them. -/
theorem emit_listed (opening divider closing : String) (args : List String) :
    (listed opening divider closing).emit args =
      opening ++ (listed "" divider "").emit args ++ closing := by
  cases args with
  | nil => simp [emit, separators, weave]
  | cons a more =>
    have hlength : (a :: more).length ≤ (opening :: more.map fun _ => divider).length := by simp
    rw [emit, separators, weave_closing closing hlength]
    simp [emit, separators, weave, String.append_assoc]

theorem sealed_listed {divider : String} (hdivider : divider ∈ ["+", "-", "||", "&&"])
    {args : List String} (hargs : ∀ a ∈ args, Code.Sealed a) :
    Code.Sealed ((listed "" divider "").emit args) := by
  have hmarks : ∀ d ∈ ["+", "-", "||", "&&"], ∀ s ∈ (listed "" d "").vocabulary,
      s.toList.all Code.isMark = true := by decide
  have hbalanced : ∀ d ∈ ["+", "-", "||", "&&"], (listed "" d "").isBalanced = true := by decide
  refine .weave (fun s hs => ?_) (neutral_separators (hbalanced divider hdivider) args) hargs
  exact List.all_eq_true.1 (hmarks divider hdivider s (mem_vocabulary hs))

end Form

/-! ## All other code -/

namespace Form

open Code (startsOther startsOther_append Sealed)

/-- The text that all code of the form starts with. -/
def opener : Form → String
  | listed opening _ _ => opening
  | fixed texts => texts.headD ""
  | entries => "\x7b"
  | construction => "new "
  | conditional => "if"

/-- The form starts with its first argument, and goes on with text of its own that is
no opening parenthesis. -/
def opensWithArgument : Form → Bool
  | fixed (first :: second :: _) => first == "" && startsOther second
  | _ => false

theorem exists_weave_eq (s : String) (separators args : List String) :
    ∃ rest, weave (s :: separators) args = s ++ rest := by
  cases args with
  | nil => exact ⟨separators.foldr (· ++ ·) "", rfl⟩
  | cons a args => exact ⟨a ++ weave separators args, String.append_assoc⟩

theorem exists_emit_eq (form : Form) (args : List String) :
    ∃ rest, form.emit args = form.opener ++ rest := by
  cases form with
  | listed opening divider closing =>
    rw [emit_listed, String.append_assoc]
    exact ⟨_, rfl⟩
  | fixed texts =>
    cases texts with
    | nil => exact ⟨weave [] args, by simp [emit, separators, opener]⟩
    | cons s texts => exact exists_weave_eq s texts args
  | entries =>
    cases args with
    | nil => exact ⟨"\x7d", rfl⟩
    | cons a more => exact exists_weave_eq _ _ _
  | construction =>
    match args with
    | [] | [_] | _ :: _ :: _ => exact exists_weave_eq _ _ _
  | conditional =>
    obtain ⟨around, haround, hseparators⟩ := separators_conditional args
    simp only [List.mem_cons, List.not_mem_nil, or_false] at haround
    rw [emit, hseparators]
    rcases haround with rfl | rfl
    · split <;> exact exists_weave_eq _ _ _
    · split
      · obtain ⟨rest, hrest⟩ := exists_weave_eq "if(" [")", ""] args
        exact ⟨_, hrest.trans (keyword_append rest)⟩
      · obtain ⟨rest, hrest⟩ := exists_weave_eq "if(" [")", ";else ", ""] args
        exact ⟨_, hrest.trans (keyword_append rest)⟩

theorem exists_emit_cons_eq {form : Form} (h : form.opensWithArgument = true) (a : String)
    (args : List String) :
    ∃ tail, form.emit (a :: args) = a ++ tail ∧ startsOther tail = true := by
  unfold opensWithArgument at h
  split at h
  · rename_i first second more
    rw [Bool.and_eq_true, beq_iff_eq] at h
    obtain ⟨rfl, hsecond⟩ := h
    obtain ⟨rest, hrest⟩ := exists_weave_eq second more args
    refine ⟨second ++ rest, ?_, startsOther_append hsecond rest⟩
    rw [emit, separators, weave, hrest, String.empty_append]
  · cases h

end Form

namespace Expr

open Code (Sealed startsOther startsOther_append)

/-- A call of one of the four builtins that are written between their operands. -/
def isOperation : Expr → Bool
  | call callee _ => ["add", "sub", "or", "and"].contains callee.text
  | _ => false

theorem isGroup_text {e : Expr} (hplain : e.isPlain = true) (h : e.isOperation = true) :
    Code.IsGroup e.text.toList := by
  cases e with
  | call callee args =>
    have hform : ∃ sign ∈ ["+", "-", "||", "&&"], Code.form callee = .listed "(" sign ")" := by
      rw [Code.form]
      have hall : ∀ name ∈ ["add", "sub", "or", "and"], ∃ sign ∈ ["+", "-", "||", "&&"],
          (Builtin.find? name).map Builtin.form = some (.listed "(" sign ")") := by decide
      obtain ⟨sign, hsign, hfind⟩ := hall callee.text (by simpa [isOperation] using h)
      obtain ⟨builtin, hbuiltin, hbuiltinForm⟩ := Option.map_eq_some_iff.1 hfind
      exact ⟨sign, hsign, by rw [hbuiltin]; exact hbuiltinForm⟩
    obtain ⟨sign, hsign, hform⟩ := hform
    rw [isPlain, Bool.and_eq_true] at hplain
    rw [text, hform, Form.emit_listed]
    exact (Form.sealed_listed hsign (sealed_textAll args hplain.2)).isGroup
  | name n => cases h
  | string value => cases h
  | number raw => cases h

theorem startsOther_text_of_isPlain {name : Name} (h : name.isPlain = true) :
    startsOther name.text = true := by
  obtain ⟨c, cs, htext, halpha, -⟩ := Name.text_of_isPlain h
  refine (Code.startsOther_iff _).2 ⟨c, cs, htext, ?_⟩
  rintro rfl
  exact absurd halpha (by decide)

/-- The other builtins start with text of their own, or with an argument that text of
their own follows. -/
theorem startsOther_form {name : String} {builtin : Builtin}
    (hfind : Builtin.find? name = some builtin)
    (h : ["add", "sub", "or", "and"].contains name = false) :
    startsOther builtin.form.opener = true ∨
      builtin.form.opensWithArgument = true ∧ builtin.arity.accepts 0 = false := by
  have hname := Builtin.name_of_find? hfind
  have hall : ∀ b ∈ Builtin.all, ["add", "sub", "or", "and"].contains b.name = false →
      startsOther b.form.opener = true ∨
        b.form.opensWithArgument = true ∧ b.arity.accepts 0 = false := by decide
  exact hall builtin (Builtin.mem_all_of_find? hfind) (by rw [hname, h])

theorem exists_text_eq {e : Expr} (hplain : e.isPlain = true) (hcounted : e.counted = true)
    (h : e.isOperation = false) :
    ∃ front tail, e.text = front ++ tail ∧ Sealed front ∧ startsOther tail = true := by
  have hwhole {code : String} (hcode : startsOther code = true) :
      ∃ front tail, code = front ++ tail ∧ Sealed front ∧ startsOther tail = true :=
    ⟨"", code, String.empty_append.symm, .of_isMark (List.all_eq_true.1 rfl) .nil, hcode⟩
  cases e with
  | call callee args =>
    rw [isPlain, Bool.and_eq_true] at hplain
    rw [counted, Bool.and_eq_true, Code.accepts] at hcounted
    rw [text, Code.form]
    cases hfind : Builtin.find? callee.text with
    | none =>
      refine hwhole ?_
      show startsOther ((Form.listed (callee.text ++ "(") "," ")").emit (textAll args)) = true
      rw [Form.emit_listed, String.append_assoc, String.append_assoc]
      exact startsOther_append (startsOther_text_of_isPlain hplain.1) _
    | some builtin =>
      show ∃ front tail, builtin.form.emit (textAll args) = front ++ tail ∧ _
      rcases startsOther_form hfind h with hopener | ⟨hargument, hnone⟩
      · obtain ⟨rest, hrest⟩ := builtin.form.exists_emit_eq (textAll args)
        rw [hrest]
        exact hwhole (startsOther_append hopener rest)
      · cases args with
        | nil =>
          have haccepts : builtin.arity.accepts 0 = true := by simpa [hfind] using hcounted.1
          rw [hnone] at haccepts
          cases haccepts
        | cons a args =>
          have ha : Sealed a.text := sealed_textAll _ hplain.2 _ List.mem_cons_self
          obtain ⟨tail, htail, hother⟩ := Form.exists_emit_cons_eq hargument a.text (textAll args)
          exact ⟨a.text, tail, htail, ha, hother⟩
  | name n => exact hwhole (startsOther_text_of_isPlain hplain)
  | string value =>
    exact hwhole ((Code.startsOther_iff _).2 ⟨_, _, String.toList_ofList, by decide⟩)
  | number raw =>
    obtain ⟨c, cs, htext, hdigit, -⟩ := Text.exists_cons_of_isNumeral hplain
    refine hwhole ((Code.startsOther_iff _).2 ⟨c, cs, htext, ?_⟩)
    rintro rfl
    exact absurd hdigit (by decide)

theorem isEnclosed_text_iff {e : Expr} (hplain : e.isPlain = true) (hcounted : e.counted = true) :
    Code.isEnclosed e.text = true ↔ e.isOperation = true := by
  rw [Code.isEnclosed_iff]
  constructor
  · intro hgroup
    by_contra hnot
    obtain ⟨front, tail, heq, hsealed, hother⟩ :=
      exists_text_eq hplain hcounted (by simpa using hnot)
    rw [heq] at hgroup
    exact hsealed.not_isGroup_append hother hgroup
  · exact isGroup_text hplain

/-- The condition as the conditional writes it. -/
def guard (condition : Expr) : String :=
  if condition.isOperation then condition.text else "(" ++ condition.text ++ ")"

theorem isGroup_guard {condition : Expr} (hplain : condition.isPlain = true) :
    Code.IsGroup condition.guard.toList := by
  unfold guard
  split
  · rename_i h
    exact isGroup_text hplain h
  · exact (sealed_text condition hplain).isGroup

theorem guard_eq {condition : Expr} (hplain : condition.isPlain = true)
    (hcounted : condition.counted = true) :
    condition.guard =
      if Code.isEnclosed condition.text then condition.text else "(" ++ condition.text ++ ")" := by
  have henclosed := isEnclosed_text_iff hplain hcounted
  rw [← Bool.eq_iff_iff] at henclosed
  rw [guard, henclosed]

theorem text_conditional {callee : Name} (h : callee.text = "if") {condition : Expr}
    (hplain : condition.isPlain = true) (hcounted : condition.counted = true)
    (consequence : Expr) :
    (call callee [condition, consequence]).text =
        "if" ++ condition.guard ++ consequence.text ∧
      ∀ alternative, (call callee [condition, consequence, alternative]).text =
        "if" ++ condition.guard ++ consequence.text ++ ";else " ++ alternative.text := by
  have hform : Code.form callee = .conditional := by
    rw [Code.form, h]
    rfl
  rw [guard_eq hplain hcounted]
  simp only [text, textAll, hform]
  obtain ⟨hshort, hlong⟩ := Form.emit_conditional condition.text consequence.text
  exact ⟨hshort, fun alternative => hlong alternative.text⟩

theorem code_of_mem {callee : Name} {args : List Expr}
    (hnesting : (call callee args).nesting ≤ maxNesting) (hcounted : countedAll args = true) :
    ∀ arg ∈ args, arg.code = .ok arg.text := by
  intro arg harg
  have hle := nesting_le_nestingAll harg
  rw [nesting] at hnesting
  exact (code_eq_ok_iff arg _).2 ⟨by omega, counted_of_mem hcounted arg harg, rfl⟩

theorem accepts_conditional {callee : Name} (h : callee.text = "if") {count : Nat}
    (haccepts : Code.accepts callee count = true) : count = 2 ∨ count = 3 := by
  have hfind : Builtin.find? "if" = some ⟨"if", .between 2 3, .conditional⟩ := rfl
  have hrange : 2 ≤ count ∧ count ≤ 3 := by
    simpa [Code.accepts, h, hfind, Arity.accepts] using haccepts
  omega

/-- Code is one group exactly if it is the code of one of the four operations.  So the
code of a conditional has one group behind its keyword: the code of the condition, if
that is an operation, and otherwise the same in parentheses. -/
theorem isEnclosed_code_iff (e : Expr) (code : String) (hplain : e.isPlain = true)
    (hcode : e.code = .ok code) :
    (Code.isEnclosed code = true ↔ e.isOperation = true) ∧
    ∀ callee args, e = call callee args → callee.text = "if" →
      ∃ condition consequence test branch group,
        condition.code = .ok test ∧ consequence.code = .ok branch ∧
        group = (if condition.isOperation then test else "(" ++ test ++ ")") ∧
        Code.IsGroup group.toList ∧
        (args = [condition, consequence] ∧ code = "if" ++ group ++ branch ∨
          ∃ alternative other, alternative.code = .ok other ∧
            args = [condition, consequence, alternative] ∧
            code = "if" ++ group ++ branch ++ ";else " ++ other) := by
  obtain ⟨hnesting, hcounted, rfl⟩ := (code_eq_ok_iff e code).1 hcode
  refine ⟨isEnclosed_text_iff hplain hcounted, ?_⟩
  rintro callee args rfl hname
  rw [isPlain, Bool.and_eq_true] at hplain
  rw [counted, Bool.and_eq_true] at hcounted
  have hargs := code_of_mem hnesting hcounted.2
  match args, accepts_conditional hname hcounted.1 with
  | [condition, consequence], _ =>
    rw [isPlainAll, Bool.and_eq_true] at hplain
    have htest := counted_of_mem hcounted.2 condition List.mem_cons_self
    have htext := text_conditional hname hplain.2.1 htest consequence
    exact ⟨condition, consequence, _, _, condition.guard, hargs _ (by simp), hargs _ (by simp),
      rfl, isGroup_guard hplain.2.1, .inl ⟨rfl, htext.1⟩⟩
  | [condition, consequence, alternative], _ =>
    rw [isPlainAll, Bool.and_eq_true] at hplain
    have htest := counted_of_mem hcounted.2 condition List.mem_cons_self
    have htext := text_conditional hname hplain.2.1 htest consequence
    exact ⟨condition, consequence, _, _, condition.guard, hargs _ (by simp), hargs _ (by simp),
      rfl, isGroup_guard hplain.2.1,
      .inr ⟨alternative, _, hargs _ (by simp), rfl, htext.2 alternative⟩⟩

/-- A condition that starts and ends with a parenthesis and is no group, with a
parenthesis and a quote in its string. -/
theorem isEnclosed_code_iff_member :
    Code.isEnclosed "(a+b).(c-\")\\\"\")" = false ∧
      ∃ group, Code.IsGroup group.toList ∧
        "if((a+b).(c-\")\\\"\"))d" = "if" ++ group ++ "d" := by
  have hcondition := isEnclosed_code_iff
    (.call ⟨"getprop", []⟩ [.call ⟨"add", []⟩ [.name ⟨"a", []⟩, .name ⟨"b", []⟩],
      .call ⟨"sub", []⟩ [.name ⟨"c", []⟩, .string ")\""]])
    "(a+b).(c-\")\\\"\")" (by decide) rfl
  have hconditional := (isEnclosed_code_iff
    (.call ⟨"if", []⟩ [.call ⟨"getprop", []⟩ [.call ⟨"add", []⟩ [.name ⟨"a", []⟩, .name ⟨"b", []⟩],
      .call ⟨"sub", []⟩ [.name ⟨"c", []⟩, .string ")\""]], .name ⟨"d", []⟩])
    "if((a+b).(c-\")\\\"\"))d" (by decide) rfl).2 ⟨"if", []⟩ _ rfl rfl
  refine ⟨?_, ?_⟩
  · rw [Bool.eq_false_iff, ne_eq, hcondition.1]
    decide
  · obtain ⟨condition, consequence, test, branch, group, -, hbranch, -, hgroup, hshape⟩ :=
      hconditional
    rcases hshape with ⟨hargs, hcode⟩ | ⟨alternative, other, -, hargs, -⟩
    · cases hargs
      cases hbranch
      exact ⟨group, hgroup, hcode⟩
    · cases hargs

end Expr
end JsLisp
