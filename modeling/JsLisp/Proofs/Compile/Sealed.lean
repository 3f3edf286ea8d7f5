/-
Compiled code is closed and on one line.

Sealed code can stand anywhere: it ends outside its string literals, closes the
brackets that it opens, and has no line break or tab.  The texts of a form are not
sealed one by one, but together they are neutral, and sealed arguments put between
them change nothing.  So sealing passes from the arguments of a call to the call.
-/
import Mathlib
import JsLisp.Proofs.Code.Form
import JsLisp.Proofs.Code.Nested
import JsLisp.Proofs.Compile.Stages

namespace JsLisp

open Code (Bares Neutral nest brackets)

namespace Form

/-- The brackets match before any argument is put between the texts. -/
def isBalanced : Form → Bool
  | listed opening divider closing =>
    nest brackets [] (opening.toList ++ closing.toList) == some [] &&
      nest brackets [] divider.toList == some []
  | fixed texts => nest brackets [] (texts.flatMap String.toList) == some []
  | entries | construction | conditional => true

theorem neutral_flatMap {texts : List String} (h : ∀ s ∈ texts, Neutral s.toList) :
    Neutral (texts.flatMap String.toList) := by
  induction texts with
  | nil => exact .nil
  | cons s texts ih =>
    rw [List.flatMap_cons]
    exact (h s List.mem_cons_self).append (ih fun t ht => h t (List.mem_cons_of_mem s ht))

theorem neutral_divided {lefts dividers rights : List String}
    (h : Neutral ((lefts ++ rights).flatMap String.toList))
    (hdividers : ∀ d ∈ dividers, Neutral d.toList) :
    Neutral ((lefts ++ (dividers ++ rights)).flatMap String.toList) := by
  intro stack
  have hstack := h stack
  rw [List.flatMap_append] at hstack
  rw [List.flatMap_append, List.flatMap_append, (neutral_flatMap hdividers).nest_insert, hstack]

theorem neutral_separators {form : Form} (h : form.isBalanced = true) (args : List String) :
    Neutral ((form.separators args).flatMap String.toList) := by
  cases form with
  | listed opening divider closing =>
    rw [isBalanced, Bool.and_eq_true, beq_iff_eq, beq_iff_eq] at h
    have houter := Neutral.of_nest h.1
    cases args with
    | nil => simpa [separators] using houter
    | cons a more =>
      have hdividers : ∀ d ∈ more.map (fun _ => divider), Neutral d.toList := by
        intro d hd
        obtain ⟨-, -, rfl⟩ := List.mem_map.1 hd
        exact .of_nest h.2
      exact @neutral_divided [opening] _ [closing] (by simpa using houter) hdividers
  | fixed texts =>
    rw [isBalanced, beq_iff_eq] at h
    exact .of_nest h
  | entries =>
    cases args with
    | nil => exact .of_nest rfl
    | cons a more =>
      obtain ⟨dividers, hsucc, -, hdividers⟩ := entrySeparators_succ true more.length
      have hmarks : ∀ d ∈ [",", ":"], nest brackets [] d.toList = some [] := by decide
      rw [separators, List.length_cons, hsucc]
      · exact @neutral_divided ["\x7b"] _ ["\x7d"] (.of_nest rfl)
          fun d hd => .of_nest (hmarks d (hdividers d hd))
      · exact List.cons_ne_nil a more
  | construction =>
    match args with
    | [] | [_] => exact .of_nest rfl
    | _ :: _ :: more =>
      refine @neutral_divided ["new ", "("] _ [")"] (.of_nest rfl) fun d hd => ?_
      obtain ⟨-, -, rfl⟩ := List.mem_map.1 hd
      exact .of_nest rfl
  | conditional =>
    obtain ⟨around, haround, hseparators⟩ := separators_conditional args
    rw [hseparators]
    simp only [List.mem_cons, List.not_mem_nil, or_false] at haround
    rcases haround with rfl | rfl <;> split <;> exact .of_nest rfl

end Form

namespace Code

structure Sealed (code : String) : Prop where
  bares : ∃ cs, Bares code cs ∧ Neutral cs ∧ ∀ c ∈ cs, c.toNat < 128
  inline : ∀ c ∈ code.toList, c ≠ '\n' ∧ c ≠ '\r' ∧ c ≠ '\t'

theorem ascii_of_isMark {c : Char} (h : isMark c = true) : c.toNat < 128 :=
  Nat.lt_succ_of_lt ((isMark_iff c).1 h).2.1

theorem inline_of_isMark {c : Char} (h : isMark c = true) : c ≠ '\n' ∧ c ≠ '\r' ∧ c ≠ '\t' := by
  refine ⟨?_, ?_, ?_⟩ <;> rintro rfl <;> exact absurd h (by decide)

namespace Sealed

theorem append {code code' : String} (h : Sealed code) (h' : Sealed code') :
    Sealed (code ++ code') := by
  obtain ⟨cs, hbares, hneutral, hascii⟩ := h.bares
  obtain ⟨cs', hbares', hneutral', hascii'⟩ := h'.bares
  refine ⟨⟨cs ++ cs', hbares.append hbares', hneutral.append hneutral', fun c hc => ?_⟩,
    fun c hc => ?_⟩
  · exact (List.mem_append.1 hc).elim (hascii c) (hascii' c)
  · rw [String.toList_append] at hc
    exact (List.mem_append.1 hc).elim (h.inline c) (h'.inline c)

theorem of_isMark {code : String} (h : ∀ c ∈ code.toList, isMark c = true)
    (hneutral : Neutral code.toList) : Sealed code where
  bares := by
    exact ⟨code.toList, .of_not_mem (not_quote_mem_of_isMark h), hneutral,
      fun c hc => ascii_of_isMark (h c hc)⟩
  inline c hc := inline_of_isMark (h c hc)

theorem stringLiteral (value : String) : Sealed (Code.stringLiteral value) where
  bares := ⟨[], .stringLiteral value, .nil, by simp⟩
  inline c hc := by
    have hescape : ∀ d, ∀ c ∈ escapeChar d, c ≠ '\n' ∧ c ≠ '\r' ∧ c ≠ '\t' := by
      intro d
      unfold escapeChar
      split
      case h_6 hslash hquote hline hreturn htab =>
        intro c hc
        obtain rfl := List.mem_singleton.1 hc
        exact ⟨hline, hreturn, htab⟩
      all_goals simp
    simp only [Code.stringLiteral, String.toList_ofList, List.cons_append, List.mem_cons,
      List.mem_append, List.not_mem_nil, or_false] at hc
    rcases hc with rfl | hc | rfl
    · decide
    · obtain ⟨d, -, hd⟩ := List.mem_flatMap.1 hc
      exact hescape d c hd
    · decide

end Sealed

theorem neutral_of_isNameChar {cs : List Char} (h : ∀ c ∈ cs, Name.isNameChar c = true) :
    Neutral cs := by
  have hbrackets : ∀ pair ∈ brackets,
      Name.isNameChar pair.1 = false ∧ Name.isNameChar pair.2 = false := by decide
  refine .of_forall fun c hc pair hpair => ⟨?_, ?_⟩
  · rintro rfl
    exact absurd (h _ hc) (by simp [(hbrackets pair hpair).1])
  · rintro rfl
    exact absurd (h _ hc) (by simp [(hbrackets pair hpair).2])

theorem Sealed.of_isNameChar {code : String}
    (h : ∀ c ∈ code.toList, Name.isNameChar c = true) : Sealed code :=
  .of_isMark (fun c hc => isMark_of_isNameChar (h c hc)) (neutral_of_isNameChar h)

/-! ## Calls -/

section Weave

variable {separators args : List String}

theorem exists_bares_weave (hmarks : ∀ s ∈ separators, ∀ c ∈ s.toList, isMark c = true)
    (hargs : ∀ a ∈ args, Sealed a) :
    ∃ cs, Bares (weave separators args) cs ∧ (∀ c ∈ cs, c.toNat < 128) ∧
      ∀ stack, nest brackets stack cs =
        nest brackets stack (separators.flatMap String.toList) := by
  induction args generalizing separators with
  | nil =>
    have hall : ∀ c ∈ (weave separators []).toList, isMark c = true := by
      rw [toList_weave_nil]
      intro c hc
      obtain ⟨s, hs, hcs⟩ := List.mem_flatMap.1 hc
      exact hmarks s hs c hcs
    refine ⟨_, .of_not_mem (not_quote_mem_of_isMark hall),
      fun c hc => ascii_of_isMark (hall c hc), fun stack => ?_⟩
    rw [toList_weave_nil]
  | cons a args ih =>
    have htail : ∀ a' ∈ args, Sealed a' := fun a' ha' => hargs a' (List.mem_cons_of_mem a ha')
    obtain ⟨cs, hbares, hneutral, hascii⟩ := (hargs a List.mem_cons_self).bares
    cases separators with
    | nil =>
      obtain ⟨more, hmore, hmoreAscii, hnest⟩ := ih hmarks htail
      refine ⟨cs ++ more, ?_, fun c hc => ?_, fun stack => ?_⟩
      · have happend := hbares.append hmore
        rwa [weave] at happend
      · exact (List.mem_append.1 hc).elim (hascii c) (hmoreAscii c)
      · rw [nest_append, hneutral stack]
        exact hnest stack
    | cons s separators =>
      have hs := hmarks s List.mem_cons_self
      obtain ⟨more, hmore, hmoreAscii, hnest⟩ :=
        ih (fun s' hs' => hmarks s' (List.mem_cons_of_mem s hs')) htail
      refine ⟨s.toList ++ (cs ++ more), ?_, fun c hc => ?_, fun stack => ?_⟩
      · rw [← List.append_assoc]
        exact ((Bares.of_not_mem (not_quote_mem_of_isMark hs)).append hbares).append hmore
      · rcases List.mem_append.1 hc with hc | hc
        · exact ascii_of_isMark (hs c hc)
        · exact (List.mem_append.1 hc).elim (hascii c) (hmoreAscii c)
      · rw [hneutral.nest_insert, List.flatMap_cons, nest_append, nest_append]
        congr 1
        funext next
        exact hnest next

theorem mem_weave {c : Char} (h : c ∈ (weave separators args).toList) :
    (∃ s ∈ separators, c ∈ s.toList) ∨ ∃ a ∈ args, c ∈ a.toList := by
  induction args generalizing separators with
  | nil =>
    rw [toList_weave_nil] at h
    exact .inl (List.mem_flatMap.1 h)
  | cons a args ih =>
    cases separators with
    | nil =>
      have hsplit : c ∈ a.toList ∨ c ∈ (weave [] args).toList := by
        rw [weave] at h ⊢
        simpa using h
      rcases hsplit with ha | hrest
      · exact .inr ⟨a, List.mem_cons_self, ha⟩
      · obtain ⟨s, hs, -⟩ | ⟨a', ha', hc⟩ := ih hrest
        · cases hs
        · exact .inr ⟨a', List.mem_cons_of_mem a ha', hc⟩
    | cons s separators =>
      rw [weave_cons, List.mem_append, List.mem_append] at h
      rcases h with hs | ha | hrest
      · exact .inl ⟨s, List.mem_cons_self, hs⟩
      · exact .inr ⟨a, List.mem_cons_self, ha⟩
      · rcases ih hrest with ⟨s', hs', hc⟩ | ⟨a', ha', hc⟩
        · exact .inl ⟨s', List.mem_cons_of_mem s hs', hc⟩
        · exact .inr ⟨a', List.mem_cons_of_mem a ha', hc⟩

theorem Sealed.weave (hmarks : ∀ s ∈ separators, ∀ c ∈ s.toList, isMark c = true)
    (hneutral : Neutral (separators.flatMap String.toList)) (hargs : ∀ a ∈ args, Sealed a) :
    Sealed (weave separators args) where
  bares := by
    obtain ⟨cs, hbares, hascii, hnest⟩ := exists_bares_weave hmarks hargs
    exact ⟨cs, hbares, fun stack => (hnest stack).trans (hneutral stack), hascii⟩
  inline c hc := by
    rcases mem_weave hc with ⟨s, hs, hcs⟩ | ⟨a, ha, hca⟩
    · exact inline_of_isMark (hmarks s hs c hcs)
    · exact (hargs a ha).inline c hca

end Weave

theorem neutral_separators {callee : Name} (h : callee.isPlain = true) (args : List String) :
    Neutral (((form callee).separators args).flatMap String.toList) := by
  refine Form.neutral_separators ?_ args
  unfold form
  split
  · rename_i builtin hfind
    have hall : ∀ b ∈ Builtin.all, b.form.isBalanced = true := by decide
    exact hall builtin (Builtin.mem_all_of_find? hfind)
  · have hcalling : nest brackets [] ((callee.text ++ "(").toList ++ ")".toList) = some [] := by
      rw [String.toList_append, List.append_assoc, nest_append,
        neutral_of_isNameChar (Name.isNameChar_text h) []]
      rfl
    rw [Form.isBalanced, hcalling]
    rfl

theorem Sealed.statements {codes : List String} (h : ∀ code ∈ codes, Sealed code) :
    Sealed (statements codes) := by
  induction codes with
  | nil => exact .of_isMark (List.all_eq_true.1 rfl) .nil
  | cons code codes ih =>
    have hhead := h code List.mem_cons_self
    have htail := ih fun code' hcode' => h code' (List.mem_cons_of_mem code hcode')
    cases codes with
    | nil =>
      rw [statements_singleton]
      exact hhead
    | cons next codes =>
      rw [statements_cons]
      exact (hhead.append (.of_isMark (List.all_eq_true.1 rfl) (.of_nest rfl))).append htail

end Code

namespace Expr

open Code (Sealed)

mutual

theorem sealed_text (e : Expr) (h : e.isPlain = true) : Sealed e.text := by
  cases e with
  | call callee args =>
    rw [isPlain, Bool.and_eq_true] at h
    exact .weave (fun s hs => Code.isMark_separators h.1 hs) (Code.neutral_separators h.1 _)
      (sealed_textAll args h.2)
  | name n => exact .of_isNameChar (Name.isNameChar_text h)
  | string value => exact .stringLiteral value
  | number raw => exact .of_isNameChar (Name.isNameChar_of_isNumeral h)

theorem sealed_textAll (es : List Expr) (h : isPlainAll es = true) :
    ∀ code ∈ textAll es, Sealed code := by
  cases es with
  | nil => exact fun code hcode => absurd hcode List.not_mem_nil
  | cons e es =>
    rw [isPlainAll, Bool.and_eq_true] at h
    exact List.forall_mem_cons.2 ⟨sealed_text e h.1, sealed_textAll es h.2⟩

end

end Expr

/-- Compiled code ends outside its string literals.  Outside them its brackets are
matched and nested and every character is ASCII, and nowhere is there a line break
or a tab. -/
theorem sealed_compile (source code : String) (h : compile source = .ok code) :
    ∃ cs, Code.bare code.toList = some cs ∧ Code.Nested brackets cs ∧
      (∀ c ∈ cs, c.toNat < 128) ∧ ∀ c ∈ code.toList, c ≠ '\n' ∧ c ≠ '\r' ∧ c ≠ '\t' := by
  obtain ⟨tokens, program, -, -, hplain, rfl⟩ := exists_program_of_compile h
  have hsealed : Code.Sealed program.text :=
    .statements (Expr.sealed_textAll program.body hplain)
  obtain ⟨cs, hbares, hneutral, hascii⟩ := hsealed.bares
  exact ⟨cs, hbares.bare_eq, Code.nested_of_nest (hneutral []), hascii, hsealed.inline⟩

/-- A closing bracket and a line break inside a string, in the index of a
condition. -/
theorem sealed_compile_index :
    ∃ cs, Code.bare "if(a[\"]\\n\"])f(\x7b\"é\":1\x7d)".toList = some cs ∧
      Code.Nested brackets cs ∧ (∀ c ∈ cs, c.toNat < 128) ∧
      ∀ c ∈ "if(a[\"]\\n\"])f(\x7b\"é\":1\x7d)".toList, c ≠ '\n' ∧ c ≠ '\r' ∧ c ≠ '\t' := by
  have hcompile : compile "(if (idx a \"]\n\") (f (object \"é\" 1)))" =
      .ok "if(a[\"]\\n\"])f(\x7b\"é\":1\x7d)" := by cbv
  exact sealed_compile _ _ hcompile

end JsLisp
