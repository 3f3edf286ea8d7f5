/-
String contents do not influence the code around them.

Two expressions of one shape differ at most in the values of their string
literals.  Their code is alike: it has the same characters outside the literals,
and where the one has a literal so has the other.  The conditional is the only form
that looks at code, and its scan passes over a literal whatever is in it, so it
decides the same for both.
-/
import JsLisp.Proofs.Code.Form
import JsLisp.Proofs.Expr.Plain

namespace JsLisp

namespace Expr

mutual

/-- The expression with its string literals emptied. -/
def shape : Expr → Expr
  | call callee args => call callee (shapeAll args)
  | name n => name n
  | string _ => string ""
  | number raw => number raw

def shapeAll : List Expr → List Expr
  | [] => []
  | e :: es => shape e :: shapeAll es

end

end Expr

def Program.shape (program : Program) : Program :=
  ⟨Expr.shapeAll program.body⟩

/-- Both succeed, with related results, or both fail with the same error. -/
inductive Agree {ε α β : Type} (related : α → β → Prop) : Except ε α → Except ε β → Prop
  | ok {a : α} {b : β} (h : related a b) : Agree related (.ok a) (.ok b)
  | error (error : ε) : Agree related (.error error) (.error error)

theorem Agree.bind {ε α β γ δ : Type} {related : α → β → Prop} {related' : γ → δ → Prop}
    {result : Except ε α} {result' : Except ε β} {next : α → Except ε γ}
    {next' : β → Except ε δ} (h : Agree related result result')
    (hnext : ∀ a b, related a b → Agree related' (next a) (next' b)) :
    Agree related' (result.bind next) (result'.bind next') := by
  cases h with
  | ok h => exact hnext _ _ h
  | error error => exact .error error

namespace Code

/-- The same code around the literals of two lists of values. -/
inductive Alike : List String → List Char → List String → List Char → Prop
  | nil : Alike [] [] [] []
  | mark {vs vs' : List String} {cs cs' : List Char} {c : Char} (hc : c ≠ '"')
    (h : Alike vs cs vs' cs') : Alike vs (c :: cs) vs' (c :: cs')
  | literal {vs vs' : List String} {cs cs' : List Char} (v v' : String)
    (h : Alike vs cs vs' cs') :
    Alike (v :: vs) ((stringLiteral v).toList ++ cs) (v' :: vs') ((stringLiteral v').toList ++ cs')

namespace Alike

variable {vs vs' ws ws' : List String} {cs cs' ds ds' : List Char}

theorem of_not_mem {cs : List Char} (h : '"' ∉ cs) : Alike [] cs [] cs := by
  induction cs with
  | nil => exact .nil
  | cons c cs ih =>
    rw [List.mem_cons, not_or] at h
    exact .mark (Ne.symm h.1) (ih h.2)

theorem stringLiteral (v v' : String) :
    Alike [v] (Code.stringLiteral v).toList [v'] (Code.stringLiteral v').toList := by
  have hliteral := Alike.literal v v' .nil
  rwa [List.append_nil, List.append_nil] at hliteral

theorem append (h : Alike vs cs vs' cs') (h' : Alike ws ds ws' ds') :
    Alike (vs ++ ws) (cs ++ ds) (vs' ++ ws') (cs' ++ ds') := by
  induction h with
  | nil => exact h'
  | mark hc h ih => exact .mark hc ih
  | literal v v' h ih =>
    rw [List.append_assoc, List.append_assoc]
    exact .literal v v' ih

theorem isEmpty_eq (h : Alike vs cs vs' cs') : cs.isEmpty = cs'.isEmpty := by
  cases h with
  | nil => rfl
  | mark hc h => rfl
  | literal v v' h => simp [toList_stringLiteral]

/-- The code is the two lists of literals woven into common texts. -/
theorem exists_texts (h : Alike vs cs vs' cs') :
    ∃ texts : List String, texts.length = vs.length + 1 ∧ texts.length = vs'.length + 1 ∧
      (∀ s ∈ texts, '"' ∉ s.toList) ∧
      (weave texts (vs.map Code.stringLiteral)).toList = cs ∧
      (weave texts (vs'.map Code.stringLiteral)).toList = cs' := by
  induction h with
  | nil => exact ⟨[""], rfl, rfl, by simp, rfl, rfl⟩
  | @mark vs vs' cs cs' c hc h ih =>
    obtain ⟨texts, hlength, hlength', hquote, hcs, hcs'⟩ := ih
    -- The character goes to the front of the first text.
    cases texts with
    | nil => cases hlength
    | cons s texts =>
      have hpush : ∀ args, (weave ((c.toString ++ s) :: texts) args).toList =
          c :: (weave (s :: texts) args).toList := by
        intro args
        cases args <;> simp [weave]
      refine ⟨(c.toString ++ s) :: texts, hlength, hlength', ?_, ?_, ?_⟩
      · rw [List.forall_mem_cons] at hquote ⊢
        refine ⟨?_, hquote.2⟩
        simp [Ne.symm hc, hquote.1]
      · rw [hpush, hcs]
      · rw [hpush, hcs']
  | @literal vs vs' cs cs' v v' h ih =>
    obtain ⟨texts, hlength, hlength', hquote, hcs, hcs'⟩ := ih
    refine ⟨"" :: texts, ?_, ?_, ?_, ?_, ?_⟩
    · rw [List.length_cons, List.length_cons, hlength]
    · rw [List.length_cons, List.length_cons, hlength']
    · exact List.forall_mem_cons.2 ⟨by simp, hquote⟩
    · rw [List.map_cons, weave_cons, hcs, String.toList_empty, List.nil_append]
    · rw [List.map_cons, weave_cons, hcs', String.toList_empty, List.nil_append]

end Alike

theorem closesLastInString_escape (depth : Nat) (value rest : List Char) :
    closesLastInString depth (escape value ++ rest) = closesLastInString depth rest := by
  refine scan_escape (fun _ _ => rfl) (fun c cs hslash hquote => ?_) value rest
  rw [closesLastInString, if_neg hquote]
  · exact fun h => absurd h hslash
  · exact fun _ _ h => absurd h hslash

/-- A literal is passed over, whatever it contains. -/
theorem closesLast_stringLiteral (depth : Nat) (v : String) (rest : List Char) :
    closesLast depth ((stringLiteral v).toList ++ rest) = closesLast depth rest := by
  rw [toList_stringLiteral, closesLast, if_pos rfl, closesLastInString_escape]
  rfl

namespace Alike

theorem closesLast_eq {vs vs' : List String} {cs cs' : List Char} (h : Alike vs cs vs' cs')
    (depth : Nat) : closesLast depth cs = closesLast depth cs' := by
  induction h generalizing depth with
  | nil => rfl
  | mark hc h ih => rw [closesLast, closesLast, if_neg hc, if_neg hc, ih, ih, ih, h.isEmpty_eq]
  | literal v v' h ih => rw [closesLast_stringLiteral, closesLast_stringLiteral, ih]

theorem isEnclosed_eq {vs vs' : List String} {code code' : String}
    (h : Alike vs code.toList vs' code'.toList) : isEnclosed code = isEnclosed code' := by
  unfold isEnclosed
  generalize code.toList = cs at h
  generalize code'.toList = cs' at h
  cases h with
  | nil => rfl
  | @mark _ _ cs cs' c hc h =>
    by_cases hopening : c = '('
    · subst hopening
      exact h.closesLast_eq 1
    · simp [hopening]
  | literal v v' h =>
    rw [toList_stringLiteral, toList_stringLiteral]
    rfl

end Alike

/-- Lists of code that are alike one by one, with the values of all of it. -/
inductive AlikeAll : List String → List String → List String → List String → Prop
  | nil : AlikeAll [] [] [] []
  | cons {vs vs' ws ws' codes codes' : List String} {code code' : String}
    (h : Alike vs code.toList vs' code'.toList) (hrest : AlikeAll ws codes ws' codes') :
    AlikeAll (vs ++ ws) (code :: codes) (vs' ++ ws') (code' :: codes')

namespace AlikeAll

variable {vs vs' codes codes' : List String}

theorem length_eq (h : AlikeAll vs codes vs' codes') : codes.length = codes'.length := by
  induction h with
  | nil => rfl
  | cons h hrest ih => rw [List.length_cons, List.length_cons, ih]

theorem separators_eq (h : AlikeAll vs codes vs' codes') (form : Form) :
    form.separators codes = form.separators codes' := by
  refine form.separators_congr h.length_eq fun _ => ?_
  cases h with
  | nil => rfl
  | cons h hrest => exact congrArg some h.isEnclosed_eq

theorem weave (h : AlikeAll vs codes vs' codes') {separators : List String}
    (hseparators : ∀ s ∈ separators, '"' ∉ s.toList) :
    Alike vs (weave separators codes).toList vs' (weave separators codes').toList := by
  induction h generalizing separators with
  | nil =>
    refine .of_not_mem fun hquote => ?_
    rw [toList_weave_nil] at hquote
    obtain ⟨s, hs, hmem⟩ := List.mem_flatMap.1 hquote
    exact hseparators s hs hmem
  | @cons vs vs' ws ws' codes codes' code code' h hrest ih =>
    cases separators with
    | nil =>
      have htail := h.append (ih hseparators)
      simpa [JsLisp.weave] using htail
    | cons s separators =>
      rw [List.forall_mem_cons] at hseparators
      rw [weave_cons, weave_cons]
      exact (Alike.of_not_mem hseparators.1).append (h.append (ih hseparators.2))

theorem statements (h : AlikeAll vs codes vs' codes') :
    Alike vs (statements codes).toList vs' (statements codes').toList := by
  induction h with
  | nil => exact .nil
  | @cons vs vs' ws ws' codes codes' code code' h hrest ih =>
    cases hrest with
    | nil =>
      rw [statements_singleton, statements_singleton, List.append_nil, List.append_nil]
      exact h
    | cons hnext hmore =>
      have hdivider : Alike [] [';'] [] [';'] := .mark (by decide) .nil
      rw [statements_cons, statements_cons]
      simpa using h.append (hdivider.append ih)

end AlikeAll

theorem agree_call {vs vs' codes codes' : List String} {callee : Name}
    (hplain : callee.isPlain = true) (h : AlikeAll vs codes vs' codes') :
    Agree (fun code code' => Alike vs code.toList vs' code'.toList)
      (call callee codes) (call callee codes') := by
  have hemit : Alike vs ((form callee).emit codes).toList vs' ((form callee).emit codes').toList := by
    rw [Form.emit, Form.emit, ← h.separators_eq]
    exact h.weave fun s hs => not_quote_mem_separators hplain hs
  unfold call
  unfold form at hemit
  split
  · rename_i builtin hfind
    rw [hfind] at hemit
    rw [h.length_eq]
    split
    · exact .ok hemit
    · exact .error _
  · rename_i hfind
    rw [hfind] at hemit
    exact .ok hemit

end Code

/-! ## Expressions of one shape -/

namespace Expr

open Code (Alike AlikeAll)

mutual

theorem agree_codeAt {e e' : Expr} (hplain : e.isPlain = true) (hshape : e.shape = e'.shape)
    (depth : Nat) :
    Agree (fun code code' => Alike e.strings code.toList e'.strings code'.toList)
      (e.codeAt depth) (e'.codeAt depth) := by
  cases e with
  | call callee args =>
    cases e' with
    | call callee' args' =>
      simp only [shape, call.injEq] at hshape
      obtain ⟨rfl, hargs⟩ := hshape
      rw [isPlain, Bool.and_eq_true] at hplain
      rw [codeAt, codeAt]
      split
      · exact .error EmitError.tooDeep
      · exact (agree_codesAt hplain.2 hargs (depth + 1)).bind
          fun codes codes' h => Code.agree_call hplain.1 h
    | _ => cases hshape
  | name n =>
    cases e' with
    | name n' =>
      cases hshape
      exact .ok (.of_not_mem (Code.not_quote_mem_of_isNameChar (Name.isNameChar_text hplain)))
    | _ => cases hshape
  | string v =>
    cases e' with
    | string v' => exact .ok (.stringLiteral v v')
    | _ => cases hshape
  | number raw =>
    cases e' with
    | number raw' =>
      cases hshape
      exact .ok (.of_not_mem
        (Code.not_quote_mem_of_isNameChar (Name.isNameChar_of_isNumeral hplain)))
    | _ => cases hshape

theorem agree_codesAt {es es' : List Expr} (hplain : isPlainAll es = true)
    (hshape : shapeAll es = shapeAll es') (depth : Nat) :
    Agree (fun codes codes' => AlikeAll (stringsAll es) codes (stringsAll es') codes')
      (codesAt es depth) (codesAt es' depth) := by
  cases es with
  | nil =>
    cases es' with
    | nil => exact .ok .nil
    | cons e' es' => cases hshape
  | cons e es =>
    cases es' with
    | nil => cases hshape
    | cons e' es' =>
      simp only [shapeAll, List.cons.injEq] at hshape
      rw [isPlainAll, Bool.and_eq_true] at hplain
      rw [codesAt, codesAt]
      refine (agree_codeAt hplain.1 hshape.1 depth).bind fun code code' h => ?_
      exact (agree_codesAt hplain.2 hshape.2 depth).bind fun codes codes' hs => .ok (.cons h hs)

end

end Expr

namespace Program

theorem agree_code {p q : Program} (hplain : Expr.isPlainAll p.body = true)
    (hshape : p.shape = q.shape) :
    Agree (fun code code' => Code.Alike (Expr.stringsAll p.body) code.toList
      (Expr.stringsAll q.body) code'.toList) p.code q.code := by
  have hbody : Expr.shapeAll p.body = Expr.shapeAll q.body := congrArg Program.body hshape
  rw [code_eq_bind, code_eq_bind]
  exact (Expr.agree_codesAt hplain hbody 0).bind fun codes codes' h => .ok h.statements

/-- Programs that differ only in the values of their strings fail with the same
error, or their codes are the literals of the one and of the other woven into the
same texts, none of which has a quote. -/
theorem code_of_shape_eq (p q : Program) (hplain : Expr.isPlainAll p.body = true)
    (hshape : p.shape = q.shape) :
    (∃ error, p.code = .error error ∧ q.code = .error error) ∨
    ∃ texts : List String,
      texts.length = (Expr.stringsAll p.body).length + 1 ∧
      texts.length = (Expr.stringsAll q.body).length + 1 ∧
      (∀ s ∈ texts, '"' ∉ s.toList) ∧
      p.code = .ok (weave texts ((Expr.stringsAll p.body).map Code.stringLiteral)) ∧
      q.code = .ok (weave texts ((Expr.stringsAll q.body).map Code.stringLiteral)) := by
  have hagree := agree_code hplain hshape
  generalize p.code = result at hagree
  generalize q.code = result' at hagree
  cases hagree with
  | error error => exact .inl ⟨error, rfl, rfl⟩
  | ok h =>
    obtain ⟨texts, hlength, hlength', hquote, hcode, hcode'⟩ := h.exists_texts
    refine .inr ⟨texts, hlength, hlength', hquote, ?_, ?_⟩
    · rw [String.toList_inj.1 hcode]
    · rw [String.toList_inj.1 hcode']

/-- Quotes, backslashes and parentheses in the condition, against none. -/
theorem code_of_shape_eq_condition :
    ∃ texts : List String, texts.length = 3 ∧
      (Program.mk [.call ⟨"if", []⟩ [.call ⟨"or", []⟩ [.string "\"))\\", .name ⟨"x", []⟩],
        .call ⟨"throw", []⟩ [.string "\\"]]]).code =
        .ok (weave texts [Code.stringLiteral "\"))\\", Code.stringLiteral "\\"]) ∧
      (Program.mk [.call ⟨"if", []⟩ [.call ⟨"or", []⟩ [.string "", .name ⟨"x", []⟩],
        .call ⟨"throw", []⟩ [.string "a"]]]).code =
        .ok (weave texts [Code.stringLiteral "", Code.stringLiteral "a"]) := by
  rcases code_of_shape_eq
    ⟨[.call ⟨"if", []⟩ [.call ⟨"or", []⟩ [.string "\"))\\", .name ⟨"x", []⟩],
      .call ⟨"throw", []⟩ [.string "\\"]]]⟩
    ⟨[.call ⟨"if", []⟩ [.call ⟨"or", []⟩ [.string "", .name ⟨"x", []⟩],
      .call ⟨"throw", []⟩ [.string "a"]]]⟩ (by decide) rfl with
    ⟨error, -, herror⟩ | ⟨texts, hlength, -, -, hcode, hcode'⟩
  · cases herror
  · exact ⟨texts, hlength, hcode, hcode'⟩

end Program
end JsLisp
