/-
Conditionals in conditionals.

The branches of a conditional are written without braces, so its code does not say
where a branch ends, and an `else` is read with the nearest conditional that has
none yet.  `reread` is the conditional that the code reads as.  Two conditionals
have the same code exactly if they read as the same one, and a conditional reads as
itself exactly if none of its consequences leaves a conditional open in front of an
`else`.
-/
import JsLisp.Proofs.Code.Emission
import JsLisp.Proofs.Code.Lexeme
import JsLisp.Proofs.Expr.Name

namespace JsLisp

/-- Conditionals over words.  The test is a word, and each branch is a word or
another conditional. -/
inductive Conditional
  | word (text : String)
  | short (test : String) (consequence : Conditional)
  | long (test : String) (consequence alternative : Conditional)
deriving DecidableEq

namespace Conditional

open Code (Lexeme lexemes lexemes_sign lexemes_word)
open Text (Ends isWord)

def toExpr : Conditional → Expr
  | word text => .name ⟨text, []⟩
  | short test t => .call ⟨"if", []⟩ [.name ⟨test, []⟩, t.toExpr]
  | long test t e => .call ⟨"if", []⟩ [.name ⟨test, []⟩, t.toExpr, e.toExpr]

def isPlain : Conditional → Bool
  | word text => isWord text.toList
  | short test t => isWord test.toList && t.isPlain
  | long test t e => isWord test.toList && t.isPlain && e.isPlain

def chars : Conditional → List Char
  | word text => text.toList
  | short test t => 'i' :: 'f' :: '(' :: (test.toList ++ ')' :: t.chars)
  | long test t e =>
    'i' :: 'f' :: '(' :: (test.toList ++ ')' :: (t.chars ++ ";else ".toList ++ e.chars))

theorem isEnclosed_of_isWord {text : String} (h : isWord text.toList = true) :
    Code.isEnclosed text = false := by
  obtain ⟨c, cs, htext, halpha, -⟩ := Text.exists_cons_of_isWord h
  rw [Code.isEnclosed, htext]
  split
  · rename_i heq
    cases heq
    exact absurd halpha (by decide)
  · rfl

theorem form_if : Code.form ⟨"if", []⟩ = .conditional := by
  rw [Code.form, Name.text_lone]
  rfl

theorem toList_text {d : Conditional} (h : d.isPlain = true) : d.toExpr.text.toList = d.chars := by
  induction d with
  | word text => rw [toExpr, Expr.text, Name.text_lone, chars]
  | short test t ih =>
    rw [isPlain, Bool.and_eq_true] at h
    rw [chars, ← ih h.2]
    simp [toExpr, Expr.text, Expr.textAll, form_if, Form.emit, Form.separators, weave,
      Name.text_lone, isEnclosed_of_isWord h.1]
  | long test t e iht ihe =>
    rw [isPlain, Bool.and_eq_true, Bool.and_eq_true] at h
    rw [chars, ← iht h.1.2, ← ihe h.2]
    simp [toExpr, Expr.text, Expr.textAll, form_if, Form.emit, Form.separators, weave,
      Name.text_lone, isEnclosed_of_isWord h.1.1]

theorem counted_toExpr (d : Conditional) : d.toExpr.counted = true := by
  have haccepts : ∀ count ∈ [2, 3], Code.accepts ⟨"if", []⟩ count = true := by
    intro count hcount
    rw [Code.accepts, Name.text_lone]
    revert count
    decide
  induction d with
  | word text => rfl
  | short test t ih =>
    simp [toExpr, Expr.counted, Expr.countedAll, haccepts 2 (by decide), ih]
  | long test t e iht ihe =>
    simp [toExpr, Expr.counted, Expr.countedAll, haccepts 3 (by decide), iht, ihe]

theorem code_eq_text {d : Conditional} (h : d.toExpr.nesting ≤ maxNesting) :
    d.toExpr.code = .ok d.toExpr.text :=
  (Expr.code_eq_ok_iff _ _).2 ⟨h, d.counted_toExpr, rfl⟩

/-- Close a conditional behind its consequence.  It takes the next `else`, if there
is one. -/
def close (test : String) : Conditional × List Conditional → Conditional × List Conditional
  | (t, []) => (short test t, [])
  | (t, e :: elses) => (long test t e, elses)

/-- The conditional as it reads in front of the given `else` branches, and those that
it does not take. -/
def take : Conditional → List Conditional → Conditional × List Conditional
  | word text, elses => (word text, elses)
  | short test t, elses => close test (t.take elses)
  | long test t e, elses =>
    let alternative := e.take elses
    close test (t.take (alternative.1 :: alternative.2))

def reread (d : Conditional) : Conditional :=
  (d.take []).1

/-- How many conditionals at the end of the code still take an `else`. -/
def openings : Conditional → Nat
  | word _ => 0
  | short _ t => t.openings + 1
  | long _ t e => t.openings + e.openings

/-- No consequence takes the `else` that is meant for its conditional. -/
def isSettled : Conditional → Bool
  | word _ => true
  | short _ t => t.isSettled
  | long _ t e => t.openings == 0 && t.isSettled && e.isSettled

theorem close_snd (test : String) (cut : Conditional × List Conditional) :
    (close test cut).2 = cut.2.drop 1 := by
  obtain ⟨t, elses⟩ := cut
  cases elses <;> rfl

theorem take_snd (d : Conditional) (elses : List Conditional) :
    (d.take elses).2 = elses.drop d.openings := by
  induction d generalizing elses with
  | word text => rfl
  | short test t ih => rw [take, close_snd, ih, List.drop_drop, openings]
  | long test t e iht ihe =>
    rw [take, close_snd, iht, ihe, List.drop_drop, List.drop_succ_cons, List.drop_drop, openings,
      Nat.add_comm]

theorem take_nil (d : Conditional) : d.take [] = (d.reread, []) := by
  refine Prod.ext rfl ?_
  rw [take_snd, List.drop_nil]

/-- Without an open conditional at its end, a conditional leaves every `else`. -/
theorem take_of_openings {d : Conditional} (h : d.openings = 0) (elses : List Conditional) :
    d.take elses = (d.reread, elses) := by
  induction d generalizing elses with
  | word text => rfl
  | short test t ih => cases h
  | long test t e iht ihe =>
    rw [openings, Nat.add_eq_zero_iff] at h
    rw [reread, take, take, ihe h.2, ihe h.2, iht h.1, iht h.1]
    rfl

theorem reread_short (test : String) (t : Conditional) :
    (short test t).reread = short test t.reread := by
  rw [reread, take, take_nil]
  rfl

theorem reread_long (test : String) (t e : Conditional) :
    (long test t e).reread = (close test (t.take [e.reread])).1 := by
  rw [reread, take, take_nil]

theorem reread_eq_self_iff (d : Conditional) : d.reread = d ↔ d.isSettled = true := by
  induction d with
  | word text => exact iff_of_true rfl rfl
  | short test t ih => rw [reread_short, isSettled, ← ih, short.injEq, eq_self, true_and]
  | long test t e iht ihe =>
    rw [reread_long, isSettled, Bool.and_eq_true, Bool.and_eq_true, beq_iff_eq, ← iht, ← ihe]
    constructor
    · intro h
      -- The conditional keeps an alternative only if its consequence leaves it one.
      have hsnd := take_snd t [e.reread]
      cases hopenings : t.openings with
      | zero =>
        rw [take_of_openings hopenings] at h
        simp only [close, long.injEq, true_and] at h
        exact ⟨⟨rfl, h.1⟩, h.2⟩
      | succ n =>
        rw [hopenings, List.drop_succ_cons, List.drop_nil] at hsnd
        generalize t.take [e.reread] = cut at h hsnd
        obtain ⟨t', elses⟩ := cut
        cases hsnd
        cases h
    · rintro ⟨⟨hopenings, ht⟩, he⟩
      rw [take_of_openings hopenings, ht, he]
      rfl

/-! ## Conditionals with the same code -/

def charsElse (elses : List Conditional) : List Char :=
  elses.flatMap fun e => ";else ".toList ++ e.chars

theorem chars_close (test : String) (cut : Conditional × List Conditional) :
    (close test cut).1.chars ++ charsElse (close test cut).2 =
      'i' :: 'f' :: '(' :: (test.toList ++ ')' :: (cut.1.chars ++ charsElse cut.2)) := by
  obtain ⟨t, elses⟩ := cut
  cases elses <;> simp [close, chars, charsElse]

theorem chars_take (d : Conditional) (elses : List Conditional) :
    (d.take elses).1.chars ++ charsElse (d.take elses).2 = d.chars ++ charsElse elses := by
  induction d generalizing elses with
  | word text => rfl
  | short test t ih =>
    rw [take, chars_close, ih, chars]
    simp
  | long test t e iht ihe =>
    have halternative : charsElse ((e.take elses).1 :: (e.take elses).2) =
        ";else ".toList ++ (e.chars ++ charsElse elses) := by
      rw [charsElse, List.flatMap_cons, List.append_assoc, ← ihe]
      rfl
    rw [take, chars_close, iht, halternative, chars]
    simp

theorem chars_reread (d : Conditional) : d.reread.chars = d.chars := by
  have htake := chars_take d []
  rw [take_nil] at htake
  simpa [charsElse] using htake

/-- Read conditionals from the right, each in front of the `else` branches behind
it. -/
def decode : List Lexeme → List Conditional
  | .word ['i', 'f'] :: .sign '(' :: .word test :: .sign ')' :: ls =>
    match decode ls with
    | [] => []
    | t :: elses =>
      let closed := close (String.ofList test) (t, elses)
      closed.1 :: closed.2
  | .sign ';' :: .word ['e', 'l', 's', 'e'] :: .sign ' ' :: ls => decode ls
  | .word text :: ls => word (String.ofList text) :: decode ls
  | _ => []

theorem lexemes_test {test : List Char} (h : isWord test = true) (more : List Char) :
    lexemes ('i' :: 'f' :: '(' :: (test ++ ')' :: more)) =
      .word ['i', 'f'] :: .sign '(' :: .word test :: .sign ')' :: lexemes more := by
  show lexemes (['i', 'f'] ++ '(' :: (test ++ ')' :: more)) = _
  rw [lexemes_word (by decide) (Text.ends_cons _ (by decide)), lexemes_sign (by decide),
    lexemes_word h (Text.ends_cons _ (by decide)), lexemes_sign (by decide)]

theorem lexemes_else (more : List Char) :
    lexemes (";else ".toList ++ more) =
      .sign ';' :: .word ['e', 'l', 's', 'e'] :: .sign ' ' :: lexemes more := by
  show lexemes (';' :: (['e', 'l', 's', 'e'] ++ ' ' :: more)) = _
  rw [lexemes_sign (by decide), lexemes_word (by decide) (Text.ends_cons _ (by decide)),
    lexemes_sign (by decide)]

/-- Behind a conditional stands nothing or an `else`. -/
def Follows (rest : List Char) : Prop :=
  ∀ c, rest.head? = some c → c = ';'

theorem decode_word (text : List Char) {rest : List Char} (hrest : Follows rest) :
    decode (.word text :: lexemes rest) = word (String.ofList text) :: decode (lexemes rest) := by
  cases rest with
  | nil =>
    show decode [.word text] = _
    simp [decode, lexemes]
  | cons c rest =>
    obtain rfl := hrest c rfl
    rw [lexemes_sign (by decide)]
    simp [decode]

theorem decode_test {test : String} {ls : List Lexeme} {cut : Conditional × List Conditional}
    (h : decode ls = cut.1 :: cut.2) :
    decode (.word ['i', 'f'] :: .sign '(' :: .word test.toList :: .sign ')' :: ls) =
      (close test cut).1 :: (close test cut).2 := by
  rw [decode, h]
  simp

theorem decode_chars {d : Conditional} (h : d.isPlain = true) {rest : List Char}
    (hrest : Follows rest) :
    decode (lexemes (d.chars ++ rest)) =
      (d.take (decode (lexemes rest))).1 :: (d.take (decode (lexemes rest))).2 := by
  induction d generalizing rest with
  | word text =>
    have hends : Ends Char.isAlphanum rest := by
      intro c hc
      rw [hrest c hc]
      decide
    rw [chars, lexemes_word h hends, decode_word _ hrest, String.ofList_toList]
    rfl
  | short test t ih =>
    rw [isPlain, Bool.and_eq_true] at h
    have hchars : (short test t).chars ++ rest =
        'i' :: 'f' :: '(' :: (test.toList ++ ')' :: (t.chars ++ rest)) := by
      simp [chars]
    rw [hchars, lexemes_test h.1, decode_test (ih h.2 hrest), take]
  | long test t e iht ihe =>
    rw [isPlain, Bool.and_eq_true, Bool.and_eq_true] at h
    have hchars : (long test t e).chars ++ rest = 'i' :: 'f' :: '(' :: (test.toList ++ ')' ::
        (t.chars ++ (";else ".toList ++ (e.chars ++ rest)))) := by
      simp [chars]
    have helse : Follows (";else ".toList ++ (e.chars ++ rest)) := by
      intro c hc
      cases hc
      rfl
    -- The consequence is read in front of the alternative, which is read first.
    have hbranches := iht h.1.2 helse
    have hskip : decode (lexemes (";else ".toList ++ (e.chars ++ rest))) =
        decode (lexemes (e.chars ++ rest)) := by
      rw [lexemes_else, decode]
    rw [hskip, ihe h.2 hrest] at hbranches
    rw [hchars, lexemes_test h.1.1, decode_test hbranches, take]

theorem decode_text {d : Conditional} (h : d.isPlain = true) :
    decode (lexemes d.toExpr.text.toList) = [d.reread] := by
  have hdecode := @decode_chars d h [] (fun c hc => by cases hc)
  rw [List.append_nil] at hdecode
  rw [toList_text h, hdecode]
  show (d.take []).1 :: (d.take []).2 = _
  rw [take_nil]

theorem text_eq_text_iff {d e : Conditional} (hd : d.isPlain = true) (he : e.isPlain = true) :
    d.toExpr.text = e.toExpr.text ↔ d.reread = e.reread := by
  constructor
  · intro h
    have hdecode := decode_text hd
    rw [h, decode_text he] at hdecode
    exact (List.head_eq_of_cons_eq hdecode).symm
  · intro h
    rw [← String.toList_inj, toList_text hd, toList_text he, ← chars_reread d, h, chars_reread]

/-- Conditionals have code, and two have the same code exactly if they read as the
same conditional.  One reads as itself exactly if each `else` of it stands behind a
consequence that takes no `else`. -/
theorem code_eq_code_iff_reread (d e : Conditional) (hd : d.isPlain = true)
    (he : e.isPlain = true) (hdn : d.toExpr.nesting ≤ maxNesting)
    (hen : e.toExpr.nesting ≤ maxNesting) :
    (∃ code, d.toExpr.code = .ok code) ∧
      (d.toExpr.code = e.toExpr.code ↔ d.reread = e.reread) ∧
      (d.reread = d ↔ d.isSettled = true) := by
  refine ⟨⟨_, code_eq_text hdn⟩, ?_, reread_eq_self_iff d⟩
  rw [code_eq_text hdn, code_eq_text hen, Except.ok.injEq, text_eq_text_iff hd he]

/-- A complete conditional as the consequence is told from one as the alternative. -/
theorem code_ne_of_nested_branches :
    (∃ code, (long "a" (long "b" (word "c") (word "d")) (word "e")).toExpr.code = .ok code) ∧
      (long "a" (long "b" (word "c") (word "d")) (word "e")).toExpr.code ≠
        (long "a" (word "b") (long "c" (word "d") (word "e"))).toExpr.code := by
  obtain ⟨hcode, hiff, -⟩ := code_eq_code_iff_reread
    (long "a" (long "b" (word "c") (word "d")) (word "e"))
    (long "a" (word "b") (long "c" (word "d") (word "e")))
    (by decide) (by decide) (by decide) (by decide)
  exact ⟨hcode, fun h => absurd (hiff.1 h) (by decide)⟩

/-- An `else` of the outer conditional is written like one of the inner. -/
theorem code_dangling_else :
    (long "a" (short "b" (word "c")) (word "d")).toExpr ≠
        (short "a" (long "b" (word "c") (word "d"))).toExpr ∧
      (long "a" (short "b" (word "c")) (word "d")).toExpr.code = .ok "if(a)if(b)c;else d" ∧
      (short "a" (long "b" (word "c") (word "d"))).toExpr.code = .ok "if(a)if(b)c;else d" := by
  refine ⟨by decide, rfl, rfl⟩

end Conditional
end JsLisp
