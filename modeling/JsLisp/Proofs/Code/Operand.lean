/-
Keywords in front of operands and accesses behind them.

`await` and `typeof` are written in front of their operand, a length or an index
behind it, and neither adds parentheses.  The code shows the keywords and the
accesses but not in which order they were applied, and it reads as if every access
came before every keyword.  `reread` is the operand that the code reads as.  Two
operands have the same code exactly if they read as the same one, and an operand
reads as itself exactly if nothing is accessed that starts with a keyword.
-/
import JsLisp.Proofs.Code.Emission
import JsLisp.Proofs.Code.Lexeme
import JsLisp.Proofs.Expr.Name

namespace JsLisp

inductive Operand
  | word (text : String)
  | call (callee : String) (args : List Operand)
  | prefixed (keyword : String) (operand : Operand)
  | length (operand : Operand)
  | index (operand position : Operand)

namespace Operand

open Code (Lexeme lexemes lexemes_sign lexemes_word)
open Text (Ends isWord)

mutual

def toExpr : Operand → Expr
  | word text => .name ⟨text, []⟩
  | call callee args => .call ⟨callee, []⟩ (toExprAll args)
  | prefixed keyword x => .call ⟨keyword, []⟩ [x.toExpr]
  | length x => .call ⟨"len", []⟩ [x.toExpr]
  | index x i => .call ⟨"idx", []⟩ [x.toExpr, i.toExpr]

def toExprAll : List Operand → List Expr
  | [] => []
  | e :: es => e.toExpr :: toExprAll es

end

mutual

/-- Names and callees are words, no callee is a builtin, and the keywords are the
two that are written in front of an operand. -/
def isPlain : Operand → Bool
  | word text => isWord text.toList
  | call callee args =>
    isWord callee.toList && (Builtin.find? callee).isNone && isPlainAll args
  | prefixed keyword x => ["await", "typeof"].contains keyword && x.isPlain
  | length x => x.isPlain
  | index x i => x.isPlain && i.isPlain

def isPlainAll : List Operand → Bool
  | [] => true
  | e :: es => e.isPlain && isPlainAll es

end

mutual

def chars : Operand → List Char
  | word text => text.toList
  | call callee args => callee.toList ++ '(' :: charsArgs args
  | prefixed keyword x => keyword.toList ++ ' ' :: x.chars
  | length x => x.chars ++ ".length".toList
  | index x i => x.chars ++ '[' :: (i.chars ++ [']'])

def charsArgs : List Operand → List Char
  | [] => [')']
  | e :: es => e.chars ++ charsMore es

def charsMore : List Operand → List Char
  | [] => [')']
  | e :: es => ',' :: (e.chars ++ charsMore es)

end

theorem form_plain {callee : String} (h : Builtin.find? callee = none) :
    Code.form ⟨callee, []⟩ = .listed (callee ++ "(") "," ")" := by
  rw [Code.form, Name.text_lone, h]

theorem form_keyword {keyword : String} (h : keyword ∈ ["await", "typeof"]) :
    Code.form ⟨keyword, []⟩ = .fixed [keyword ++ " ", ""] := by
  rw [Code.form, Name.text_lone]
  revert keyword
  decide

theorem form_length : Code.form ⟨"len", []⟩ = .fixed ["", ".length"] := by
  rw [Code.form, Name.text_lone]
  rfl

theorem form_index : Code.form ⟨"idx", []⟩ = .fixed ["", "[", "]"] := by
  rw [Code.form, Name.text_lone]
  rfl

mutual

theorem toList_text (e : Operand) (h : e.isPlain = true) : e.toExpr.text.toList = e.chars := by
  cases e with
  | word text => rw [toExpr, Expr.text, Name.text_lone, chars]
  | call callee args =>
    simp only [isPlain, Bool.and_eq_true, Option.isNone_iff_eq_none] at h
    rw [toExpr, Expr.text, form_plain h.1.2, chars, Form.emit]
    cases args with
    | nil => simp [toExprAll, Expr.textAll, Form.separators, weave, charsArgs]
    | cons e es =>
      have hparts := h.2
      rw [isPlainAll, Bool.and_eq_true] at hparts
      rw [charsArgs, ← toList_text e hparts.1, ← toList_weave es hparts.2]
      simp [toExprAll, Expr.textAll, Form.separators, weave]
  | prefixed keyword x =>
    simp only [isPlain, Bool.and_eq_true, List.contains_iff_mem] at h
    rw [chars, ← toList_text x h.2]
    simp [toExpr, Expr.text, Expr.textAll, form_keyword h.1, Form.emit, Form.separators, weave]
  | length x =>
    rw [chars, ← toList_text x h]
    simp [toExpr, Expr.text, Expr.textAll, form_length, Form.emit, Form.separators, weave]
  | index x i =>
    rw [isPlain, Bool.and_eq_true] at h
    rw [chars, ← toList_text x h.1, ← toList_text i h.2]
    simp [toExpr, Expr.text, Expr.textAll, form_index, Form.emit, Form.separators, weave]

theorem toList_weave (es : List Operand) (h : isPlainAll es = true) :
    (weave ((Expr.textAll (toExprAll es)).map (fun _ => ",") ++ [")"])
      (Expr.textAll (toExprAll es))).toList = charsMore es := by
  cases es with
  | nil => simp [toExprAll, Expr.textAll, weave, charsMore]
  | cons e es =>
    rw [isPlainAll, Bool.and_eq_true] at h
    rw [charsMore, ← toList_text e h.1, ← toList_weave es h.2]
    simp [toExprAll, Expr.textAll, weave]

end

mutual

theorem counted_toExpr (e : Operand) (h : e.isPlain = true) : e.toExpr.counted = true := by
  cases e with
  | word text => rfl
  | call callee args =>
    simp only [isPlain, Bool.and_eq_true, Option.isNone_iff_eq_none] at h
    have haccepts : Code.accepts ⟨callee, []⟩ (toExprAll args).length = true := by
      rw [Code.accepts, Name.text_lone, h.1.2]
    rw [toExpr, Expr.counted, haccepts, counted_toExprAll args h.2]
    rfl
  | prefixed keyword x =>
    simp only [isPlain, Bool.and_eq_true, List.contains_iff_mem] at h
    have haccepts : Code.accepts ⟨keyword, []⟩ 1 = true := by
      rw [Code.accepts, Name.text_lone]
      have hall : ∀ keyword ∈ ["await", "typeof"], (match Builtin.find? keyword with
        | some builtin => builtin.arity.accepts 1
        | none => true) = true := by decide
      exact hall keyword h.1
    simp [toExpr, Expr.counted, Expr.countedAll, haccepts, counted_toExpr x h.2]
  | length x =>
    have haccepts : Code.accepts ⟨"len", []⟩ 1 = true := by
      rw [Code.accepts, Name.text_lone]
      rfl
    simp [toExpr, Expr.counted, Expr.countedAll, haccepts, counted_toExpr x h]
  | index x i =>
    rw [isPlain, Bool.and_eq_true] at h
    have haccepts : Code.accepts ⟨"idx", []⟩ 2 = true := by
      rw [Code.accepts, Name.text_lone]
      rfl
    simp [toExpr, Expr.counted, Expr.countedAll, haccepts, counted_toExpr x h.1,
      counted_toExpr i h.2]

theorem counted_toExprAll (es : List Operand) (h : isPlainAll es = true) :
    Expr.countedAll (toExprAll es) = true := by
  cases es with
  | nil => rfl
  | cons e es =>
    rw [isPlainAll, Bool.and_eq_true] at h
    rw [toExprAll, Expr.countedAll, counted_toExpr e h.1, counted_toExprAll es h.2]
    rfl

end

theorem code_eq_text {e : Operand} (h : e.isPlain = true)
    (hnesting : e.toExpr.nesting ≤ maxNesting) : e.toExpr.code = .ok e.toExpr.text :=
  (Expr.code_eq_ok_iff _ _).2 ⟨hnesting, e.counted_toExpr h, rfl⟩

/-- Apply an access to what stands behind the keywords. -/
def inward (access : Operand → Operand) : Operand → Operand
  | prefixed keyword x => prefixed keyword (x.inward access)
  | word text => access (word text)
  | call callee args => access (call callee args)
  | length x => access (length x)
  | index x i => access (index x i)

mutual

def reread : Operand → Operand
  | word text => word text
  | call callee args => call callee (rereadAll args)
  | prefixed keyword x => prefixed keyword x.reread
  | length x => x.reread.inward length
  | index x i => x.reread.inward fun x => index x i.reread

def rereadAll : List Operand → List Operand
  | [] => []
  | e :: es => e.reread :: rereadAll es

end

def isPrefixed : Operand → Bool
  | prefixed _ _ => true
  | _ => false

mutual

/-- No access is applied to an operand with a keyword in front. -/
def isBound : Operand → Bool
  | word _ => true
  | call _ args => isBoundAll args
  | prefixed _ x => x.isBound
  | length x => !x.isPrefixed && x.isBound
  | index x i => !x.isPrefixed && x.isBound && i.isBound

def isBoundAll : List Operand → Bool
  | [] => true
  | e :: es => e.isBound && isBoundAll es

end

theorem inward_of_not_isPrefixed {x : Operand} (h : x.isPrefixed = false)
    (access : Operand → Operand) : x.inward access = access x := by
  cases x with
  | prefixed keyword x => cases h
  | _ => rfl

theorem isPrefixed_inward {x : Operand} (h : x.isPrefixed = true) (access : Operand → Operand) :
    (x.inward access).isPrefixed = true := by
  cases x with
  | prefixed keyword x => rfl
  | _ => cases h

/-- An access stays outermost exactly if it has no keyword to pass. -/
theorem inward_eq_iff {z : Operand} (h : z.isPrefixed = false) (access : Operand → Operand)
    (x : Operand) : x.inward access = z ↔ x.isPrefixed = false ∧ access x = z := by
  cases hprefixed : x.isPrefixed with
  | false => rw [inward_of_not_isPrefixed hprefixed, eq_self, true_and]
  | true =>
    refine iff_of_false (fun heq => ?_) (fun hand => Bool.noConfusion hand.1)
    have hinward := isPrefixed_inward hprefixed access
    rw [heq, h] at hinward
    cases hinward

mutual

theorem reread_eq_self_iff (e : Operand) : e.reread = e ↔ e.isBound = true := by
  cases e with
  | word text => exact iff_of_true rfl rfl
  | call callee args =>
    rw [reread, isBound, ← rereadAll_eq_self_iff args, call.injEq, eq_self, true_and]
  | prefixed keyword x =>
    rw [reread, isBound, ← reread_eq_self_iff x, prefixed.injEq, eq_self, true_and]
  | length x =>
    rw [reread, isBound, Bool.and_eq_true, Bool.not_eq_true', ← reread_eq_self_iff x,
      inward_eq_iff rfl, length.injEq]
    exact and_congr_left fun h => by rw [h]
  | index x i =>
    rw [reread, isBound, Bool.and_eq_true, Bool.and_eq_true, Bool.not_eq_true', and_assoc,
      ← reread_eq_self_iff x, ← reread_eq_self_iff i, inward_eq_iff rfl, index.injEq]
    exact and_congr_left fun h => by rw [h.1]

theorem rereadAll_eq_self_iff (es : List Operand) :
    rereadAll es = es ↔ isBoundAll es = true := by
  cases es with
  | nil => exact iff_of_true rfl rfl
  | cons e es =>
    rw [rereadAll, isBoundAll, Bool.and_eq_true, ← reread_eq_self_iff e,
      ← rereadAll_eq_self_iff es, List.cons.injEq]

end

/-! ## Operands with the same code -/

theorem chars_inward {access : Operand → Operand} {suffix : List Char}
    (h : ∀ y, (access y).chars = y.chars ++ suffix) (x : Operand) :
    (x.inward access).chars = x.chars ++ suffix := by
  cases x with
  | prefixed keyword x => simp [inward, chars, chars_inward h x]
  | _ => exact h _

mutual

theorem chars_reread (e : Operand) : e.reread.chars = e.chars := by
  cases e with
  | word text => rfl
  | call callee args => rw [reread, chars, charsArgs_rereadAll args, chars]
  | prefixed keyword x => rw [reread, chars, chars_reread x, chars]
  | length x =>
    rw [reread, chars_inward (fun y => by rw [chars]), chars_reread x, chars]
  | index x i =>
    rw [reread, chars_inward (fun y => by rw [chars]), chars_reread x, chars_reread i, chars]

theorem charsArgs_rereadAll (es : List Operand) : charsArgs (rereadAll es) = charsArgs es := by
  cases es with
  | nil => rfl
  | cons e es => rw [rereadAll, charsArgs, chars_reread e, charsMore_rereadAll es, charsArgs]

theorem charsMore_rereadAll (es : List Operand) : charsMore (rereadAll es) = charsMore es := by
  cases es with
  | nil => rfl
  | cons e es => rw [rereadAll, charsMore, chars_reread e, charsMore_rereadAll es, charsMore]

end

/-- Keywords in front of an operand, the first one next to it. -/
def wrap (keywords : List String) (e : Operand) : Operand :=
  keywords.foldl (fun e keyword => prefixed keyword e) e

theorem inward_wrap (access : Operand → Operand) (keywords : List String) (e : Operand) :
    (wrap keywords e).inward access = wrap keywords (e.inward access) := by
  induction keywords generalizing e with
  | nil => rfl
  | cons keyword keywords ih => exact ih (prefixed keyword e)

/-- A bracket that is still open.  The arguments of a call are kept latest first. -/
inductive Frame
  | call (keywords : List String) (callee : String) (args : List Operand)
  | index (operand : Operand)

mutual

/-- Read an operand behind keywords, the latest one first.  `resume` goes on behind
an operand. -/
def decode : List Frame → List String → List Lexeme → Option Operand
  | .call outer callee [] :: frames, _, .sign ')' :: ls =>
    resume frames (wrap outer (call callee [])) ls
  | frames, keywords, .word cs :: .sign ' ' :: ls =>
    decode frames (String.ofList cs :: keywords) ls
  | frames, keywords, .word cs :: .sign '(' :: ls =>
    decode (.call keywords (String.ofList cs) [] :: frames) [] ls
  | frames, keywords, .word cs :: ls => resume frames (wrap keywords (word (String.ofList cs))) ls
  | _, _, _ => none

def resume : List Frame → Operand → List Lexeme → Option Operand
  | [], e, [] => some e
  | frames, e, .sign '.' :: .word _ :: ls => resume frames (e.inward length) ls
  | frames, e, .sign '[' :: ls => decode (.index e :: frames) [] ls
  | .call keywords callee args :: frames, e, .sign ',' :: ls =>
    decode (.call keywords callee (e :: args) :: frames) [] ls
  | .call keywords callee args :: frames, e, .sign ')' :: ls =>
    resume frames (wrap keywords (call callee (e :: args).reverse)) ls
  | .index x :: frames, e, .sign ']' :: ls => resume frames (x.inward fun x => index x e) ls
  | _, _, _ => none

end

/-- Behind an operand stands nothing or one of these signs. -/
def Follows (rest : List Char) : Prop :=
  ∀ c, rest.head? = some c → c ∈ ['.', '[', ',', ')', ']']

theorem Follows.ends {rest : List Char} (h : Follows rest) : Ends Char.isAlphanum rest := by
  intro c hc
  have hall : (['.', '[', ',', ')', ']'].all fun c => !c.isAlphanum) = true := rfl
  simpa using List.all_eq_true.1 hall c (h c hc)

theorem follows_cons {c : Char} (rest : List Char) (h : c ∈ ['.', '[', ',', ')', ']']) :
    Follows (c :: rest) := by
  intro d hd
  cases hd
  exact h

theorem follows_charsMore (es : List Operand) (rest : List Char) :
    Follows (charsMore es ++ rest) := by
  cases es <;> exact follows_cons _ (by decide)

theorem decode_word (frames : List Frame) (keywords : List String) (text : String)
    {rest : List Char} (hrest : Follows rest) :
    decode frames keywords (.word text.toList :: lexemes rest) =
      resume frames (wrap keywords (word text)) (lexemes rest) := by
  cases rest with
  | nil => simp [lexemes, decode]
  | cons c rest =>
    have hc := hrest c rfl
    rw [lexemes_sign (hrest.ends c rfl), decode, String.ofList_toList]
    -- The sign is neither the blank behind a keyword nor the parenthesis of a call.
    · rintro _ ⟨⟩
      exact absurd hc (by decide)
    · rintro _ ⟨⟩
      exact absurd hc (by decide)

mutual

theorem decode_chars (e : Operand) (h : e.isPlain = true) (frames : List Frame)
    (keywords : List String) {rest : List Char} (hrest : Follows rest) :
    decode frames keywords (lexemes (e.chars ++ rest)) =
      resume frames (wrap keywords e.reread) (lexemes rest) := by
  cases e with
  | word text =>
    rw [chars, lexemes_word h hrest.ends, decode_word frames keywords text hrest, reread]
  | call callee args =>
    simp only [isPlain, Bool.and_eq_true] at h
    rw [chars, List.append_assoc, List.cons_append,
      lexemes_word h.1.1 (Text.ends_cons _ (by decide)), lexemes_sign (by decide), decode,
      String.ofList_toList, decode_charsArgs args h.2, reread]
  | prefixed keyword x =>
    simp only [isPlain, Bool.and_eq_true, List.contains_iff_mem] at h
    have hkeyword : ∀ keyword ∈ ["await", "typeof"], isWord keyword.toList = true := by decide
    rw [chars, List.append_assoc, List.cons_append,
      lexemes_word (hkeyword keyword h.1) (Text.ends_cons _ (by decide)),
      lexemes_sign (by decide), decode, String.ofList_toList, decode_chars x h.2 _ _ hrest, reread]
    rfl
  | length x =>
    have hlexemes : lexemes (".length".toList ++ rest) =
        .sign '.' :: .word "length".toList :: lexemes rest := by
      show lexemes ('.' :: ("length".toList ++ rest)) = _
      rw [lexemes_sign (by decide), lexemes_word (by decide) hrest.ends]
    have hfollows : Follows (".length".toList ++ rest) := follows_cons _ (by decide)
    -- The keywords are already in front of `x` when its length is read.
    rw [chars, List.append_assoc, decode_chars x h frames keywords hfollows, hlexemes, resume,
      inward_wrap, reread]
  | index x i =>
    rw [isPlain, Bool.and_eq_true] at h
    rw [chars, List.append_assoc, List.cons_append, List.append_assoc, List.singleton_append,
      decode_chars x h.1 frames keywords (follows_cons _ (by decide)), lexemes_sign (by decide),
      resume, decode_chars i h.2 _ [] (follows_cons _ (by decide)), lexemes_sign (by decide),
      resume, inward_wrap, reread]
    rfl

theorem decode_charsArgs (es : List Operand) (h : isPlainAll es = true) (frames : List Frame)
    (keywords : List String) (callee : String) (rest : List Char) :
    decode (.call keywords callee [] :: frames) [] (lexemes (charsArgs es ++ rest)) =
      resume frames (wrap keywords (call callee (rereadAll es))) (lexemes rest) := by
  cases es with
  | nil =>
    rw [charsArgs, List.cons_append, List.nil_append, lexemes_sign (by decide), decode, rereadAll]
  | cons e es =>
    rw [isPlainAll, Bool.and_eq_true] at h
    rw [charsArgs, List.append_assoc, decode_chars e h.1 _ [] (follows_charsMore es rest),
      resume_charsMore es h.2, rereadAll]
    rfl

theorem resume_charsMore (es : List Operand) (h : isPlainAll es = true) (frames : List Frame)
    (keywords : List String) (callee : String) (args : List Operand) (e : Operand)
    (rest : List Char) :
    resume (.call keywords callee args :: frames) e (lexemes (charsMore es ++ rest)) =
      resume frames (wrap keywords (call callee ((e :: args).reverse ++ rereadAll es)))
        (lexemes rest) := by
  cases es with
  | nil =>
    rw [charsMore, List.cons_append, List.nil_append, lexemes_sign (by decide), resume, rereadAll,
      List.append_nil]
  | cons x es =>
    rw [isPlainAll, Bool.and_eq_true] at h
    rw [charsMore, List.cons_append, List.append_assoc, lexemes_sign (by decide), resume,
      decode_chars x h.1 _ [] (follows_charsMore es rest), resume_charsMore es h.2, rereadAll]
    simp [wrap]

end

theorem decode_text {e : Operand} (h : e.isPlain = true) :
    decode [] [] (lexemes e.toExpr.text.toList) = some e.reread := by
  have hdecode := @decode_chars e h [] [] [] (fun c hc => by cases hc)
  rw [List.append_nil] at hdecode
  rw [toList_text e h, hdecode]
  rfl

theorem text_eq_text_iff {d e : Operand} (hd : d.isPlain = true) (he : e.isPlain = true) :
    d.toExpr.text = e.toExpr.text ↔ d.reread = e.reread := by
  constructor
  · intro h
    have hdecode := decode_text hd
    rw [h, decode_text he] at hdecode
    exact (Option.some.inj hdecode).symm
  · intro h
    rw [← String.toList_inj, toList_text d hd, toList_text e he, ← chars_reread d, h,
      chars_reread]

/-- Operands have code, and two have the same code exactly if they read as the same
operand.  One reads as itself exactly if no length or index is taken of an operand
with a keyword in front. -/
theorem code_eq_code_iff_inward (d e : Operand) (hd : d.isPlain = true) (he : e.isPlain = true)
    (hdn : d.toExpr.nesting ≤ maxNesting) (hen : e.toExpr.nesting ≤ maxNesting) :
    (∃ code, d.toExpr.code = .ok code) ∧
      (d.toExpr.code = e.toExpr.code ↔ d.reread = e.reread) ∧
      (d.reread = d ↔ d.isBound = true) := by
  refine ⟨⟨_, code_eq_text hd hdn⟩, ?_, reread_eq_self_iff d⟩
  rw [code_eq_text hd hdn, code_eq_text he hen, Except.ok.injEq, text_eq_text_iff hd he]

/-- A keyword inside brackets is told from one in front of them. -/
theorem code_ne_of_keyword_in_position :
    (∃ code, (index (word "a") (prefixed "await" (call "f" []))).toExpr.code = .ok code) ∧
      (index (word "a") (prefixed "await" (call "f" []))).toExpr.code ≠
        (prefixed "await" (index (word "a") (call "f" []))).toExpr.code := by
  obtain ⟨hcode, hiff, -⟩ := code_eq_code_iff_inward
    (index (word "a") (prefixed "await" (call "f" [])))
    (prefixed "await" (index (word "a") (call "f" [])))
    (by decide) (by decide) (by decide) (by decide)
  refine ⟨hcode, fun h => ?_⟩
  cases hiff.1 h

/-- The length of what is awaited is written like awaiting the length. -/
theorem code_length_of_await :
    (length (prefixed "await" (word "x"))).toExpr ≠ (prefixed "await" (length (word "x"))).toExpr ∧
      (length (prefixed "await" (word "x"))).toExpr.code = .ok "await x.length" ∧
      (prefixed "await" (length (word "x"))).toExpr.code = .ok "await x.length" := by
  refine ⟨by decide, rfl, rfl⟩

end Operand
end JsLisp
