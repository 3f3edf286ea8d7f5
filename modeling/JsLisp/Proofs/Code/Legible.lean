/-
Programs that can be told from their code.

Legible programs keep to the calls whose code shows its callee and its arguments.
Every expression in them reads back, so the decoder is a left inverse of emission
on them, and programs with the same code are the same.
-/
import JsLisp.Proofs.Code.Decode

namespace JsLisp

namespace Code

/-- The calls that the decoder reads: of a name that is no builtin, or of one of
eight builtins, with enough arguments to show which one it is. -/
def isLegibleCall (name : String) (count : Nat) : Bool :=
  (Builtin.find? name).isNone ||
  (["add", "sub", "or", "and"].contains name && 2 ≤ count) ||
  (name == "not" && count == 1) ||
  name == "array" ||
  (name == "object" && count % 2 == 0) ||
  (name == "idx" && count == 2)

theorem isLegibleCall_iff (name : String) (count : Nat) :
    isLegibleCall name count = true ↔
      Builtin.find? name = none ∨ name ∈ ["add", "sub", "or", "and"] ∧ 2 ≤ count ∨
        name = "not" ∧ count = 1 ∨ name = "array" ∨ name = "object" ∧ count % 2 = 0 ∨
        name = "idx" ∧ count = 2 := by
  simp only [isLegibleCall, Bool.or_eq_true, Bool.and_eq_true, Option.isNone_iff_eq_none,
    List.contains_iff_mem, beq_iff_eq, decide_eq_true_eq, or_assoc]

end Code

namespace Expr

mutual

def isLegible : Expr → Bool
  | call callee args =>
    callee.isPlain && Code.isLegibleCall callee.text args.length && isLegibleAll args
  | name n => n.isPlain
  | string _ => true
  | number raw => Text.isNumeral raw.toList

def isLegibleAll : List Expr → Bool
  | [] => true
  | e :: es => isLegible e && isLegibleAll es

end

end Expr

namespace Decoder

theorem eq_lone {callee : Name} (h : callee.isPlain = true) {name : String}
    (htext : callee.text = name) (hname : Text.isWord name.toList = true) :
    callee = ⟨name, []⟩ := by
  refine Name.eq_of_isPlain h ?_ ?_
  · simp [Name.isPlain, Name.segments, hname]
  · rw [htext, Name.text_lone]

section Calls

variable {args : List Expr}

theorem reads_plain (hargs : ∀ x ∈ args, Reads x) {callee : Name} (h : callee.isPlain = true)
    (hname : Builtin.find? callee.text = none) : Reads (.call callee args) := by
  have hform : Code.form callee = .listed (callee.text ++ "(") "," ")" := by
    rw [Code.form, hname]
  exact reads_listed hform (opens_callee h) (by decide) (divides_separator (by decide))
    (fun _ => rfl) (by split <;> rfl) hargs

theorem reads_operator (hargs : ∀ x ∈ args, Reads x) {name sign : String}
    (h : (name, sign) ∈ operators) (hcount : 2 ≤ args.length) :
    Reads (.call ⟨name, []⟩ args) := by
  have hform : Code.form ⟨name, []⟩ = .listed "(" sign ")" := by
    rw [Code.form, Name.text_lone]
    simp only [operators, List.mem_cons, Prod.mk.injEq, List.not_mem_nil, or_false] at h
    rcases h with ⟨rfl, rfl⟩ | ⟨rfl, rfl⟩ | ⟨rfl, rfl⟩ | ⟨rfl, rfl⟩ <;> rfl
  have hopens : Opens ⟨"", []⟩ "(" := fun body frames => rfl
  -- With one argument no sign is written, and any of the four could be meant.
  refine reads_listed hform hopens (by decide) (divides_operator h) (fun _ => rfl) ?_ hargs
  rw [if_neg (by omega)]

theorem reads_not (hargs : ∀ x ∈ args, Reads x) (hcount : args.length = 1) :
    Reads (.call ⟨"not", []⟩ args) := by
  obtain ⟨e, rfl⟩ := List.length_eq_one_iff.1 hcount
  have hseparators : (Code.form ⟨"not", []⟩).separators (Expr.textAll [e]) =
      "!(" :: ([] ++ [")"]) := by
    rw [Code.form, Name.text_lone]
    rfl
  have hopens : Opens ⟨"not", []⟩ "!(" := fun body frames => rfl
  have hdividers : ∀ d ∈ ([] : List String), Divides id d := by simp
  exact reads_bracket hseparators hopens (by decide) rfl hdividers (fun _ => rfl) rfl hargs

theorem reads_array (hargs : ∀ x ∈ args, Reads x) : Reads (.call ⟨"array", []⟩ args) := by
  have hform : Code.form ⟨"array", []⟩ = .listed "[" "," "]" := by
    rw [Code.form, Name.text_lone]
    rfl
  have hopens : Opens ⟨"array", []⟩ "[" := fun body frames => rfl
  exact reads_listed hform hopens (by decide) (divides_separator (by decide)) (fun _ => rfl)
    (by split <;> rfl) hargs

theorem reads_object (hargs : ∀ x ∈ args, Reads x) : Reads (.call ⟨"object", []⟩ args) := by
  have hform : Code.form ⟨"object", []⟩ = .entries := by
    rw [Code.form, Name.text_lone]
    rfl
  have hopens : Opens ⟨"object", []⟩ "\x7b" := fun body frames => rfl
  cases args with
  | nil =>
    have hseparators : (Code.form ⟨"object", []⟩).separators [] = ["\x7b" ++ "\x7d"] := by
      rw [hform]
      rfl
    exact reads_empty hseparators hopens (by decide)
  | cons e es =>
    obtain ⟨dividers, hsucc, hlength, hdividers⟩ := Form.entrySeparators_succ true es.length
    have hseparators : (Code.form ⟨"object", []⟩).separators (Expr.textAll (e :: es)) =
        "\x7b" :: (dividers ++ ["\x7d"]) := by
      rw [hform, ← hsucc]
      simp [Form.separators, Expr.textAll]
    exact reads_bracket hseparators hopens (by decide) hlength
      (fun d hd => divides_separator (hdividers d hd)) (fun _ => rfl) (by split <;> rfl) hargs

/-- An index is a bracket behind an expression, and the expression is its first
argument. -/
theorem reads_idx (hargs : ∀ x ∈ args, Reads x) (hcount : args.length = 2) :
    Reads (.call ⟨"idx", []⟩ args) := by
  obtain ⟨base, index, rfl⟩ : ∃ base index, args = [base, index] := by
    match args, hcount with
    | [base, index], _ => exact ⟨base, index, rfl⟩
  intro body frames
  have htext : (Expr.call ⟨"idx", []⟩ [base, index]).text.toList =
      base.text.toList ++ ('[' :: (index.text.toList ++ [']'])) := by
    have hform : Code.form ⟨"idx", []⟩ = .fixed ["", "[", "]"] := by
      rw [Code.form, Name.text_lone]
      rfl
    simp [Expr.text, hform, Form.emit, Form.separators, weave, Expr.textAll]
  obtain ⟨focus, hpending, hread⟩ := hargs base (by simp) body frames
  obtain ⟨focus', hpending', hread'⟩ :=
    hargs index (by simp) body (⟨⟨"idx", []⟩, [base]⟩ :: frames)
  have hopen : (State.mk body frames focus).step '[' =
      ⟨body, ⟨⟨"idx", []⟩, [base]⟩ :: frames, .want⟩ :=
    step_of_pending hpending (by decide) (by decide)
  refine ⟨_, .done _, ?_⟩
  rw [htext, State.read_append, hread]
  show ((State.mk body frames focus).step '[').read (index.text.toList ++ "]".toList) = _
  rw [hopen, State.read_append, hread',
    read_closing (by decide) body ⟨"idx", []⟩ [base] frames hpending']
  rfl

end Calls

theorem exists_operator {text : String} (h : text ∈ ["add", "sub", "or", "and"]) :
    ∃ name sign, text = name ∧ (name, sign) ∈ operators ∧ Text.isWord name.toList = true := by
  simp only [List.mem_cons, List.not_mem_nil, or_false] at h
  rcases h with h | h | h | h
  · exact ⟨_, "+", h, by decide, by decide⟩
  · exact ⟨_, "-", h, by decide, by decide⟩
  · exact ⟨_, "||", h, by decide, by decide⟩
  · exact ⟨_, "&&", h, by decide, by decide⟩

theorem reads_call {callee : Name} {args : List Expr} (h : callee.isPlain = true)
    (hcall : Code.isLegibleCall callee.text args.length = true) (hargs : ∀ x ∈ args, Reads x) :
    Reads (.call callee args) := by
  rcases (Code.isLegibleCall_iff _ _).1 hcall with hname | ⟨hname, hcount⟩ | ⟨hname, hcount⟩ |
    hname | ⟨hname, -⟩ | ⟨hname, hcount⟩
  · exact reads_plain hargs h hname
  · obtain ⟨name, sign, htext, hsign, hword⟩ := exists_operator hname
    obtain rfl := eq_lone h htext hword
    exact reads_operator hargs hsign hcount
  · obtain rfl := eq_lone h hname (by decide)
    exact reads_not hargs hcount
  · obtain rfl := eq_lone h hname (by decide)
    exact reads_array hargs
  · obtain rfl := eq_lone h hname (by decide)
    exact reads_object hargs
  · obtain rfl := eq_lone h hname (by decide)
    exact reads_idx hargs hcount

mutual

theorem reads_of_isLegible (e : Expr) (h : e.isLegible = true) : Reads e := by
  cases e with
  | call callee args =>
    simp only [Expr.isLegible, Bool.and_eq_true] at h
    exact reads_call h.1.1 h.1.2 (reads_of_isLegibleAll args h.2)
  | name n => exact reads_name h
  | string value => exact reads_string value
  | number raw => exact reads_number h

theorem reads_of_isLegibleAll (es : List Expr) (h : Expr.isLegibleAll es = true) :
    ∀ e ∈ es, Reads e := by
  cases es with
  | nil => simp
  | cons e es =>
    simp only [Expr.isLegibleAll, Bool.and_eq_true] at h
    exact List.forall_mem_cons.2 ⟨reads_of_isLegible e h.1, reads_of_isLegibleAll es h.2⟩

end

/-- The code of a legible program can be read back. -/
theorem decode_text {program : Program} (h : Expr.isLegibleAll program.body = true) :
    decode program.text = program := by
  have hread := finish_read_statements [] program.body (reads_of_isLegibleAll program.body h)
  obtain ⟨body⟩ := program
  exact congrArg Program.mk hread

end Decoder

namespace Code

theorem accepts_of_isLegibleCall {callee : Name} {count : Nat}
    (h : isLegibleCall callee.text count = true) : accepts callee count = true := by
  rcases (isLegibleCall_iff _ _).1 h with hname | ⟨hname, hcount⟩ | ⟨hname, hcount⟩ | hname |
    ⟨hname, hcount⟩ | ⟨hname, hcount⟩
  · rw [accepts, hname]
  · have harity : (Builtin.find? callee.text).map Builtin.arity = some (.atLeast 1) := by
      simp only [List.mem_cons, List.not_mem_nil, or_false] at hname
      rcases hname with hname | hname | hname | hname <;> rw [hname] <;> rfl
    obtain ⟨builtin, hfind, hleast⟩ := Option.map_eq_some_iff.1 harity
    rw [accepts, hfind]
    show builtin.arity.accepts count = true
    rw [hleast, Arity.accepts, decide_eq_true_eq]
    omega
  · rw [accepts, hname, hcount]
    rfl
  · rw [accepts, hname]
    rfl
  · rw [accepts, hname]
    show (count % 2 == 0) = true
    rw [hcount]
    rfl
  · rw [accepts, hname, hcount]
    rfl

end Code

namespace Expr

mutual

theorem counted_of_isLegible (e : Expr) (h : e.isLegible = true) : e.counted = true := by
  cases e with
  | call callee args =>
    simp only [isLegible, Bool.and_eq_true] at h
    simp [counted, Code.accepts_of_isLegibleCall h.1.2, countedAll_of_isLegibleAll args h.2]
  | name n => rfl
  | string value => rfl
  | number raw => rfl

theorem countedAll_of_isLegibleAll (es : List Expr) (h : isLegibleAll es = true) :
    countedAll es = true := by
  cases es with
  | nil => rfl
  | cons e es =>
    simp only [isLegibleAll, Bool.and_eq_true] at h
    simp [countedAll, counted_of_isLegible e h.1, countedAll_of_isLegibleAll es h.2]

end

end Expr

namespace Program

/-- Emission loses no structure of legible programs: they have code, and programs
with the same code are the same. -/
theorem code_injective_of_isLegible (p q : Program) (hp : Expr.isLegibleAll p.body = true)
    (hq : Expr.isLegibleAll q.body = true) (hpn : Expr.nestingAll p.body ≤ maxNesting)
    (hqn : Expr.nestingAll q.body ≤ maxNesting) :
    (∃ code, p.code = .ok code) ∧ (p.code = q.code → p = q) := by
  have hpcode : p.code = .ok p.text :=
    (code_eq_ok_iff p p.text).2 ⟨hpn, Expr.countedAll_of_isLegibleAll p.body hp, rfl⟩
  have hqcode : q.code = .ok q.text :=
    (code_eq_ok_iff q q.text).2 ⟨hqn, Expr.countedAll_of_isLegibleAll q.body hq, rfl⟩
  refine ⟨⟨p.text, hpcode⟩, fun h => ?_⟩
  have htext : p.text = q.text := by
    rw [hpcode, hqcode] at h
    exact Except.ok.inj h
  rw [← Decoder.decode_text hp, htext, Decoder.decode_text hq]

/-- A quote and a comma inside a string are not taken for the end of an argument. -/
theorem code_ne_of_comma_in_string :
    (∃ code, (Program.mk [.call ⟨"f", []⟩ [.string "a\",\"b"]]).code = .ok code) ∧
      (Program.mk [.call ⟨"f", []⟩ [.string "a\",\"b"]]).code ≠
        (Program.mk [.call ⟨"f", []⟩ [.string "a", .string "b"]]).code := by
  obtain ⟨hcode, hinj⟩ := code_injective_of_isLegible
    ⟨[.call ⟨"f", []⟩ [.string "a\",\"b"]]⟩ ⟨[.call ⟨"f", []⟩ [.string "a", .string "b"]]⟩
    (by decide) (by decide) (by decide) (by decide)
  refine ⟨hcode, fun h => ?_⟩
  have heq := hinj h
  simp at heq

end Program
end JsLisp
