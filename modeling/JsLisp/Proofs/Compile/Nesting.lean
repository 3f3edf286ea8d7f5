/-
The parser and the emitter refuse the same nesting.

The parser counts the calls that are open when it meets a parenthesis, the emitter
the calls that it stands in when it meets a call.  `Expr.CallAt` says without
counting how deep a call of an expression stands, and both refuse a program exactly
if it has a call that stands deeper than the limit.  So a program that was parsed is
never refused for its depth again.
-/
import JsLisp.Proofs.Compile.Stages

namespace JsLisp

namespace Expr

/-- A call of the expression stands in `depth` calls, itself included. -/
inductive CallAt : Nat → Expr → Prop
  | here (callee : Name) (args : List Expr) : CallAt 1 (call callee args)
  | inside {depth : Nat} {e : Expr} {args : List Expr} (callee : Name) (hmem : e ∈ args)
    (h : CallAt depth e) : CallAt (depth + 1) (call callee args)

theorem nesting_le_nestingAll {e : Expr} {es : List Expr} (h : e ∈ es) :
    e.nesting ≤ nestingAll es := by
  induction es with
  | nil => cases h
  | cons first es ih =>
    rw [nestingAll]
    rcases List.mem_cons.1 h with rfl | hmem
    · exact Nat.le_max_left _ _
    · exact Nat.le_trans (ih hmem) (Nat.le_max_right _ _)

theorem CallAt.le_nesting {depth : Nat} {e : Expr} (h : CallAt depth e) : depth ≤ e.nesting := by
  induction h with
  | here callee args =>
    rw [nesting]
    omega
  | inside callee hmem _ ih =>
    have hle := nesting_le_nestingAll hmem
    rw [nesting]
    omega

mutual

theorem callAt_nesting (e : Expr) (h : 0 < e.nesting) : CallAt e.nesting e := by
  cases e with
  | call callee args =>
    rw [nesting]
    by_cases hargs : 0 < nestingAll args
    · obtain ⟨e, hmem, hcall⟩ := exists_callAt_nestingAll args hargs
      exact .inside callee hmem hcall
    · have hzero : nestingAll args = 0 := by omega
      rw [hzero]
      exact .here callee args
  | name n | string value | number raw =>
    rw [nesting] at h
    omega

theorem exists_callAt_nestingAll (es : List Expr) (h : 0 < nestingAll es) :
    ∃ e ∈ es, CallAt (nestingAll es) e := by
  cases es with
  | nil =>
    rw [nestingAll] at h
    omega
  | cons e es =>
    rw [nestingAll] at h ⊢
    by_cases hle : nestingAll es ≤ e.nesting
    · rw [Nat.max_eq_left hle] at h ⊢
      exact ⟨e, List.mem_cons_self, callAt_nesting e h⟩
    · have hge : e.nesting ≤ nestingAll es := by omega
      rw [Nat.max_eq_right hge] at h ⊢
      obtain ⟨deepest, hmem, hcall⟩ := exists_callAt_nestingAll es h
      exact ⟨deepest, List.mem_cons_of_mem e hmem, hcall⟩

end

theorem lt_nestingAll_iff (limit : Nat) (es : List Expr) :
    limit < nestingAll es ↔ ∃ e ∈ es, ∃ depth, limit < depth ∧ CallAt depth e := by
  constructor
  · intro h
    obtain ⟨e, hmem, hcall⟩ := exists_callAt_nestingAll es (by omega)
    exact ⟨e, hmem, nestingAll es, h, hcall⟩
  · rintro ⟨e, hmem, depth, hlt, hcall⟩
    have hle := hcall.le_nesting
    have hle' := nesting_le_nestingAll hmem
    omega

/-- Both causes are passed on from a part to the whole. -/
theorem cause_mono {error : EmitError} {deep deep' counts counts' : Prop}
    (h : if error = .tooDeep then deep else counts) (hdeep : deep → deep')
    (hcounts : counts → counts') : if error = .tooDeep then deep' else counts' := by
  split at h
  · rename_i herror
    rw [if_pos herror]
    exact hdeep h
  · rename_i herror
    rw [if_neg herror]
    exact hcounts h

mutual

/-- The error says which condition fails: the depth, or the number of arguments of
some builtin. -/
theorem cause_of_codeAt (e : Expr) {depth : Nat} {error : EmitError}
    (h : e.codeAt depth = .error error) :
    if error = .tooDeep then maxNesting < depth + e.nesting else e.counted = false := by
  cases e with
  | call callee args =>
    rw [nesting, counted]
    rcases codeAt_call_eq_error h with ⟨hfull, rfl⟩ | ⟨hroom, hargs⟩ | ⟨hroom, codes, hcodes, hcall⟩
    · rw [if_pos rfl]
      omega
    · refine cause_mono (cause_of_codesAt args hargs) (fun hdeep => by omega) fun hcounts => ?_
      rw [hcounts, Bool.and_false]
    · obtain ⟨hdeep, hcount⟩ := Code.call_eq_error hcall
      -- The arguments are written, so there are as many codes as arguments.
      have hdepth : depth + 1 ≤ maxNesting := by omega
      obtain ⟨-, -, rfl⟩ := (codesAt_eq_ok_iff args hdepth codes).1 hcodes
      rw [length_textAll] at hcount
      rw [if_neg hdeep, hcount, Bool.false_and]
  | name n | string value | number raw => cases h

theorem cause_of_codesAt (es : List Expr) {depth : Nat} {error : EmitError}
    (h : codesAt es depth = .error error) :
    if error = .tooDeep then maxNesting < depth + nestingAll es else countedAll es = false := by
  cases es with
  | nil => cases h
  | cons e es =>
    rw [nestingAll, countedAll]
    rcases codesAt_cons_eq_error h with hfirst | hrest
    · refine cause_mono (cause_of_codeAt e hfirst) (fun hdeep => by omega) fun hcounts => ?_
      rw [hcounts, Bool.false_and]
    · refine cause_mono (cause_of_codesAt es hrest) (fun hdeep => by omega) fun hcounts => ?_
      rw [hcounts, Bool.and_false]

end

end Expr

namespace Program

/-- A call of the program stands deeper than `limit`. -/
def HasCallBeyond (program : Program) (limit : Nat) : Prop :=
  ∃ e ∈ program.body, ∃ depth, limit < depth ∧ e.CallAt depth

theorem hasCallBeyond_iff (program : Program) (limit : Nat) :
    program.HasCallBeyond limit ↔ limit < program.nesting :=
  (Expr.lt_nestingAll_iff limit program.body).symm

theorem cause_of_code {program : Program} {error : EmitError} (h : program.code = .error error) :
    if error = .tooDeep then maxNesting < program.nesting
    else Expr.countedAll program.body = false := by
  rw [code_eq_bind, Expr.bind_eq_error_iff] at h
  rcases h with h | ⟨codes, -, h⟩
  · have hcause := Expr.cause_of_codesAt program.body h
    rwa [Nat.zero_add] at hcause
  · cases h

theorem code_eq_tooDeep {program : Program} (hcounted : Expr.countedAll program.body = true)
    (hdeep : maxNesting < program.nesting) : program.code = .error .tooDeep := by
  cases hcode : program.code with
  | ok code =>
    have hfits : program.nesting ≤ maxNesting := ((code_eq_ok_iff program code).1 hcode).1
    omega
  | error error =>
    have hcause := cause_of_code hcode
    split at hcause
    · rename_i herror
      rw [herror]
    · rw [hcounted] at hcause
      cases hcause

theorem code_eq_ok_text {program : Program} (hcounted : Expr.countedAll program.body = true)
    (hfits : program.nesting ≤ maxNesting) : program.code = .ok program.text :=
  (code_eq_ok_iff program program.text).2 ⟨hfits, hcounted, rfl⟩

end Program

/-! ## Both limits -/

theorem nesting_le_of_parse {source : String} {program : Program}
    (h : parse source = .ok program) : program.nesting ≤ maxNesting := by
  obtain ⟨tokens, -, hparse⟩ := (parse_eq_ok_iff source program).1 h
  exact Parser.nesting_le_of_parse hparse (Parser.yields_of_parse hparse)

theorem compile_ne_tooDeep (source : String) : compile source ≠ .error (.emit .tooDeep) := by
  intro h
  cases hprogram : parse source with
  | error error =>
    have herror : error = .emit .tooDeep := by
      simpa [compile, hprogram, bind, Except.bind] using h
    rcases cause_of_parse hprogram with ⟨cause, hcause⟩ | ⟨cause, hcause⟩
    · cases hcause.symm.trans herror
    · cases hcause.symm.trans herror
  | ok program =>
    have hfits := nesting_le_of_parse hprogram
    rw [compile_of_parse hprogram, mapError_eq_error_iff] at h
    obtain ⟨cause, hcode, hcause⟩ := h
    cases hcause
    have hdeep : maxNesting < program.nesting := Program.cause_of_code hcode
    omega

/-- No source is refused for its depth by the emitter.  A program in which every
builtin takes the number of its arguments is refused for its depth by the emitter
exactly if its tokens are by the parser, and exactly if it has a call that stands in
more than 256 calls, itself included; otherwise its code is written and its tokens are
read back. -/
theorem nesting_limits_agree :
    (∀ source : String, compile source ≠ .error (.emit .tooDeep)) ∧
    ∀ program : Program, Expr.countedAll program.body = true →
      (program.code = .error .tooDeep ↔
        (Parser.mk program.tokens).parse.1 = .error .tooDeep) ∧
      ((Parser.mk program.tokens).parse.1 = .error .tooDeep ↔ program.HasCallBeyond 256) ∧
      (¬ program.HasCallBeyond 256 →
        program.code = .ok program.text ∧
          (Parser.mk program.tokens).parse.1 = .ok program) := by
  refine ⟨compile_ne_tooDeep, fun program hcounted => ?_⟩
  have hbeyond : program.HasCallBeyond 256 ↔ maxNesting < program.nesting :=
    program.hasCallBeyond_iff maxNesting
  rw [hbeyond]
  by_cases hdeep : maxNesting < program.nesting
  · have hcode := Program.code_eq_tooDeep hcounted hdeep
    have hparse := Parser.parse_tokens_tooDeep hdeep
    simp [hcode, hparse, hdeep]
  · have hfits : program.nesting ≤ maxNesting := by omega
    have hcode := Program.code_eq_ok_text hcounted hfits
    have hparse := Parser.parse_tokens hfits
    simp [hcode, hparse, hdeep]

/-- So many calls around a number. -/
def Expr.tower : Nat → Expr
  | 0 => .number "1"
  | n + 1 => .call ⟨"f", []⟩ [tower n]

theorem Expr.counted_tower (n : Nat) : (tower n).counted = true := by
  induction n with
  | zero => rfl
  | succ n ih =>
    rw [tower, counted, countedAll, ih]
    rfl

theorem Expr.nesting_tower (n : Nat) : (tower n).nesting = n := by
  induction n with
  | zero => rfl
  | succ n ih => rw [tower, nesting, nestingAll, nestingAll, ih, Nat.max_zero]

/-- Two towers side by side, as high as they may be and with the second one call higher. -/
theorem nesting_limits_agree_towers :
    (Program.code ⟨[.tower 256, .tower 257]⟩ = .error .tooDeep ∧
      (Parser.mk (Program.tokens ⟨[.tower 256, .tower 257]⟩)).parse.1 = .error .tooDeep) ∧
    Program.code ⟨[.tower 256, .tower 256]⟩ = .ok (Program.text ⟨[.tower 256, .tower 256]⟩) ∧
    (Parser.mk (Program.tokens ⟨[.tower 256, .tower 256]⟩)).parse.1 =
      .ok ⟨[.tower 256, .tower 256]⟩ := by
  have hcounted (m n : Nat) : Expr.countedAll [.tower m, .tower n] = true := by
    simp [Expr.countedAll, Expr.counted_tower]
  have hnesting (m n : Nat) : Program.nesting ⟨[.tower m, .tower n]⟩ = max m n := by
    simp [Program.nesting, Expr.nestingAll, Expr.nesting_tower]
  obtain ⟨hcode, hparse, -⟩ :=
    nesting_limits_agree.2 ⟨[.tower 256, .tower 257]⟩ (hcounted 256 257)
  have hdeep := hparse.2 ((Program.hasCallBeyond_iff _ 256).2 (by rw [hnesting]; decide))
  obtain ⟨-, -, hfits⟩ :=
    nesting_limits_agree.2 ⟨[.tower 256, .tower 256]⟩ (hcounted 256 256)
  refine ⟨⟨hcode.2 hdeep, hdeep⟩, hfits fun hbeyond => ?_⟩
  have hlt := (Program.hasCallBeyond_iff _ 256).1 hbeyond
  rw [hnesting] at hlt
  omega

end JsLisp
