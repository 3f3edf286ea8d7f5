/-
What emission writes, and when.

Emission threads a count and may fail.  The count is the same after as before, so
`Expr.codeAt` takes it as an argument instead, and `run_emit` says that nothing is
lost.  The text depends neither on the count nor on the limits: `Expr.text` is the
code of an expression written without looking at them, and emission returns it
exactly if the calls nest within the limit and every builtin has a number of
arguments that it takes.
-/
import JsLisp.Code.Emit
import JsLisp.Proofs.Action

namespace JsLisp

namespace Code

/-- The form of a call, the builtin's or that of a plain call. -/
def form (callee : Name) : Form :=
  match Builtin.find? callee.text with
  | some builtin => builtin.form
  | none => .listed (callee.text ++ "(") "," ")"

/-- Whether the callee takes that many arguments.  Only builtins refuse any. -/
def accepts (callee : Name) (count : Nat) : Bool :=
  match Builtin.find? callee.text with
  | some builtin => builtin.arity.accepts count
  | none => true

theorem call_eq_ok_iff (callee : Name) (args : List String) (code : String) :
    call callee args = .ok code ↔
      accepts callee args.length = true ∧ code = (form callee).emit args := by
  cases hfind : Builtin.find? callee.text with
  | none =>
    simp only [call, accepts, form, hfind, Except.ok.injEq, true_and]
    exact eq_comm
  | some builtin =>
    simp only [call, accepts, form, hfind]
    by_cases hcount : builtin.arity.accepts args.length = true
    · simp only [hcount, if_true, Except.ok.injEq, true_and]
      exact eq_comm
    · simp [hcount]

theorem call_eq_error {callee : Name} {args : List String} {error : EmitError}
    (h : call callee args = .error error) :
    error ≠ .tooDeep ∧ accepts callee args.length = false := by
  cases hfind : Builtin.find? callee.text with
  | none =>
    simp only [call, hfind] at h
    cases h
  | some builtin =>
    simp only [call, hfind] at h
    simp only [accepts, hfind]
    by_cases hcount : builtin.arity.accepts args.length = true
    · rw [if_pos hcount] at h
      cases h
    · rw [if_neg hcount] at h
      cases h
      exact ⟨by simp, by simpa using hcount⟩

theorem statements_singleton (code : String) : statements [code] = code := by
  simp [statements]

theorem statements_cons (code next : String) (codes : List String) :
    statements (code :: next :: codes) = code ++ ";" ++ statements (next :: codes) := by
  rw [← String.toList_inj]
  simp [statements]

end Code

namespace EmitM

section Bind

variable {α β : Type} {action : EmitM α} {depth : Nat}

/-- An action that leaves the count alone, with one behind it that does too. -/
theorem run_bind {result : Except EmitError α} {next : α → EmitM β}
    {outcome : α → Except EmitError β} (h : action.run depth = (result, depth))
    (hnext : ∀ a, (next a).run depth = (outcome a, depth)) :
    (action >>= next).run depth = (result.bind outcome, depth) := by
  cases result with
  | ok a => rw [Action.run_bind_ok h, hnext]; rfl
  | error error => rw [Action.run_bind_error h]; rfl

end Bind

theorem run_checkDepth (depth : Nat) :
    checkDepth.run depth =
      (if maxNesting ≤ depth then .error .tooDeep else .ok (), depth) := by
  show (if maxNesting ≤ depth then throw EmitError.tooDeep else pure () : EmitM Unit).run depth = _
  split <;> rfl

theorem run_nested {α : Type} {action : EmitM α} {result : Except EmitError α} {depth : Nat}
    (h : action.run (depth + 1) = (result, depth + 1)) :
    (nested action).run depth = (result, depth) := by
  show ((action.run (depth + 1)).1, (action.run (depth + 1)).2 - 1) = _
  rw [h]
  rfl

end EmitM

namespace Expr

mutual

def codeAt : Expr → Nat → Except EmitError String
  | call callee args, depth =>
    if maxNesting ≤ depth then .error .tooDeep
    else (codesAt args (depth + 1)).bind (Code.call callee)
  | name n, _ => .ok n.text
  | string value, _ => .ok (Code.stringLiteral value)
  | number raw, _ => .ok raw

def codesAt : List Expr → Nat → Except EmitError (List String)
  | [], _ => .ok []
  | e :: es, depth =>
    (codeAt e depth).bind fun code => (codesAt es depth).bind fun codes => .ok (code :: codes)

end

mutual

theorem run_emit (e : Expr) (depth : Nat) : e.emit.run depth = (e.codeAt depth, depth) := by
  cases e with
  | call callee args =>
    have hcall := EmitM.run_bind (EmitM.run_nested (run_emitAll args (depth + 1)))
      (fun codes => Action.run_liftExcept (Code.call callee codes) depth)
    rw [emit, EmitM.run_bind (EmitM.run_checkDepth depth) (fun _ => hcall), codeAt]
    split <;> rfl
  | name n => rfl
  | string value => rfl
  | number raw => rfl

theorem run_emitAll (es : List Expr) (depth : Nat) :
    (emitAll es).run depth = (codesAt es depth, depth) := by
  cases es with
  | nil => rfl
  | cons e es =>
    rw [emitAll, codesAt]
    exact EmitM.run_bind (run_emit e depth) fun code =>
      EmitM.run_bind (run_emitAll es depth) fun codes => rfl

end

/-! ## The text -/

mutual

def text : Expr → String
  | call callee args => (Code.form callee).emit (textAll args)
  | name n => n.text
  | string value => Code.stringLiteral value
  | number raw => raw

def textAll : List Expr → List String
  | [] => []
  | e :: es => text e :: textAll es

end

mutual

/-- Every builtin is called with a number of arguments that it takes. -/
def counted : Expr → Bool
  | call callee args => Code.accepts callee args.length && countedAll args
  | name _ => true
  | string _ => true
  | number _ => true

def countedAll : List Expr → Bool
  | [] => true
  | e :: es => counted e && countedAll es

end

theorem counted_of_mem {es : List Expr} (h : countedAll es = true) :
    ∀ e ∈ es, e.counted = true := by
  induction es with
  | nil => exact fun e he => absurd he List.not_mem_nil
  | cons e es ih =>
    rw [countedAll, Bool.and_eq_true] at h
    exact List.forall_mem_cons.2 ⟨h.1, ih h.2⟩

@[simp]
theorem length_textAll (es : List Expr) : (textAll es).length = es.length := by
  induction es with
  | nil => rfl
  | cons e es ih => rw [textAll, List.length_cons, List.length_cons, ih]

theorem bind_eq_ok_iff {α β : Type} (result : Except EmitError α) (next : α → Except EmitError β)
    (b : β) : result.bind next = .ok b ↔ ∃ a, result = .ok a ∧ next a = .ok b := by
  cases result <;> simp [Except.bind]

theorem bind_eq_error_iff {α β : Type} (result : Except EmitError α)
    (next : α → Except EmitError β) (error : EmitError) :
    result.bind next = .error error ↔
      result = .error error ∨ ∃ a, result = .ok a ∧ next a = .error error := by
  cases result <;> simp [Except.bind]

/-- A call fails for its depth, in its arguments, or for their number. -/
theorem codeAt_call_eq_error {callee : Name} {args : List Expr} {depth : Nat}
    {error : EmitError} (h : (call callee args).codeAt depth = .error error) :
    (maxNesting ≤ depth ∧ error = .tooDeep) ∨
    (depth < maxNesting ∧ codesAt args (depth + 1) = .error error) ∨
    (depth < maxNesting ∧
      ∃ codes, codesAt args (depth + 1) = .ok codes ∧ Code.call callee codes = .error error) := by
  rw [codeAt] at h
  by_cases hfull : maxNesting ≤ depth
  · rw [if_pos hfull] at h
    cases h
    exact .inl ⟨hfull, rfl⟩
  · have hroom : depth < maxNesting := by omega
    rw [if_neg hfull, bind_eq_error_iff] at h
    rcases h with hargs | hcall
    · exact .inr (.inl ⟨hroom, hargs⟩)
    · exact .inr (.inr ⟨hroom, hcall⟩)

theorem codesAt_cons_eq_error {e : Expr} {es : List Expr} {depth : Nat} {error : EmitError}
    (h : codesAt (e :: es) depth = .error error) :
    e.codeAt depth = .error error ∨ codesAt es depth = .error error := by
  rw [codesAt, bind_eq_error_iff] at h
  rcases h with hfirst | ⟨code, -, hrest⟩
  · exact .inl hfirst
  · rw [bind_eq_error_iff] at hrest
    rcases hrest with hrest | ⟨codes, -, hnone⟩
    · exact .inr hrest
    · cases hnone

mutual

theorem codeAt_eq_ok_iff (e : Expr) {depth : Nat} (hdepth : depth ≤ maxNesting) (code : String) :
    e.codeAt depth = .ok code ↔
      depth + e.nesting ≤ maxNesting ∧ e.counted = true ∧ code = e.text := by
  cases e with
  | call callee args =>
    -- At the limit the call fails before its arguments are looked at.
    rw [codeAt, nesting, counted, text]
    by_cases hfull : maxNesting ≤ depth
    · have hdeep : ¬ depth + (nestingAll args + 1) ≤ maxNesting := by omega
      simp [hfull, hdeep]
    · have hroom : depth + 1 + nestingAll args ≤ maxNesting ↔
          depth + (nestingAll args + 1) ≤ maxNesting := by omega
      have hinner : depth + 1 ≤ maxNesting := by omega
      rw [if_neg hfull, bind_eq_ok_iff]
      simp only [codesAt_eq_ok_iff args hinner, Code.call_eq_ok_iff, hroom]
      constructor
      · rintro ⟨codes, ⟨hnest, hcounted, rfl⟩, haccepts, rfl⟩
        rw [length_textAll] at haccepts
        exact ⟨hnest, by simp [haccepts, hcounted], rfl⟩
      · rintro ⟨hnest, hcounted, rfl⟩
        rw [Bool.and_eq_true] at hcounted
        exact ⟨_, ⟨hnest, hcounted.2, rfl⟩, by rw [length_textAll]; exact hcounted.1, rfl⟩
  | name n => simp [codeAt, nesting, counted, text, hdepth, eq_comm]
  | string value => simp [codeAt, nesting, counted, text, hdepth, eq_comm]
  | number raw => simp [codeAt, nesting, counted, text, hdepth, eq_comm]

theorem codesAt_eq_ok_iff (es : List Expr) {depth : Nat} (hdepth : depth ≤ maxNesting)
    (codes : List String) :
    codesAt es depth = .ok codes ↔
      depth + nestingAll es ≤ maxNesting ∧ countedAll es = true ∧ codes = textAll es := by
  cases es with
  | nil => simp [codesAt, nestingAll, countedAll, textAll, hdepth, eq_comm]
  | cons e es =>
    have hmax : depth + max e.nesting (nestingAll es) ≤ maxNesting ↔
        depth + e.nesting ≤ maxNesting ∧ depth + nestingAll es ≤ maxNesting := by omega
    rw [codesAt, nestingAll, countedAll, textAll, bind_eq_ok_iff]
    simp only [bind_eq_ok_iff, codeAt_eq_ok_iff e hdepth, codesAt_eq_ok_iff es hdepth, hmax]
    constructor
    · rintro ⟨code, ⟨hnest, hcounted, rfl⟩, rest, ⟨hnests, hcounteds, rfl⟩, hcodes⟩
      cases hcodes
      exact ⟨⟨hnest, hnests⟩, by simp [hcounted, hcounteds], rfl⟩
    · rintro ⟨⟨hnest, hnests⟩, hcounted, rfl⟩
      rw [Bool.and_eq_true] at hcounted
      exact ⟨_, ⟨hnest, hcounted.1, rfl⟩, _, ⟨hnests, hcounted.2, rfl⟩, rfl⟩

end

/-- The code of an expression is its text, if it has one. -/
theorem code_eq_ok_iff (e : Expr) (code : String) :
    e.code = .ok code ↔ e.nesting ≤ maxNesting ∧ e.counted = true ∧ code = e.text := by
  show (e.emit.run 0).1 = .ok code ↔ _
  rw [run_emit, codeAt_eq_ok_iff e (Nat.zero_le _), Nat.zero_add]

end Expr

namespace Program

def text (program : Program) : String :=
  Code.statements (Expr.textAll program.body)

theorem code_eq_bind (program : Program) :
    program.code =
      (Expr.codesAt program.body 0).bind fun codes => .ok (Code.statements codes) := by
  have hrun : program.emit.run 0 =
      ((Expr.codesAt program.body 0).bind fun codes => .ok (Code.statements codes), 0) :=
    EmitM.run_bind (Expr.run_emitAll program.body 0) fun codes => rfl
  show (program.emit.run 0).1 = _
  rw [hrun]

/-- The code of a program is its text, if it has one. -/
theorem code_eq_ok_iff (program : Program) (code : String) :
    program.code = .ok code ↔
      Expr.nestingAll program.body ≤ maxNesting ∧ Expr.countedAll program.body = true ∧
        code = program.text := by
  rw [code_eq_bind, Expr.bind_eq_ok_iff]
  simp only [Expr.codesAt_eq_ok_iff program.body (Nat.zero_le _), Nat.zero_add]
  constructor
  · rintro ⟨codes, ⟨hnest, hcounted, rfl⟩, hcode⟩
    cases hcode
    exact ⟨hnest, hcounted, rfl⟩
  · rintro ⟨hnest, hcounted, rfl⟩
    exact ⟨_, ⟨hnest, hcounted, rfl⟩, rfl⟩

end Program
end JsLisp
