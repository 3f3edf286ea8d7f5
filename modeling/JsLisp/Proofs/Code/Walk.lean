/-
The first offence decides.

Emission can fail in two places at each call: on the way in, if the call stands too
deep, and on the way out, if a builtin does not take the number of its arguments.
`Expr.walk` lists the ways in and out of all calls in the order of a walk through the
tree, without stopping at any of them, and the result of emission is the first error on
that list.  There is none exactly if no call stands too deep and every call of a builtin
has a number of arguments that it takes.
-/
import JsLisp.Proofs.Compile.Nesting

namespace JsLisp

/-- A point of a walk through an expression. -/
inductive Event
  /-- The way into a call that stands in `depth` calls, itself included. -/
  | enter (depth : Nat)
  /-- The way out of a call, behind its arguments. -/
  | leave (callee : Name) (count : Nat)
deriving DecidableEq

namespace Event

/-- The error that is raised there. -/
def error? : Event → Option EmitError
  | enter depth => if maxNesting < depth then some .tooDeep else none
  | leave callee count =>
    match Builtin.find? callee.text with
    | none => none
    | some builtin =>
      if builtin.arity.accepts count then none
      else some (.argumentCount builtin.name builtin.arity count)

end Event

/-- The first error of a walk. -/
def firstError (events : List Event) : Option EmitError :=
  events.findSome? Event.error?

theorem firstError_cons (event : Event) (events : List Event) :
    firstError (event :: events) = event.error?.or (firstError events) := by
  rw [firstError, List.findSome?_cons]
  cases event.error? <;> rfl

theorem firstError_append (events more : List Event) :
    firstError (events ++ more) = (firstError events).or (firstError more) :=
  List.findSome?_append

namespace Code

/-- Without an error on the way out a call is written, and otherwise it fails with it. -/
theorem call_eq_elim (callee : Name) (args : List String) :
    call callee args =
      (Event.leave callee args.length).error?.elim (.ok ((form callee).emit args)) .error := by
  cases hfind : Builtin.find? callee.text with
  | none => simp [call, form, Event.error?, hfind]
  | some builtin =>
    by_cases hcount : builtin.arity.accepts args.length = true
    · simp [call, form, Event.error?, hfind, hcount]
    · simp [call, Event.error?, hfind, hcount]

theorem accepts_iff (callee : Name) (count : Nat) :
    accepts callee count = true ↔
      ∀ builtin, Builtin.find? callee.text = some builtin →
        builtin.arity.accepts count = true := by
  cases hfind : Builtin.find? callee.text with
  | none => simp [accepts, hfind]
  | some builtin => simp [accepts, hfind]

end Code

namespace Expr

mutual

/-- The ways in and out of the calls of an expression that stands in `depth` calls. -/
def walk (depth : Nat) : Expr → List Event
  | call callee args =>
    .enter (depth + 1) :: (walkAll (depth + 1) args ++ [.leave callee args.length])
  | name _ => []
  | string _ => []
  | number _ => []

def walkAll (depth : Nat) : List Expr → List Event
  | [] => []
  | e :: es => walk depth e ++ walkAll depth es

end

mutual

/-- Emission comes to the first error of the walk, or to the text if there is none. -/
theorem codeAt_eq_elim (e : Expr) (depth : Nat) :
    e.codeAt depth = (firstError (e.walk depth)).elim (.ok e.text) .error := by
  cases e with
  | call callee args =>
    rw [codeAt, walk, firstError_cons]
    by_cases hfull : maxNesting ≤ depth
    · have henter : (Event.enter (depth + 1)).error? = some .tooDeep :=
        if_pos (Nat.lt_succ_of_le hfull)
      rw [if_pos hfull, henter]
      rfl
    · have henter : (Event.enter (depth + 1)).error? = none := if_neg (by omega)
      rw [if_neg hfull, henter, Option.none_or, firstError_append,
        codesAt_eq_elim args (depth + 1)]
      -- The way out is reached only if no argument has failed.
      cases firstError (walkAll (depth + 1) args) with
      | some error => rfl
      | none =>
        rw [Option.none_or, firstError_cons]
        show Code.call callee (textAll args) = _
        rw [Code.call_eq_elim, length_textAll, text, firstError, List.findSome?_nil,
          Option.or_none]
  | name n => rfl
  | string value => rfl
  | number raw => rfl

theorem codesAt_eq_elim (es : List Expr) (depth : Nat) :
    codesAt es depth = (firstError (walkAll depth es)).elim (.ok (textAll es)) .error := by
  cases es with
  | nil => rfl
  | cons e es =>
    rw [codesAt, walkAll, firstError_append, codeAt_eq_elim e depth, codesAt_eq_elim es depth]
    cases firstError (e.walk depth) with
    | some error => rfl
    | none =>
      rw [Option.none_or]
      cases firstError (walkAll depth es) with
      | some error => rfl
      | none => rfl

end

/-! ## The calls of an expression -/

/-- The call stands somewhere in the expression. -/
inductive HasCall (callee : Name) (args : List Expr) : Expr → Prop
  | here : HasCall callee args (call callee args)
  | inside {e : Expr} {es : List Expr} (around : Name) (hmem : e ∈ es)
    (h : HasCall callee args e) : HasCall callee args (call around es)

theorem accepts_of_hasCall {callee : Name} {args : List Expr} {e : Expr}
    (h : HasCall callee args e) (hcounted : e.counted = true) :
    Code.accepts callee args.length = true := by
  induction h with
  | here =>
    rw [counted, Bool.and_eq_true] at hcounted
    exact hcounted.1
  | inside around hmem _ ih =>
    rw [counted, Bool.and_eq_true] at hcounted
    exact ih (counted_of_mem hcounted.2 _ hmem)

mutual

theorem counted_of_forall_hasCall (e : Expr)
    (h : ∀ callee args, HasCall callee args e → Code.accepts callee args.length = true) :
    e.counted = true := by
  cases e with
  | call callee args =>
    have hargs : countedAll args = true := countedAll_of_forall_hasCall args
      fun e hmem inner args' hinner => h inner args' (.inside callee hmem hinner)
    rw [counted, h callee args .here, hargs]
    rfl
  | name n => rfl
  | string value => rfl
  | number raw => rfl

theorem countedAll_of_forall_hasCall (es : List Expr)
    (h : ∀ e ∈ es, ∀ callee args, HasCall callee args e →
      Code.accepts callee args.length = true) :
    countedAll es = true := by
  cases es with
  | nil => rfl
  | cons e es =>
    rw [countedAll, counted_of_forall_hasCall e (h e List.mem_cons_self),
      countedAll_of_forall_hasCall es fun e' hmem => h e' (List.mem_cons_of_mem e hmem)]
    rfl

end

end Expr

namespace Program

def walk (program : Program) : List Event :=
  Expr.walkAll 0 program.body

/-- The call stands somewhere in the program. -/
def HasCall (program : Program) (callee : Name) (args : List Expr) : Prop :=
  ∃ e ∈ program.body, e.HasCall callee args

theorem code_eq_elim (program : Program) :
    program.code = (firstError program.walk).elim (.ok program.text) .error := by
  rw [code_eq_bind, Expr.codesAt_eq_elim, walk]
  cases firstError (Expr.walkAll 0 program.body) with
  | some error => rfl
  | none => rfl

theorem code_eq_error_iff (program : Program) (error : EmitError) :
    program.code = .error error ↔ firstError program.walk = some error := by
  rw [code_eq_elim]
  cases firstError program.walk <;> simp

theorem countedAll_iff (program : Program) :
    Expr.countedAll program.body = true ↔
      ∀ callee args, program.HasCall callee args →
        Code.accepts callee args.length = true := by
  constructor
  · rintro hcounted callee args ⟨e, hmem, hcall⟩
    exact Expr.accepts_of_hasCall hcall (Expr.counted_of_mem hcounted e hmem)
  · intro h
    exact Expr.countedAll_of_forall_hasCall program.body
      fun e hmem callee args hcall => h callee args ⟨e, hmem, hcall⟩

/-- A program has code exactly if none of its calls stands in more than 256 calls, itself
included, and every call of a builtin has a number of arguments that it takes.  Otherwise
it fails with the first error that is raised on a walk through its expressions. -/
theorem code_fails_at_first_offence (program : Program) :
    ((∃ code, program.code = .ok code) ↔
      ¬ program.HasCallBeyond 256 ∧
        ∀ callee args, program.HasCall callee args →
          ∀ builtin, Builtin.find? callee.text = some builtin →
            builtin.arity.accepts args.length = true) ∧
    ∀ error, program.code = .error error ↔ firstError program.walk = some error := by
  refine ⟨?_, program.code_eq_error_iff⟩
  have hdepth : ¬ program.HasCallBeyond 256 ↔ Expr.nestingAll program.body ≤ maxNesting :=
    (not_congr (program.hasCallBeyond_iff maxNesting)).trans Nat.not_lt
  simp only [← Code.accepts_iff, ← countedAll_iff, hdepth, code_eq_ok_iff]
  constructor
  · rintro ⟨code, hfits, hcounted, -⟩
    exact ⟨hfits, hcounted⟩
  · rintro ⟨hfits, hcounted⟩
    exact ⟨program.text, hfits, hcounted, rfl⟩

/-- Both calls have a wrong number of arguments, and the inner one is left first. -/
theorem code_fails_at_inner_call :
    firstError (walk ⟨[.call ⟨"not", []⟩ [.call ⟨"len", []⟩ [], .name ⟨"x", []⟩]]⟩) =
        some (.argumentCount "len" (.exactly 1) 0) ∧
      code ⟨[.call ⟨"not", []⟩ [.call ⟨"len", []⟩ [], .name ⟨"x", []⟩]]⟩ =
        .error (.argumentCount "len" (.exactly 1) 0) := by
  have hfirst : firstError (walk ⟨[.call ⟨"not", []⟩ [.call ⟨"len", []⟩ [], .name ⟨"x", []⟩]]⟩) =
      some (.argumentCount "len" (.exactly 1) 0) := by
    decide
  exact ⟨hfirst, ((code_fails_at_first_offence _).2 _).2 hfirst⟩

end Program
end JsLisp
