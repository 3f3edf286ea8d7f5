/-
One emitter, asked again and again.

An emitter keeps the number of calls it stands in from one visit to the next, and a
visit may fail anywhere inside its calls.  Emission gives the count back as it got it,
on every path, so each visit leaves the emitter as it was, and a sequence of visits
is so many visits of the same emitter.
-/
import JsLisp.Proofs.Code.Emission

namespace JsLisp

/-- What an emitter can be asked to write. -/
inductive Visit
  | program (program : Program)
  | call (callee : Name) (args : List Expr)
  | name (name : Name)
  | string (value : String)
  | number (raw : String)
deriving DecidableEq

namespace Visit

def emit : Visit → EmitM String
  | program p => p.emit
  | call callee args => (Expr.call callee args).emit
  | name n => (Expr.name n).emit
  | string value => (Expr.string value).emit
  | number raw => (Expr.number raw).emit

/-- A visit gives back the count it started with, whatever it comes to. -/
theorem run_emit (visit : Visit) (depth : Nat) :
    ∃ result, visit.emit.run depth = (result, depth) := by
  cases visit with
  | program p => exact ⟨_, EmitM.run_bind (Expr.run_emitAll p.body depth) fun codes => rfl⟩
  | call callee args => exact ⟨_, Expr.run_emit (.call callee args) depth⟩
  | name n => exact ⟨_, Expr.run_emit (.name n) depth⟩
  | string value => exact ⟨_, Expr.run_emit (.string value) depth⟩
  | number raw => exact ⟨_, Expr.run_emit (.number raw) depth⟩

end Visit

namespace Emitter

theorem run_visit (emitter : Emitter) (visit : Visit) :
    emitter.run visit.emit = ((emitter.run visit.emit).1, emitter) := by
  obtain ⟨result, hrun⟩ := visit.run_emit emitter.depth
  simp [run, hrun]

/-- Make the visits one after the other, each with the emitter that the last one left
behind, and note what each comes to. -/
def trace (emitter : Emitter) : List Visit → List (Except EmitError String × Emitter)
  | [] => []
  | visit :: visits =>
    let outcome := emitter.run visit.emit
    outcome :: outcome.2.trace visits

theorem trace_eq_map (emitter : Emitter) (visits : List Visit) :
    emitter.trace visits = visits.map fun visit => ((emitter.run visit.emit).1, emitter) := by
  induction visits with
  | nil => rfl
  | cons visit visits ih =>
    have hafter : (emitter.run visit.emit).2 = emitter := by rw [run_visit]
    rw [List.map_cons, ← run_visit, ← ih, trace, hafter]

/-- Every visit made on one emitter gives what it gives on a new one, and leaves the
emitter in no call. -/
theorem trace_new (visits : List Visit) :
    new.trace visits = visits.map fun visit => ((new.run visit.emit).1, ⟨0⟩) :=
  trace_eq_map new visits

end Emitter
end JsLisp
