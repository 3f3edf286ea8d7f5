/-
Actions that change a state and may fail.

Emission counts its depth, and a batch changes a disk.  Both are actions of one kind, and
what they leave behind is the same for all: an action stops at its first failure, in the
state that was reached there.
-/
namespace JsLisp
namespace Action

variable {ε σ α β : Type} {action : ExceptT ε (StateM σ) α} {state after : σ}

theorem run_bind_ok {a : α} (h : action.run state = (.ok a, after))
    (next : α → ExceptT ε (StateM σ) β) : (action >>= next).run state = (next a).run after := by
  show ExceptT.bindCont next (action.run state).1 (action.run state).2 = _
  rw [h]
  rfl

theorem run_bind_error {error : ε} (h : action.run state = (.error error, after))
    (next : α → ExceptT ε (StateM σ) β) :
    (action >>= next).run state = (.error error, after) := by
  show ExceptT.bindCont next (action.run state).1 (action.run state).2 = _
  rw [h]
  rfl

theorem run_bind_eq_ok {next : α → ExceptT ε (StateM σ) β} {b : β}
    (h : (action >>= next).run state = (.ok b, after)) :
    ∃ a middle, action.run state = (.ok a, middle) ∧ (next a).run middle = (.ok b, after) := by
  cases hrun : action.run state with
  | mk result middle =>
    cases result with
    | ok a => exact ⟨a, middle, rfl, (run_bind_ok hrun next).symm.trans h⟩
    | error error => cases (run_bind_error hrun next).symm.trans h

theorem run_bind_eq_error {next : α → ExceptT ε (StateM σ) β} {error : ε}
    (h : (action >>= next).run state = (.error error, after)) :
    action.run state = (.error error, after) ∨
      ∃ a middle, action.run state = (.ok a, middle) ∧
        (next a).run middle = (.error error, after) := by
  cases hrun : action.run state with
  | mk result middle =>
    cases result with
    | ok a => exact .inr ⟨a, middle, rfl, (run_bind_ok hrun next).symm.trans h⟩
    | error fault =>
      cases (run_bind_error hrun next).symm.trans h
      exact .inl rfl

theorem run_tryCatch_ok {a : α} (h : action.run state = (.ok a, after))
    (handler : ε → ExceptT ε (StateM σ) α) :
    (tryCatch action handler).run state = (.ok a, after) := by
  show (match (action.run state).1 with
    | .ok a => pure (.ok a)
    | .error error => (handler error).run : StateM σ (Except ε α)) (action.run state).2 = _
  rw [h]
  rfl

theorem run_tryCatch_error {error : ε} (h : action.run state = (.error error, after))
    (handler : ε → ExceptT ε (StateM σ) α) :
    (tryCatch action handler).run state = (handler error).run after := by
  show (match (action.run state).1 with
    | .ok a => pure (.ok a)
    | .error error => (handler error).run : StateM σ (Except ε α)) (action.run state).2 = _
  rw [h]

theorem run_liftExcept (result : Except ε α) (state : σ) :
    (liftExcept result : ExceptT ε (StateM σ) α).run state = (result, state) := by
  cases result <;> rfl

theorem run_get (state : σ) :
    (get : ExceptT ε (StateM σ) σ).run state = (.ok state, state) :=
  rfl

end Action
end JsLisp
