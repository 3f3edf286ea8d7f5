/-
A parser goes on after any outcome as if it were new.

`parse` may fail in the middle of a call, with some of its tokens taken and the calls
around it unfinished.  A `Descent` keeps its place in the tokens and the count of open
calls, and one call of `parse` leaves it at rest again: in no call, and somewhere
further on in its tokens.  What it then reads does not depend on what it has read, as
the machine that it follows knows the unread tokens only.  A call that takes nothing is
repeated for ever, so after as many calls as there are tokens nothing changes any more.
-/
import JsLisp.Proofs.Expr.Descent

namespace JsLisp
namespace Descent

open JsLisp.Parser (State)

theorem unread_of_stops {d : Descent} (h : d.stops false = true) : d.unread = [] := by
  unfold stops at h
  split at h
  · rename_i hpeek
    exact unread_of_none hpeek
  · cases h

/-- A parser between two calls. -/
structure AtRest (tokens : List Token) (d : Descent) : Prop where
  tokens_eq : d.tokens = tokens
  depth_eq : d.depth = 0
  position_le : d.position ≤ tokens.length

theorem atRest_ofTokens (tokens : List Token) : AtRest tokens (ofTokens tokens) :=
  ⟨rfl, rfl, Nat.zero_le _⟩

section Call

variable {tokens : List Token} {d : Descent}

theorem follows_program (hdepth : d.depth = 0) :
    Follows (expressions false d) State.start State.start.addAll :=
  follows_expressions false d rfl hdepth.symm (by simp [State.start])

/-- A parser in no call reads what the machine reads of the unread tokens, and stops
at the same token. -/
theorem parse_eq (hdepth : d.depth = 0) :
    (Parser.mk d.unread).parse = (d.parse.1, ⟨d.parse.2.unread⟩) := by
  have hrun := (follows_program hdepth).run_eq
  have hparse : d.parse =
      ((expressions false d).result.map Program.mk, (expressions false d).after) := rfl
  show ((State.start.run d.unread).1, Parser.mk (State.start.run d.unread).2) = _
  rw [hrun, hparse]
  cases hresult : (expressions false d).result with
  | error error => rfl
  | ok es =>
    have hunread := unread_of_stops (stops_of_expressions hresult)
    simp only [hunread, State.start, State.body_addAll]
    simp [State.run, State.finish, State.settle, Except.map]

theorem position_le_parse (d : Descent) : d.position ≤ d.parse.2.position :=
  (expressions false d).beyond.position_le

theorem AtRest.parse (h : AtRest tokens d) : AtRest tokens d.parse.2 := by
  have hfollows := follows_program h.depth_eq
  have htokens := h.tokens_eq
  refine ⟨(expressions false d).beyond.tokens_eq.trans htokens,
    hfollows.depth_eq.trans h.depth_eq, ?_⟩
  have hle := hfollows.position_le (by rw [htokens]; exact h.position_le)
  rwa [htokens] at hle

theorem AtRest.unread_eq (h : AtRest tokens d) : d.unread = tokens.drop d.position := by
  rw [unread, h.tokens_eq]

theorem AtRest.machine_parse (h : AtRest tokens d) :
    (Parser.mk (tokens.drop d.position)).parse =
      (d.parse.1, ⟨tokens.drop d.parse.2.position⟩) := by
  rw [← h.unread_eq, parse_eq h.depth_eq, h.parse.unread_eq]

/-- The next call is that of a new parser with the unread tokens. -/
theorem AtRest.parse_eq_fresh (h : AtRest tokens d) :
    d.parse.1 = (ofTokens (tokens.drop d.position)).parse.1 ∧
    d.parse.2.position = d.position + (ofTokens (tokens.drop d.position)).parse.2.position := by
  have hnew := atRest_ofTokens (tokens.drop d.position)
  obtain ⟨hresult, hrest⟩ := Prod.mk.inj (h.machine_parse.symm.trans hnew.machine_parse)
  refine ⟨hresult, ?_⟩
  -- Both stop where equally many tokens are left.
  have hlength := congrArg (fun parser => parser.rest.length) hrest
  have hle := h.parse.position_le
  have hle' := hnew.parse.position_le
  have hposition := h.position_le
  simp only [List.length_drop] at hlength hle'
  omega

/-- A call that takes no token leaves the parser as it was. -/
theorem AtRest.parse_eq_self (h : AtRest tokens d) (hposition : d.parse.2.position = d.position) :
    d.parse.2 = d := by
  have hafter := h.parse
  have htokens := hafter.tokens_eq.trans h.tokens_eq.symm
  have hdepth := hafter.depth_eq.trans h.depth_eq.symm
  generalize d.parse.2 = after at *
  obtain ⟨ts, position, depth⟩ := after
  obtain ⟨ts', position', depth'⟩ := d
  simp_all

end Call

/-- The parser after `n` calls. -/
def after (tokens : List Token) : Nat → Descent
  | 0 => ofTokens tokens
  | n + 1 => (after tokens n).parse.2

theorem atRest_after (tokens : List Token) (n : Nat) : AtRest tokens (after tokens n) := by
  induction n with
  | zero => exact atRest_ofTokens tokens
  | succ n ih => exact ih.parse

/-- Each call takes a token, until one takes none. -/
theorem le_position_or_stuck (tokens : List Token) (n : Nat) :
    n ≤ (after tokens n).position ∨ (after tokens n).parse.2 = after tokens n := by
  induction n with
  | zero => exact .inl (Nat.zero_le _)
  | succ n ih =>
    by_cases hstuck : (after tokens n).parse.2 = after tokens n
    · right
      rw [after, hstuck, hstuck]
    · have hle := ih.resolve_right hstuck
      have hforward := position_le_parse (after tokens n)
      have hmoves : (after tokens n).parse.2.position ≠ (after tokens n).position :=
        mt (atRest_after tokens n).parse_eq_self hstuck
      left
      rw [after]
      omega

theorem stuck_after_length (tokens : List Token) :
    (after tokens tokens.length).parse.2 = after tokens tokens.length := by
  rcases le_position_or_stuck tokens tokens.length with hle | hstuck
  · -- All tokens are taken, and there is no place further on.
    have hrest := atRest_after tokens tokens.length
    have hforward := position_le_parse (after tokens tokens.length)
    have hbound := hrest.parse.position_le
    exact hrest.parse_eq_self (by omega)
  · exact hstuck

theorem after_eq_of_le (tokens : List Token) {n : Nat} (h : tokens.length ≤ n) :
    after tokens n = after tokens tokens.length := by
  induction h with
  | refl => rfl
  | step _ ih => rw [after, ih, stuck_after_length]

/-- The machine after `n` calls, for comparison. -/
def machine (tokens : List Token) : Nat → Parser
  | 0 => ⟨tokens⟩
  | n + 1 => (machine tokens n).parse.2

theorem machine_eq (tokens : List Token) (n : Nat) :
    machine tokens n = ⟨tokens.drop (after tokens n).position⟩ := by
  induction n with
  | zero => rfl
  | succ n ih =>
    rw [machine, ih, (atRest_after tokens n).machine_parse]
    rfl

/-- A parser that has been called before goes on as a new one, with the unread tokens,
would. -/
structure Resumes (tokens : List Token) (d : Descent) : Prop where
  depth_eq : d.depth = 0
  position_le : d.position ≤ tokens.length
  forward : d.position ≤ d.parse.2.position
  result_eq : d.parse.1 = (ofTokens (tokens.drop d.position)).parse.1
  advance_eq : d.parse.2.position =
    d.position + (ofTokens (tokens.drop d.position)).parse.2.position

/-- After any number of calls, whatever they came to, a parser goes on as a new one
would, and the machine stands at the same token and reads the same.  With as many
calls made as there are tokens, all further calls come to the same. -/
theorem resumes_after (tokens : List Token) :
    (∀ n, Resumes tokens (after tokens n) ∧
      machine tokens n = ⟨tokens.drop (after tokens n).position⟩ ∧
      (machine tokens n).parse.1 = (after tokens n).parse.1) ∧
    ∀ n, tokens.length ≤ n → (after tokens n).parse.1 = (after tokens tokens.length).parse.1 := by
  refine ⟨fun n => ?_, fun n hle => ?_⟩
  · have hrest := atRest_after tokens n
    obtain ⟨hresult, hadvance⟩ := hrest.parse_eq_fresh
    refine ⟨⟨hrest.depth_eq, hrest.position_le, position_le_parse _, hresult, hadvance⟩,
      machine_eq tokens n, ?_⟩
    rw [machine_eq, hrest.machine_parse]
  · rw [after_eq_of_le tokens hle]

/-- A parenthesis where a callee should stand: the first call fails two calls deep, all
others at that parenthesis. -/
theorem resumes_after_failed_callee :
    (after [.opening, .word "f", .opening, .closing] 0).parse.1 =
      .error (.expected .name (some .closing)) ∧
    (after [.opening, .word "f", .opening, .closing] 1).depth = 0 ∧
    (after [.opening, .word "f", .opening, .closing] 1).parse.1 =
      .error (.expected .expression (some .closing)) ∧
    (after [.opening, .word "f", .opening, .closing] 7).parse.1 =
      (after [.opening, .word "f", .opening, .closing] 4).parse.1 := by
  have h := resumes_after [.opening, .word "f", .opening, .closing]
  refine ⟨?_, (h.1 1).1.depth_eq, ?_, h.2 7 (by decide)⟩
  · rw [← (h.1 0).2.2]
    rfl
  · rw [← (h.1 1).2.2]
    rfl

end Descent
end JsLisp
