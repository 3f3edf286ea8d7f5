/-
Where and why the parser gives up.

A sentence is the spelling of a program whose calls nest within the limit, and
tokens are viable if some sentence starts with them.  The parser gives up at the
first token that no longer leaves its tokens viable, except that it gives up at a
dot where it could still wait for a name.  `Reached` says that taking some tokens,
with others behind them, leads from the start to a state.  A state knows what the
tokens before it were, can be completed to a sentence, and refuses a token for
every continuation or for none, so all about a refusal is read off its state.
States are those of the machine, and descent stops at the token where the machine
stops.
-/
import JsLisp.Proofs.Expr.Resume

namespace JsLisp

def Sentence (tokens : List Token) : Prop :=
  ∃ program : Program, program.Yields tokens ∧ program.nesting ≤ maxNesting

/-- Some sentence starts with the tokens. -/
def Viable (tokens : List Token) : Prop :=
  ∃ rest, Sentence (tokens ++ rest)

theorem sentence_iff (tokens : List Token) :
    Sentence tokens ↔ ∃ program, (Parser.mk tokens).parse.1 = .ok program := by
  constructor
  · rintro ⟨program, hyields, hnesting⟩
    exact ⟨program, Parser.parse_eq_ok_of_yields hyields hnesting⟩
  · rintro ⟨program, hparse⟩
    have hyields := Parser.yields_of_parse hparse
    exact ⟨program, hyields, Parser.nesting_le_of_parse hparse hyields⟩

/-- The index of the refused token, or the number of tokens if their end is
refused.  A parenthesis that opens one call too many is taken, any other refused
token is not. -/
def Descent.refusedAt (tokens : List Token) : Nat :=
  let outcome := (ofTokens tokens).parse
  match outcome.1 with
  | .error .tooDeep => outcome.2.position - 1
  | _ => outcome.2.position

namespace Token

def openings (tokens : List Token) : Nat :=
  tokens.countP fun token => token.kind = .leftParen

def closings (tokens : List Token) : Nat :=
  tokens.countP fun token => token.kind = .rightParen

end Token

namespace Parser

namespace Focus

/-- Where the reader stands behind a token of that kind, or at the start. -/
def isBehind : Focus → Option TokenKind → Bool
  | between, none | between, some .rightParen | between, some .string | between, some .number
  | opened, some .leftParen | named .., some .text | dotted .., some .dot => true
  | _, _ => false

def isDotted : Focus → Bool
  | dotted .. => true
  | _ => false

section IsBehind

variable {focus : Focus} {kind : Option TokenKind}

theorem eq_opened_iff (h : focus.isBehind kind = true) :
    focus = .opened ↔ kind = some .leftParen := by
  unfold isBehind at h
  split at h <;> simp_all

theorem eq_named_iff (h : focus.isBehind kind = true) :
    (∃ role name, focus = .named role name) ↔ kind = some .text := by
  unfold isBehind at h
  split at h <;> simp_all

theorem isDotted_iff (h : focus.isBehind kind = true) :
    focus.isDotted = true ↔ kind = some .dot := by
  unfold isBehind at h
  split at h <;> simp_all [isDotted]

end IsBehind

end Focus

namespace State

/-- How many parentheses are open.  The one in front of a callee is not on the
stack until the callee is read. -/
def depth (state : State) : Nat :=
  match state.focus with
  | .opened | .named .callee _ | .dotted .callee _ => state.calls.length + 1
  | _ => state.calls.length

theorem depth_add (state : State) (e : Expr) : (state.add e).depth = state.calls.length := by
  rw [depth, focus_add]
  exact length_calls_add state e

theorem depth_settle (state : State) : state.settle.depth = state.depth := by
  obtain ⟨body, calls, focus⟩ := state
  unfold settle
  split
  · rename_i name h
    obtain rfl : focus = .named .callee name := h
    rfl
  · rename_i name h
    obtain rfl : focus = .named .operand name := h
    exact depth_add _ _
  · rfl

/-- What taking a token does, whatever the state holds. -/
structure Advances (state : State) (token : Token) (ahead : Option TokenKind) (next : State) :
    Prop where
  behind : next.focus.isBehind (some token.kind) = true
  depth : next.depth + Token.closings [token] = state.depth + Token.openings [token]
  bound : state.depth ≤ maxNesting → next.depth ≤ maxNesting
  /-- A dot is taken only in front of a name, -/
  ahead : next.focus.isDotted = true → ahead = some .text
  /-- and then nothing but the name is. -/
  word : state.focus.isDotted = true → token.kind = .text

theorem advances_shift {state next : State} {token : Token} (ahead : Option TokenKind)
    (hfocus : state.focus = .between) (h : state.shift token = .ok next) :
    Advances state token ahead next := by
  obtain ⟨body, calls, focus⟩ := state
  obtain rfl : focus = .between := hfocus
  obtain ⟨kind, text⟩ := token
  cases kind with
  | leftParen =>
    simp only [shift] at h
    split at h
    · rename_i hroom
      cases h
      exact ⟨rfl, rfl, fun _ => hroom, nofun, nofun⟩
    · cases h
  | rightParen =>
    cases calls with
    | nil => cases h
    | cons call calls =>
      cases h
      have hdepth := depth_add ⟨body, calls, .between⟩ (.call call.callee call.args.reverse)
      refine ⟨by rw [focus_add]; rfl, by rw [hdepth]; rfl, fun hbound => ?_,
        by rw [focus_add]; nofun, nofun⟩
      rw [hdepth]
      exact Nat.le_of_succ_le hbound
  | text =>
    cases h
    exact ⟨rfl, rfl, id, nofun, nofun⟩
  | string | number =>
    cases h
    refine ⟨by rw [focus_add]; rfl, by rw [depth_add]; rfl, fun hbound => ?_,
      by rw [focus_add]; nofun, nofun⟩
    rw [depth_add]
    exact hbound
  | dot | plus | minus | star | slash | trueWord | falseWord | undefinedWord | nullWord =>
    cases h

theorem advances_step {state next : State} {token : Token} {ahead : Option TokenKind}
    (h : state.step token ahead = .ok next) : Advances state token ahead next := by
  unfold step at h
  split at h
  · rename_i hfocus
    exact advances_shift ahead hfocus h
  · rename_i hfocus
    obtain ⟨hkind, hnext⟩ := expect_eq_ok_iff.1 h
    cases hnext
    refine ⟨by rw [hkind]; rfl, ?_, ?_, nofun, fun _ => hkind⟩
    · simp [depth, hfocus, Token.openings, Token.closings, hkind]
    · simp [depth, hfocus]
  · rename_i role name hfocus
    split at h
    · rename_i hdot
      cases h
      refine ⟨by rw [hdot.1]; rfl, ?_, ?_, fun _ => hdot.2, by rw [hfocus]; nofun⟩
      · cases role <;> simp [depth, hfocus, Token.openings, Token.closings, hdot.1]
      · cases role <;> simp [depth, hfocus]
    · have hshift := advances_shift ahead (settle_focus hfocus) h
      refine ⟨hshift.behind, ?_, ?_, hshift.ahead, by rw [hfocus]; nofun⟩
      · rw [hshift.depth, depth_settle]
      · rw [← depth_settle state]
        exact hshift.bound
  · rename_i role name hfocus
    obtain ⟨hkind, hnext⟩ := expect_eq_ok_iff.1 h
    cases hnext
    refine ⟨by rw [hkind]; rfl, ?_, ?_, nofun, fun _ => hkind⟩
    · cases role <;> simp [depth, hfocus, Token.openings, Token.closings, hkind]
    · cases role <;> simp [depth, hfocus]

/-- What stands behind a token matters only to a dot that follows a name. -/
theorem step_ahead {state : State} {token : Token}
    (h : token.kind = .dot → ∀ role name, state.focus ≠ .named role name)
    (ahead ahead' : Option TokenKind) : state.step token ahead = state.step token ahead' := by
  unfold step
  split
  · rfl
  · rfl
  · rename_i role name hfocus
    have hdot : token.kind ≠ .dot := fun hdot => h hdot role name hfocus
    simp [hdot]
  · rfl

theorem step_change {state next : State} {token : Token} {ahead ahead' : Option TokenKind}
    (h : state.step token ahead = .ok next)
    (hahead : next.focus.isDotted = true → ahead' = some .text) :
    state.step token ahead' = .ok next := by
  have hadvances := advances_step h
  by_cases hdotted : next.focus.isDotted = true
  · rw [hahead hdotted, ← hadvances.ahead hdotted]
    exact h
  · -- A dot that is taken leaves the reader behind it.
    have hdot : token.kind ≠ .dot := fun hkind =>
      hdotted ((Focus.isDotted_iff hadvances.behind).2 (congrArg some hkind))
    rw [step_ahead (fun hkind => absurd hkind hdot) ahead' ahead]
    exact h

/-- Where `shift` asks for a kind it has seen it, so only the expression itself can be
missing. -/
theorem shift_eq_error {state : State} {token : Token} {error : ParseError}
    (hfocus : state.focus = .between) (h : state.shift token = .error error) :
    (error = if token.kind = .leftParen then .tooDeep else .expected .expression token) ∧
      (token.kind = .leftParen → maxNesting ≤ state.depth) := by
  obtain ⟨body, calls, focus⟩ := state
  obtain rfl : focus = .between := hfocus
  obtain ⟨kind, text⟩ := token
  cases kind with
  | leftParen =>
    simp only [shift, expect_of_kind] at h
    split at h
    · cases h
    · rename_i hfull
      cases h
      exact ⟨rfl, fun _ => Nat.le_of_not_lt hfull⟩
  | rightParen =>
    cases calls with
    | nil =>
      cases h
      exact ⟨rfl, nofun⟩
    | cons call calls => cases h
  | text | string | number => cases h
  | dot | plus | minus | star | slash | trueWord | falseWord | undefinedWord | nullWord =>
    cases h
    exact ⟨rfl, nofun⟩

/-- A refused token decides the error, but for where the reader stands. -/
theorem step_eq_error {state : State} {token : Token} {ahead : Option TokenKind}
    {error : ParseError} (hdotted : state.focus.isDotted = false)
    (h : state.step token ahead = .error error) :
    (error = if state.focus = .opened then .expected .name token
      else if token.kind = .leftParen then .tooDeep else .expected .expression token) ∧
    (state.focus ≠ .opened → token.kind = .leftParen → maxNesting ≤ state.depth) := by
  unfold step at h
  split at h
  · rename_i hfocus
    obtain ⟨herror, hdepth⟩ := shift_eq_error hfocus h
    rw [if_neg (by rw [hfocus]; nofun)]
    exact ⟨herror, fun _ => hdepth⟩
  · rename_i hfocus
    by_cases hkind : token.kind = .text
    · rw [expect_of_kind hkind] at h
      cases h
    · rw [expect_of_ne hkind] at h
      cases h
      rw [if_pos hfocus]
      exact ⟨rfl, fun hnot => absurd hfocus hnot⟩
  · rename_i role name hfocus
    split at h
    · cases h
    · obtain ⟨herror, hdepth⟩ := shift_eq_error (settle_focus hfocus) h
      rw [if_neg (by rw [hfocus]; nofun), ← depth_settle]
      exact ⟨herror, fun _ => hdepth⟩
  · rename_i hfocus
    rw [hfocus] at hdotted
    cases hdotted

theorem finish_eq_error {state : State} {error : ParseError}
    (hdotted : state.focus.isDotted = false) (h : state.finish = .error error) :
    error = .expected (if state.focus = .opened then .name else .closing) none := by
  unfold finish at h
  split at h
  · rename_i hfocus
    cases h
    rw [hfocus]
    rfl
  · rename_i hfocus
    rw [hfocus] at hdotted
    cases hdotted
  all_goals
    rename_i hfocus
    dsimp only at h
    split at h
    · cases h
    · cases h
      rw [hfocus]
      rfl

/-! ## The states of a reading -/

/-- Taking the first tokens, with the others behind them, leads from the start to
the state. -/
inductive Reached : List Token → List Token → State → Prop
  | start (rest : List Token) : Reached [] rest start
  | take {taken rest : List Token} {token : Token} {state next : State}
    (h : Reached taken (token :: rest) state)
    (hstep : state.step token (rest.head?.map Token.kind) = .ok next) :
    Reached (taken ++ [token]) rest next

namespace Reached

variable {taken rest : List Token} {state : State}

theorem run_eq (h : Reached taken rest state) :
    State.start.run (taken ++ rest) = state.run rest := by
  induction h with
  | start rest => rfl
  | @take taken rest token state next h hstep ih =>
    rw [List.append_assoc, List.singleton_append, ih, run, hstep]

theorem isBehind (h : Reached taken rest state) :
    state.focus.isBehind (taken.getLast?.map Token.kind) = true := by
  cases h with
  | start rest => rfl
  | take h hstep =>
    rw [List.getLast?_concat]
    exact (advances_step hstep).behind

theorem depth_eq (h : Reached taken rest state) :
    state.depth + Token.closings taken = Token.openings taken := by
  induction h with
  | start rest => rfl
  | @take taken rest token state next h hstep ih =>
    have hdepth := (advances_step hstep).depth
    have hopenings : Token.openings (taken ++ [token]) =
        Token.openings taken + Token.openings [token] := List.countP_append
    have hclosings : Token.closings (taken ++ [token]) =
        Token.closings taken + Token.closings [token] := List.countP_append
    omega

theorem depth_le (h : Reached taken rest state) : state.depth ≤ maxNesting := by
  induction h with
  | start rest => exact Nat.zero_le _
  | take h hstep ih => exact (advances_step hstep).bound ih

theorem ahead_of_isDotted (h : Reached taken rest state) (hdotted : state.focus.isDotted = true) :
    rest.head?.map Token.kind = some .text := by
  cases h with
  | start rest => cases hdotted
  | take h hstep => exact (advances_step hstep).ahead hdotted

/-- Other tokens may stand behind, as long as a dot keeps its name. -/
theorem change (h : Reached taken rest state) {rest' : List Token}
    (hahead : state.focus.isDotted = true → rest'.head?.map Token.kind = some .text) :
    Reached taken rest' state := by
  induction h generalizing rest' with
  | start rest => exact .start rest'
  | take h hstep ih =>
    refine .take (ih fun hdotted => ?_) (step_change hstep hahead)
    exact congrArg some ((advances_step hstep).word hdotted)

end Reached

/-- The state refuses what stands in front of it. -/
def Refuses (state : State) (error : ParseError) : List Token → Prop
  | [] => state.finish = .error error
  | token :: rest => state.step token (rest.head?.map Token.kind) = .error error

/-- A reading that fails reaches a state that refuses. -/
theorem exists_refuses {taken rest : List Token} {state : State} {error : ParseError}
    (h : Reached taken rest state) (herror : (state.run rest).1 = .error error) :
    ∃ taken' rest' state', taken ++ rest = taken' ++ rest' ∧ Reached taken' rest' state' ∧
      state'.Refuses error rest' := by
  induction rest generalizing taken state with
  | nil => exact ⟨taken, [], state, rfl, h, herror⟩
  | cons token rest ih =>
    rw [run] at herror
    split at herror
    · rename_i next hstep
      obtain ⟨taken', rest', state', happend, hreached, hrefuses⟩ := ih (h.take hstep) herror
      refine ⟨taken', rest', state', ?_, hreached, hrefuses⟩
      rw [← happend, List.append_assoc, List.singleton_append]
    · rename_i error' hstep
      cases herror
      exact ⟨taken, token :: rest, state, rfl, h, hstep⟩

theorem Reached.isDotted_of_refuses {taken rest : List Token} {state : State}
    {error : ParseError} (h : Reached taken rest state) (hrefuses : state.Refuses error rest) :
    state.focus.isDotted = false := by
  cases hfocus : state.focus with
  | dotted role name =>
    have hahead := h.ahead_of_isDotted (by rw [hfocus]; rfl)
    cases rest with
    | nil => cases hahead
    | cons token rest =>
      have hkind : token.kind = .text := Option.some.inj hahead
      rw [Refuses, step, hfocus] at hrefuses
      simp [hkind] at hrefuses
  | _ => rfl

theorem run_closings {state : State} {n : Nat} (hfocus : state.focus = .between)
    (hlength : state.calls.length = n) :
    ∃ program, (state.run (List.replicate n .closing)).1 = .ok program := by
  induction n generalizing state with
  | zero =>
    have hcalls := List.length_eq_zero_iff.1 hlength
    exact ⟨⟨state.body.reverse⟩, by simp [run, finish, settle, hfocus, hcalls]⟩
  | succ n ih =>
    obtain ⟨call, calls, hcalls⟩ := List.exists_cons_of_length_eq_add_one hlength
    have hstep (ahead : Option TokenKind) : state.step .closing ahead =
        .ok ({ state with calls := calls }.add (.call call.callee call.args.reverse)) := by
      simp [step, shift, hfocus, hcalls, Token.closing]
    have hrest : calls.length = n := by simpa [hcalls] using hlength
    obtain ⟨program, hprogram⟩ := ih
      (focus_add { state with calls := calls } (.call call.callee call.args.reverse))
      (by rw [length_calls_add]; exact hrest)
    refine ⟨program, ?_⟩
    rw [List.replicate_succ, run, hstep]
    exact hprogram

theorem run_closings_of_named {state : State} {role : Role} {name : Name}
    (hfocus : state.focus = .named role name) :
    ∃ program, (state.run (List.replicate state.settle.calls.length .closing)).1 = .ok program := by
  rw [run_eq_run_settle hfocus]
  · exact run_closings (settle_focus hfocus) rfl
  · cases state.settle.calls.length <;> simp [Detached, List.replicate_succ, Token.closing]

theorem exists_run_ok {state : State} (hdotted : state.focus.isDotted = false) :
    ∃ rest program, (state.run rest).1 = .ok program := by
  cases hfocus : state.focus with
  | between =>
    obtain ⟨program, hprogram⟩ := run_closings hfocus rfl
    exact ⟨_, program, hprogram⟩
  | opened =>
    -- Any name will do as the callee.
    let named : State := { state with focus := .named .callee ⟨"f", []⟩ }
    have hstep (ahead : Option TokenKind) : state.step (.word "f") ahead = .ok named := by
      rw [step, hfocus]
      rfl
    refine ⟨.word "f" :: List.replicate named.settle.calls.length .closing, ?_⟩
    rw [run, hstep]
    exact run_closings_of_named rfl
  | named role name => exact ⟨_, run_closings_of_named hfocus⟩
  | dotted role name =>
    rw [hfocus] at hdotted
    cases hdotted

end State

/-! ## Where the parser gives up -/

def kindAt (tokens : List Token) (i : Nat) : Option TokenKind :=
  tokens[i]?.map Token.kind

/-- The kind of the token in front of index `i`.  There is none at the start. -/
def kindBefore (tokens : List Token) (i : Nat) : Option TokenKind :=
  (tokens.take i).getLast?.map Token.kind

/-- The error reports the earliest token, and for the right reason. -/
structure Refusal (tokens : List Token) (error : ParseError) (k : Nat) : Prop where
  bound : k ≤ tokens.length
  viable : Viable (tokens.take k)
  /-- A dot may be refused though a name could still follow it, but then none does. -/
  refused : k < tokens.length →
    if kindAt tokens k = some .dot ∧ kindBefore tokens k = some .text then
      kindAt tokens (k + 1) ≠ some .text
    else ¬ Viable (tokens.take (k + 1))
  unfinished : k = tokens.length → ¬ Sentence tokens
  tooDeep_iff : error = .tooDeep ↔
    Token.openings (tokens.take k) = Token.closings (tokens.take k) + maxNesting ∧
      kindAt tokens k = some .leftParen ∧ kindBefore tokens k ≠ some .leftParen
  expected : error ≠ .tooDeep → ∃ wanted, error = .expected wanted tokens[k]? ∧
    wanted.describe =
      if kindBefore tokens k = some .leftParen then "text"
      else if k = tokens.length then "')'" else "expression"

/-- The parser has labels for an opening parenthesis and for literals, and never uses
them: it asks for these tokens only where it has seen them. -/
theorem Refusal.describe_not_mem {tokens : List Token} {error : ParseError} {k : Nat}
    (h : Refusal tokens error k) {wanted : Wanted} {found : Option Token}
    (herror : error = .expected wanted found) :
    wanted.describe ∉ ["'('", "string literal", "number literal"] := by
  obtain ⟨own, hown, hdescribe⟩ := h.expected (by rw [herror]; simp)
  obtain ⟨rfl, -⟩ := ParseError.expected.inj (herror.symm.trans hown)
  rw [hdescribe]
  split
  · decide
  · split <;> decide

namespace State

section Refusal

variable {taken rest : List Token} {state : State} {error : ParseError}

theorem Reached.viable (h : Reached taken rest state) (hdotted : state.focus.isDotted = false) :
    Viable taken := by
  obtain ⟨tail, program, hprogram⟩ := exists_run_ok hdotted
  have hreached : Reached taken tail state := h.change (by simp [hdotted])
  refine ⟨tail, (sentence_iff _).2 ⟨program, ?_⟩⟩
  show (State.start.run (taken ++ tail)).1 = _
  rw [hreached.run_eq, hprogram]

theorem Reached.not_viable {token : Token} (h : Reached taken (token :: rest) state)
    (hdotted : state.focus.isDotted = false)
    (hrefuses : state.Refuses error (token :: rest))
    (hname : token.kind = .dot → ∀ role name, state.focus ≠ .named role name) :
    ¬ Viable (taken ++ [token]) := by
  rintro ⟨tail, hsentence⟩
  obtain ⟨program, hprogram⟩ := (sentence_iff _).1 hsentence
  have hreached : Reached taken (token :: tail) state := h.change (by simp [hdotted])
  have hrun : (State.start.run (taken ++ (token :: tail))).1 = .ok program := by
    simpa [parse] using hprogram
  have hstep : state.step token (tail.head?.map Token.kind) = .error error := by
    rw [step_ahead hname _ (rest.head?.map Token.kind)]
    exact hrefuses
  rw [hreached.run_eq, run, hstep] at hrun
  cases hrun

theorem Refuses.run_eq (h : state.Refuses error rest) :
    state.run rest = (.error error, if error = .tooDeep then rest.tail else rest) := by
  cases rest with
  | nil =>
    rw [run, show state.finish = .error error from h]
    split <;> rfl
  | cons token rest =>
    rw [run, show state.step token (rest.head?.map Token.kind) = .error error from h]
    cases error <;> rfl

theorem Reached.refusedAt_eq (h : Reached taken rest state) (hrefuses : state.Refuses error rest) :
    Descent.refusedAt (taken ++ rest) = taken.length := by
  have hparse : (Parser.mk (taken ++ rest)).parse =
      (.error error, ⟨if error = .tooDeep then rest.tail else rest⟩) := by
    rw [parse, h.run_eq, hrefuses.run_eq]
  -- Descent stops where the machine has as many tokens left.
  have hnew := Descent.atRest_ofTokens (taken ++ rest)
  obtain ⟨hresult, hrest⟩ := Prod.mk.inj (hparse.symm.trans hnew.machine_parse)
  have hleft := congrArg (fun parser => parser.rest.length) hrest
  have hle := hnew.parse.position_le
  simp only [List.length_drop, List.length_append] at hleft hle
  rw [Descent.refusedAt, ← hresult]
  cases error with
  | tooDeep =>
    -- The end of the tokens is not refused for its depth.
    have hmore : rest ≠ [] := by
      rintro rfl
      cases finish_eq_error (h.isDotted_of_refuses hrefuses) hrefuses
    have hpos := List.length_pos_iff.2 hmore
    simp only [if_true, List.length_tail] at hleft ⊢
    omega
  | expected wanted found =>
    simp only [reduceCtorEq, if_false] at hleft ⊢
    omega

/-- A token is refused for every continuation, unless it is a dot behind a name. -/
theorem Reached.refused {token : Token} (h : Reached taken (token :: rest) state)
    (hrefuses : state.step token (rest.head?.map Token.kind) = .error error) :
    if token.kind = .dot ∧ taken.getLast?.map Token.kind = some .text then
      rest.head?.map Token.kind ≠ some .text
    else ¬ Viable (taken ++ [token]) := by
  split
  · rename_i hdot
    obtain ⟨role, name, hfocus⟩ := (Focus.eq_named_iff h.isBehind).2 hdot.2
    intro htext
    rw [step, hfocus] at hrefuses
    simp [hdot.1, htext] at hrefuses
  · rename_i hdot
    refine h.not_viable (h.isDotted_of_refuses hrefuses) hrefuses fun hkind role name hfocus => ?_
    exact hdot ⟨hkind, (Focus.eq_named_iff h.isBehind).1 ⟨role, name, hfocus⟩⟩

theorem Reached.error_of_step {token : Token} (h : Reached taken (token :: rest) state)
    (hrefuses : state.step token (rest.head?.map Token.kind) = .error error) :
    (error = .tooDeep ↔
      Token.openings taken = Token.closings taken + maxNesting ∧ token.kind = .leftParen ∧
        taken.getLast?.map Token.kind ≠ some .leftParen) ∧
    (error ≠ .tooDeep → error = .expected
      (if taken.getLast?.map Token.kind = some .leftParen then .name else .expression) token) := by
  obtain ⟨herror, hdeep⟩ := step_eq_error (h.isDotted_of_refuses hrefuses) hrefuses
  have hopened := Focus.eq_opened_iff h.isBehind
  have hdepth := h.depth_eq
  have hbound := h.depth_le
  by_cases hfocus : state.focus = .opened
  · rw [if_pos hfocus] at herror
    simp [herror, hopened.1 hfocus]
  · rw [if_neg hfocus] at herror
    have hlast := mt hopened.2 hfocus
    by_cases hparen : token.kind = .leftParen
    · -- A parenthesis is refused only where the depth has reached its limit.
      have hfull : Token.openings taken = Token.closings taken + maxNesting := by
        have := hdeep hfocus hparen
        omega
      rw [if_pos hparen] at herror
      simp [herror, hparen, hlast, hfull]
    · rw [if_neg hparen] at herror
      simp [herror, hparen, hlast]

theorem Reached.error_of_finish (h : Reached taken [] state)
    (hrefuses : state.finish = .error error) :
    error = .expected
      (if taken.getLast?.map Token.kind = some .leftParen then .name else .closing) none := by
  rw [finish_eq_error (h.isDotted_of_refuses hrefuses) hrefuses]
  have hopened := Focus.eq_opened_iff h.isBehind
  by_cases hfocus : state.focus = .opened
  · rw [if_pos hfocus, if_pos (hopened.1 hfocus)]
  · rw [if_neg hfocus, if_neg (mt hopened.2 hfocus)]

theorem kindAt_length (taken rest : List Token) :
    kindAt (taken ++ rest) taken.length = rest.head?.map Token.kind := by
  rw [kindAt, List.getElem?_append_right (Nat.le_refl _), Nat.sub_self, List.head?_eq_getElem?]

theorem kindBefore_length (taken rest : List Token) :
    kindBefore (taken ++ rest) taken.length = taken.getLast?.map Token.kind := by
  rw [kindBefore, List.take_left]

theorem Reached.refusal_of_finish (h : Reached taken [] state)
    (hrefuses : state.finish = .error error) : Refusal (taken ++ []) error taken.length := by
  have herror := h.error_of_finish hrefuses
  have hend : taken.length = (taken ++ []).length := by rw [List.append_nil]
  refine ⟨Nat.le_of_eq hend, ?_, fun hlt => absurd hend (Nat.ne_of_lt hlt), ?_, ?_, ?_⟩
  · rw [List.take_left]
    exact h.viable (h.isDotted_of_refuses hrefuses)
  · rintro - hsentence
    obtain ⟨program, hprogram⟩ := (sentence_iff _).1 hsentence
    have hrun : (State.start.run (taken ++ [])).1 = .ok program := hprogram
    rw [h.run_eq, run, hrefuses] at hrun
    cases hrun
  · rw [kindAt_length, herror]
    simp
  · have hfound : (taken ++ [])[taken.length]? = none := by simp
    rw [kindBefore_length, hfound, if_pos hend]
    exact fun _ => ⟨_, herror, by split <;> rfl⟩

theorem Reached.refusal_of_step {token : Token} (h : Reached taken (token :: rest) state)
    (hrefuses : state.step token (rest.head?.map Token.kind) = .error error) :
    Refusal (taken ++ token :: rest) error taken.length := by
  obtain ⟨hdeep, hexpected⟩ := h.error_of_step hrefuses
  have hinside : taken.length ≠ (taken ++ token :: rest).length := by simp
  refine ⟨by simp, ?_, fun _ => ?_, fun heq => absurd heq hinside, ?_, fun hnot => ?_⟩
  · rw [List.take_left]
    exact h.viable (h.isDotted_of_refuses hrefuses)
  · have hahead : kindAt (taken ++ token :: rest) (taken.length + 1) =
        rest.head?.map Token.kind := by
      have hnext := kindAt_length (taken ++ [token]) rest
      rwa [List.append_assoc, List.singleton_append, List.length_append] at hnext
    have htake : (taken ++ token :: rest).take (taken.length + 1) = taken ++ [token] :=
      List.take_length_add_append 1
    rw [kindAt_length, kindBefore_length, hahead, htake]
    simpa using h.refused hrefuses
  · rw [List.take_left, kindAt_length, kindBefore_length, hdeep]
    simp
  · have hfound : (taken ++ token :: rest)[taken.length]? = some token := by simp
    rw [kindBefore_length, hfound, if_neg hinside]
    exact ⟨_, hexpected hnot, by split <;> rfl⟩

end Refusal

end State

end Parser

namespace Descent

open JsLisp.Parser (State Refusal)

theorem parse_ofTokens (tokens : List Token) :
    (ofTokens tokens).parse.1 = (Parser.mk tokens).parse.1 :=
  (congrArg Prod.fst (atRest_ofTokens tokens).machine_parse).symm

/-- A parser that fails gives up at the earliest token that no sentence can go on
with, apart from a dot that no name follows, and the error says which of its
reasons applies.  It never asks in vain for an opening parenthesis, a string or a
number, and the machine gives the same error. -/
theorem refusal_of_parse (tokens : List Token) (error : ParseError)
    (h : (ofTokens tokens).parse.1 = .error error) :
    Refusal tokens error (refusedAt tokens) ∧
    (∀ wanted found, error = .expected wanted found →
      wanted.describe ∉ ["'('", "string literal", "number literal"]) ∧
    (Parser.mk tokens).parse.1 = .error error := by
  have hmachine : (Parser.mk tokens).parse.1 = .error error := by
    rw [← parse_ofTokens, h]
  obtain ⟨taken, rest, state, happend, hreached, hrefuses⟩ :=
    State.exists_refuses (.start tokens) hmachine
  obtain rfl : tokens = taken ++ rest := happend
  have hrefusal : Refusal (taken ++ rest) error taken.length := by
    cases rest with
    | nil => exact hreached.refusal_of_finish hrefuses
    | cons token rest => exact hreached.refusal_of_step hrefuses
  refine ⟨?_, fun wanted found herror => hrefusal.describe_not_mem herror, hmachine⟩
  rw [hreached.refusedAt_eq hrefuses]
  exact hrefusal

/-- A dot behind a callee, in front of a closing parenthesis. -/
theorem refusal_of_dangling_dot :
    (ofTokens [⟨.leftParen, "("⟩, ⟨.text, "f"⟩, ⟨.dot, "."⟩, ⟨.rightParen, ")"⟩]).parse.1 =
      .error (.expected .expression (some ⟨.dot, "."⟩)) ∧
    refusedAt [⟨.leftParen, "("⟩, ⟨.text, "f"⟩, ⟨.dot, "."⟩, ⟨.rightParen, ")"⟩] = 2 ∧
    Refusal [⟨.leftParen, "("⟩, ⟨.text, "f"⟩, ⟨.dot, "."⟩, ⟨.rightParen, ")"⟩]
      (.expected .expression (some ⟨.dot, "."⟩)) 2 := by
  have hparse := parse_ofTokens
    [⟨.leftParen, "("⟩, ⟨.text, "f"⟩, ⟨.dot, "."⟩, ⟨.rightParen, ")"⟩]
  have hat : refusedAt [⟨.leftParen, "("⟩, ⟨.text, "f"⟩, ⟨.dot, "."⟩, ⟨.rightParen, ")"⟩] = 2 := by
    decide +kernel
  have hrefusal := (refusal_of_parse _ _ hparse).1
  rw [hat] at hrefusal
  exact ⟨hparse, hat, hrefusal⟩

end Descent
end JsLisp
