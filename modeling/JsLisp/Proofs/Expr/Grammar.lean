/-
The parser accepts exactly its grammar.

Reading the tokens of an expression puts the expression into the innermost open
call, whatever follows, as long as no call stands in more than `maxNesting`
calls; if one does, the reading fails there.  Both are inductions on the tree with
the rest of the input and the open calls arbitrary.  With the soundness of the
step relation from `Yield` they decide every token list.
-/
import JsLisp.Proofs.Expr.Yield

namespace JsLisp

namespace ParseError

/-- The error with the usual text in its token. -/
def plain : ParseError → ParseError
  | expected wanted found => expected wanted (found.map Token.plain)
  | tooDeep => tooDeep

end ParseError

namespace Parser
namespace State

theorem shift_plain (state : State) (token : Token) :
    state.shift token.plain = (state.shift token).mapError ParseError.plain := by
  obtain ⟨kind, text⟩ := token
  cases kind with
  | leftParen =>
    simp only [shift, Token.plain, Token.opening]
    split <;> rfl
  | rightParen =>
    simp only [shift, Token.plain, Token.closing]
    split <;> rfl
  | _ => rfl

theorem expect_plain {token : Token} {kind : TokenKind} {wanted : Wanted}
    {next next' : Except ParseError State}
    (h : token.kind = kind → next' = next.mapError ParseError.plain) :
    expect token.plain kind wanted next' =
      (expect token kind wanted next).mapError ParseError.plain := by
  by_cases hkind : token.kind = kind
  · have hplain : token.plain.kind = kind := by rw [Token.plain_kind, hkind]
    rw [expect_of_kind hplain, expect_of_kind hkind, h hkind]
  · have hplain : token.plain.kind ≠ kind := by rwa [Token.plain_kind]
    rw [expect_of_ne hplain, expect_of_ne hkind]
    rfl

theorem step_plain (state : State) (token : Token) (ahead : Option TokenKind) :
    state.step token.plain ahead = (state.step token ahead).mapError ParseError.plain := by
  have hword : token.kind = .text → token.plain.text = token.text := fun h => by
    rw [Token.plain_eq_word h, Token.word]
  unfold step
  simp only [Token.plain_kind]
  split
  · exact shift_plain state token
  · refine expect_plain fun hkind => ?_
    rw [hword hkind]
    rfl
  · split
    · rfl
    · exact shift_plain state.settle token
  · refine expect_plain fun hkind => ?_
    rw [hword hkind]
    rfl

theorem run_map_plain (state : State) (ts : List Token) :
    (state.run (ts.map Token.plain)).1 = (state.run ts).1.mapError ParseError.plain := by
  induction ts generalizing state with
  | nil =>
    show state.finish = state.finish.mapError ParseError.plain
    unfold finish
    split
    · rfl
    · rfl
    · dsimp only
      split <;> rfl
    · dsimp only
      split <;> rfl
  | cons token ts ih =>
    have hahead : ((ts.map Token.plain).head?.map Token.kind) = ts.head?.map Token.kind := by
      cases ts <;> simp
    rw [List.map_cons, run, run, hahead, step_plain]
    cases state.step token (ts.head?.map Token.kind) with
    | ok next => exact ih next
    | error error => rfl

/-! ## Names

A name is finished by the first token that does not continue it, so what follows
a name must not start with a dot. -/

def Detached (ts : List Token) : Prop :=
  ts.head?.map Token.kind ≠ some .dot

theorem detached_cons {token : Token} (ts : List Token) (h : token.kind ≠ .dot) :
    Detached (token :: ts) := by
  simpa [Detached] using h

/-- A name is finished where no dot with a segment behind it follows. -/
theorem run_settle {state : State} {role : Role} {name : Name}
    (hfocus : state.focus = .named role name) {rest : List Token}
    (hrest : ∀ token more, rest = token :: more →
      ¬ (token.kind = .dot ∧ more.head?.map Token.kind = some .text)) :
    state.run rest = state.settle.run rest := by
  have hbetween := settle_focus hfocus
  cases rest with
  | nil =>
    show (state.finish, []) = (state.settle.finish, [])
    simp [finish, hfocus, hbetween, settle_eq_self hbetween]
  | cons token rest =>
    have hstep : state.step token (rest.head?.map Token.kind) =
        state.settle.step token (rest.head?.map Token.kind) := by
      rw [step, step, hfocus, hbetween]
      exact if_neg (hrest token rest rfl)
    rw [run, run, hstep]

theorem run_eq_run_settle {state : State} {role : Role} {name : Name}
    (hfocus : state.focus = .named role name) {rest : List Token} (hrest : Detached rest) :
    state.run rest = state.settle.run rest := by
  refine run_settle hfocus fun token more hcons hdot => ?_
  rw [hcons] at hrest
  exact hrest (congrArg some hdot.1)

theorem run_memberTokens (state : State) (role : Role) (name : Name) (members : List String)
    (rest : List Token) :
    { state with focus := .named role name }.run (Name.memberTokens members ++ rest) =
      { state with focus := .named role ⟨name.head, name.members ++ members⟩ }.run rest := by
  induction members generalizing name with
  | nil => simp [Name.memberTokens]
  | cons segment members ih =>
    -- The dot continues the name because a segment stands behind it.
    have htwo : { state with focus := .named role name }.run
        (Name.memberTokens (segment :: members) ++ rest) =
        { state with focus := .named role (name.extend segment) }.run
          (Name.memberTokens members ++ rest) := by
      simp [Name.memberTokens, run, step, Token.point, Token.word]
    rw [htwo, ih]
    simp [Name.extend]

theorem run_name {state : State} (hfocus : state.focus = .between) (name : Name)
    (rest : List Token) :
    state.run (name.tokens ++ rest) = { state with focus := .named .operand name }.run rest := by
  have hhead : state.run (name.tokens ++ rest) =
      { state with focus := .named .operand ⟨name.head, []⟩ }.run
        (Name.memberTokens name.members ++ rest) := by
    simp [Name.tokens, run, step, shift, hfocus, Token.word]
  rw [hhead, run_memberTokens, List.nil_append]

/-- The state in a call whose name is read. -/
def enter (state : State) (callee : Name) : State :=
  { state with calls := ⟨callee, []⟩ :: state.calls, focus := .between }

theorem run_opening {state : State} (hfocus : state.focus = .between)
    (hroom : state.calls.length < maxNesting) (callee : Name) {rest : List Token}
    (hrest : Detached rest) :
    state.run (.opening :: (callee.tokens ++ rest)) = (state.enter callee).run rest := by
  have hhead : state.run (.opening :: (callee.tokens ++ rest)) =
      { state with focus := .named .callee ⟨callee.head, []⟩ }.run
        (Name.memberTokens callee.members ++ rest) := by
    simp [Name.tokens, run, step, shift, hfocus, hroom, Token.word, Token.opening]
  rw [hhead, run_memberTokens, List.nil_append]
  exact run_eq_run_settle rfl hrest

def addAll (state : State) (es : List Expr) : State :=
  es.foldl add state

theorem focus_add (state : State) (e : Expr) : (state.add e).focus = .between := by
  obtain ⟨body, calls, focus⟩ := state
  cases calls <;> rfl

theorem length_calls_add (state : State) (e : Expr) :
    (state.add e).calls.length = state.calls.length := by
  obtain ⟨body, calls, focus⟩ := state
  cases calls <;> rfl

theorem body_addAll (body es : List Expr) :
    (State.mk body [] .between).addAll es = ⟨es.reverse ++ body, [], .between⟩ := by
  induction es generalizing body with
  | nil => rfl
  | cons e es ih =>
    show (State.mk (e :: body) [] .between).addAll es = _
    rw [ih]
    simp

theorem args_addAll (body : List Expr) (call : OpenCall) (calls : List OpenCall)
    (es : List Expr) :
    (State.mk body (call :: calls) .between).addAll es =
      ⟨body, { call with args := es.reverse ++ call.args } :: calls, .between⟩ := by
  induction es generalizing call with
  | nil => rfl
  | cons e es ih =>
    show (State.mk body ({ call with args := e :: call.args } :: calls) .between).addAll es = _
    rw [ih]
    simp

/-- A closing parenthesis makes the innermost call an argument of the next. -/
theorem step_closing {state : State} (hfocus : state.focus = .between) (callee : Name)
    (args : List Expr) {token : Token} (hkind : token.kind = .rightParen)
    (ahead : Option TokenKind) :
    ((state.enter callee).addAll args).step token ahead =
      .ok (state.add (.call callee args)) := by
  obtain ⟨body, calls, focus⟩ := state
  obtain rfl : focus = .between := hfocus
  rw [enter, args_addAll]
  simp [step, shift, hkind]

theorem run_closing (state : State) (callee : Name) (args : List Expr) (rest : List Token)
    (hfocus : state.focus = .between) :
    ((state.enter callee).addAll args).run (.closing :: rest) =
      (state.add (.call callee args)).run rest := by
  rw [run, step_closing hfocus callee args rfl]

theorem detached_tokens (e : Expr) (rest : List Token) : Detached (e.tokens ++ rest) := by
  cases e <;> simp [Detached, Expr.tokens, Name.tokens, Token.word, Token.opening]

theorem detached_tokensAll (es : List Expr) {rest : List Token} (h : Detached rest) :
    Detached (Expr.tokensAll es ++ rest) := by
  cases es with
  | nil => exact h
  | cons e es =>
    rw [Expr.tokensAll, List.append_assoc]
    exact detached_tokens e _

mutual

/-- Reading an expression adds it to the innermost open call. -/
theorem run_tokens {state : State} (hfocus : state.focus = .between) {rest : List Token}
    (hrest : Detached rest) (e : Expr) (hroom : state.calls.length + e.nesting ≤ maxNesting) :
    state.run (e.tokens ++ rest) = (state.add e).run rest := by
  cases e with
  | call callee args =>
    simp only [Expr.nesting] at hroom
    have hargs : (state.enter callee).calls.length + Expr.nestingAll args ≤ maxNesting := by
      simp only [enter, List.length_cons]
      omega
    have hclosing : Detached (.closing :: rest) := detached_cons rest (by decide)
    simp only [Expr.tokens, List.cons_append, List.append_assoc, List.nil_append]
    rw [run_opening hfocus (by omega) callee (detached_tokensAll args hclosing),
      run_tokensAll rfl hclosing args hargs, run_closing state callee args rest hfocus]
  | name n =>
    rw [Expr.tokens, run_name hfocus]
    exact run_eq_run_settle rfl hrest
  | string value => simp [Expr.tokens, run, step, shift, hfocus]
  | number raw => simp [Expr.tokens, run, step, shift, hfocus]

theorem run_tokensAll {state : State} (hfocus : state.focus = .between) {rest : List Token}
    (hrest : Detached rest) (es : List Expr)
    (hroom : state.calls.length + Expr.nestingAll es ≤ maxNesting) :
    state.run (Expr.tokensAll es ++ rest) = (state.addAll es).run rest := by
  cases es with
  | nil => rfl
  | cons e es =>
    simp only [Expr.nestingAll] at hroom
    rw [Expr.tokensAll, List.append_assoc,
      run_tokens hfocus (detached_tokensAll es hrest) e (by omega),
      run_tokensAll (focus_add state e) hrest es (by rw [length_calls_add]; omega)]
    rfl

end

mutual

/-- Reading an expression fails if one of its calls stands in too many. -/
theorem run_tokens_tooDeep {state : State} (hfocus : state.focus = .between)
    (rest : List Token) (hcalls : state.calls.length ≤ maxNesting) (e : Expr)
    (hdeep : maxNesting < state.calls.length + e.nesting) :
    (state.run (e.tokens ++ rest)).1 = .error .tooDeep := by
  cases e with
  | call callee args =>
    simp only [Expr.nesting] at hdeep
    by_cases hroom : state.calls.length < maxNesting
    · have hargs : maxNesting < (state.enter callee).calls.length + Expr.nestingAll args := by
        simp only [enter, List.length_cons]
        omega
      have hclosing : Detached (.closing :: rest) := detached_cons rest (by decide)
      simp only [Expr.tokens, List.cons_append, List.append_assoc, List.nil_append]
      rw [run_opening hfocus hroom callee (detached_tokensAll args hclosing)]
      have hcalls' : (state.enter callee).calls.length ≤ maxNesting := hroom
      exact run_tokensAll_tooDeep rfl hclosing hcalls' args hargs
    · simp [Expr.tokens, run, step, shift, hfocus, hroom, Token.opening]
  | name n | string value | number raw =>
    simp only [Expr.nesting] at hdeep
    omega

theorem run_tokensAll_tooDeep {state : State} (hfocus : state.focus = .between)
    {rest : List Token} (hrest : Detached rest) (hcalls : state.calls.length ≤ maxNesting)
    (es : List Expr) (hdeep : maxNesting < state.calls.length + Expr.nestingAll es) :
    (state.run (Expr.tokensAll es ++ rest)).1 = .error .tooDeep := by
  cases es with
  | nil =>
    simp only [Expr.nestingAll] at hdeep
    omega
  | cons e es =>
    simp only [Expr.nestingAll] at hdeep
    rw [Expr.tokensAll, List.append_assoc]
    by_cases hroom : state.calls.length + e.nesting ≤ maxNesting
    · rw [run_tokens hfocus (detached_tokensAll es hrest) e hroom]
      have hlength := length_calls_add state e
      exact run_tokensAll_tooDeep (focus_add state e) hrest (by omega) es (by omega)
    · exact run_tokens_tooDeep hfocus _ hcalls e (by omega)

end

end State

theorem parse_tokens {program : Program} (h : program.nesting ≤ maxNesting) :
    (Parser.mk program.tokens).parse.1 = .ok program := by
  have hroom : State.start.calls.length + Expr.nestingAll program.body ≤ maxNesting := by
    simpa [State.start, Program.nesting] using h
  have hrun : State.start.run (program.tokens ++ []) = (State.start.addAll program.body).run [] :=
    State.run_tokensAll rfl (by simp [State.Detached]) program.body hroom
  rw [List.append_nil, State.start, State.body_addAll] at hrun
  show (State.start.run program.tokens).1 = _
  rw [State.start, hrun]
  simp [State.run, State.finish, State.settle]

theorem parse_tokens_tooDeep {program : Program} (h : maxNesting < program.nesting) :
    (Parser.mk program.tokens).parse.1 = .error .tooDeep := by
  have hdeep : maxNesting < State.start.calls.length + Expr.nestingAll program.body := by
    simpa [State.start, Program.nesting] using h
  have hrun : (State.start.run (program.tokens ++ [])).1 = .error .tooDeep :=
    State.run_tokensAll_tooDeep rfl (by simp [State.Detached]) (Nat.zero_le _) program.body hdeep
  rwa [List.append_nil] at hrun

theorem yields_of_parse {tokens : List Token} {program : Program}
    (h : (Parser.mk tokens).parse.1 = .ok program) : program.Yields tokens := by
  have hrun : program.tokens = State.start.tokens ++ tokens.map Token.plain := State.tokens_run h
  rw [Program.Yields, hrun]
  rfl

/-- A spelling is read as the program's own tokens are, up to the texts of
parentheses and dots in an error. -/
theorem parse_of_yields {tokens : List Token} {program : Program} (h : program.Yields tokens) :
    (Parser.mk program.tokens).parse.1 =
      (Parser.mk tokens).parse.1.mapError ParseError.plain := by
  rw [← show tokens.map Token.plain = program.tokens from h]
  exact State.run_map_plain State.start tokens

theorem parse_eq_ok_of_yields {tokens : List Token} {program : Program}
    (h : program.Yields tokens) (hnesting : program.nesting ≤ maxNesting) :
    (Parser.mk tokens).parse.1 = .ok program := by
  have hplain := parse_of_yields h
  rw [parse_tokens hnesting] at hplain
  cases hparse : (Parser.mk tokens).parse.1 with
  | ok other =>
    rw [hparse] at hplain
    exact hplain.symm
  | error error =>
    rw [hparse] at hplain
    cases hplain

theorem nesting_le_of_parse {tokens : List Token} {program other : Program}
    (h : (Parser.mk tokens).parse.1 = .ok program) (hother : other.Yields tokens) :
    other.nesting ≤ maxNesting := by
  rcases Nat.lt_or_ge maxNesting other.nesting with hdeep | hfits
  · have hplain := parse_of_yields hother
    rw [parse_tokens_tooDeep hdeep, h] at hplain
    cases hplain
  · exact hfits

/-- The parser accepts exactly the spellings of programs whose calls are nested
at most `maxNesting` deep, and returns the program that is spelled.  No other
program, of any nesting, has the same spelling. -/
theorem parse_eq_ok_iff_yields (tokens : List Token) (program : Program) :
    ((Parser.mk tokens).parse.1 = .ok program ↔
      program.Yields tokens ∧ program.nesting ≤ maxNesting) ∧
    ((Parser.mk tokens).parse.1 = .ok program →
      ∀ other : Program, other.Yields tokens → other = program) := by
  refine ⟨⟨fun h => ?_, fun h => parse_eq_ok_of_yields h.1 h.2⟩, fun h other hother => ?_⟩
  · have hyields := yields_of_parse h
    exact ⟨hyields, nesting_le_of_parse h hyields⟩
  · have hparse := parse_eq_ok_of_yields hother (nesting_le_of_parse h hother)
    rw [h] at hparse
    exact (Except.ok.inj hparse).symm

/-- The spelling of one call of a dotted name, with unusual punctuation. -/
theorem parse_dotted_call :
    (Parser.mk [⟨.leftParen, "["⟩, ⟨.text, "a"⟩, ⟨.dot, ""⟩, ⟨.text, "b"⟩, ⟨.string, ")"⟩,
      ⟨.rightParen, "]"⟩]).parse.1 = .ok ⟨[.call ⟨"a", ["b"]⟩ [.string ")"]]⟩ ∧
    ∀ other : Program, other.Yields [⟨.leftParen, "["⟩, ⟨.text, "a"⟩, ⟨.dot, ""⟩, ⟨.text, "b"⟩,
      ⟨.string, ")"⟩, ⟨.rightParen, "]"⟩] → other = ⟨[.call ⟨"a", ["b"]⟩ [.string ")"]]⟩ := by
  have h := parse_eq_ok_iff_yields [⟨.leftParen, "["⟩, ⟨.text, "a"⟩, ⟨.dot, ""⟩, ⟨.text, "b"⟩,
    ⟨.string, ")"⟩, ⟨.rightParen, "]"⟩] ⟨[.call ⟨"a", ["b"]⟩ [.string ")"]]⟩
  have hparse := h.1.2 ⟨by decide, by decide⟩
  exact ⟨hparse, h.2 hparse⟩

end Parser
end JsLisp
