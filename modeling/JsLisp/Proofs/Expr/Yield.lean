/-
The tokens that spell a program.

`Program.Yields` is the grammar of the parser, stated on the tree: a token list
spells a program when it is the program's tokens, read with the texts of
parentheses and dots put aside.  The reader takes one token a step, and
`State.tokens` writes out what a state has taken so far, so that soundness is one
equation a step: the tokens of the next state are those of the last with one
more.
-/
import JsLisp.Expr.Parser

namespace JsLisp

namespace Token

def opening : Token := ⟨.leftParen, "("⟩

def closing : Token := ⟨.rightParen, ")"⟩

def point : Token := ⟨.dot, "."⟩

def word (text : String) : Token := ⟨.text, text⟩

/-- The token with the usual text, if it is a parenthesis or a dot.  Their texts
carry no meaning, and a token list made by hand may hold others. -/
def plain (token : Token) : Token :=
  match token.kind with
  | .leftParen => opening
  | .rightParen => closing
  | .dot => point
  | _ => token

@[simp]
theorem plain_kind (token : Token) : token.plain.kind = token.kind := by
  obtain ⟨kind, text⟩ := token
  cases kind <;> rfl

theorem plain_eq_point {token : Token} (h : token.kind = .dot) : token.plain = point := by
  simp [plain, h]

theorem plain_eq_word {token : Token} (h : token.kind = .text) :
    token.plain = word token.text := by
  obtain ⟨kind, text⟩ := token
  obtain rfl : kind = .text := h
  rfl

end Token

namespace Name

/-- The tokens that further segments add to a name. -/
def memberTokens (members : List String) : List Token :=
  members.flatMap fun segment => [.point, .word segment]

def tokens (name : Name) : List Token :=
  .word name.head :: memberTokens name.members

@[simp]
theorem tokens_extend (name : Name) (segment : String) :
    (name.extend segment).tokens = name.tokens ++ [.point, .word segment] := by
  simp [tokens, memberTokens, extend]

end Name

namespace Expr

mutual

def tokens : Expr → List Token
  | call callee args => .opening :: (callee.tokens ++ (tokensAll args ++ [.closing]))
  | name n => n.tokens
  | string value => [⟨.string, value⟩]
  | number raw => [⟨.number, raw⟩]

def tokensAll : List Expr → List Token
  | [] => []
  | e :: es => tokens e ++ tokensAll es

end

@[simp]
theorem tokensAll_append (as bs : List Expr) :
    tokensAll (as ++ bs) = tokensAll as ++ tokensAll bs := by
  induction as with
  | nil => rfl
  | cons a as ih => simp only [List.cons_append, tokensAll, ih, List.append_assoc]

@[simp]
theorem tokensAll_singleton (e : Expr) : tokensAll [e] = e.tokens := by
  simp [tokensAll]

end Expr

namespace Program

def tokens (program : Program) : List Token :=
  Expr.tokensAll program.body

def nesting (program : Program) : Nat :=
  Expr.nestingAll program.body

/-- The tokens spell the program. -/
def Yields (program : Program) (tokens : List Token) : Prop :=
  tokens.map Token.plain = program.tokens

instance (program : Program) (tokens : List Token) : Decidable (program.Yields tokens) :=
  inferInstanceAs (Decidable (_ = _))

end Program

namespace Parser

def OpenCall.tokens (call : OpenCall) : List Token :=
  .opening :: (call.callee.tokens ++ Expr.tokensAll call.args.reverse)

namespace Focus

/-- A name that is to be called has its opening parenthesis with it until its
call is put on the stack. -/
def tokens : Focus → List Token
  | between => []
  | opened => [.opening]
  | named .callee name => .opening :: name.tokens
  | named .operand name => name.tokens
  | dotted .callee name => .opening :: (name.tokens ++ [.point])
  | dotted .operand name => name.tokens ++ [.point]

end Focus

namespace State

/-- The tokens taken so far. -/
def tokens (state : State) : List Token :=
  Expr.tokensAll state.body.reverse ++
    (state.calls.reverse.flatMap OpenCall.tokens ++ state.focus.tokens)

theorem tokens_add (state : State) (e : Expr) :
    (state.add e).tokens = { state with focus := .between }.tokens ++ e.tokens := by
  obtain ⟨body, calls, focus⟩ := state
  cases calls with
  | nil => simp [add, tokens, Focus.tokens]
  | cons call calls => simp [add, tokens, Focus.tokens, OpenCall.tokens]

theorem tokens_settle (state : State) : state.settle.tokens = state.tokens := by
  obtain ⟨body, calls, focus⟩ := state
  unfold settle
  split
  · rename_i name h
    obtain rfl : focus = .named .callee name := h
    simp [tokens, Focus.tokens, OpenCall.tokens, Expr.tokensAll]
  · rename_i name h
    obtain rfl : focus = .named .operand name := h
    rw [tokens_add]
    simp [tokens, Focus.tokens, Expr.tokens]
  · rfl

theorem settle_eq_self {state : State} (h : state.focus = .between) : state.settle = state := by
  simp [settle, h]

theorem settle_focus {state : State} {role : Role} {name : Name}
    (h : state.focus = .named role name) : state.settle.focus = .between := by
  obtain ⟨body, calls, focus⟩ := state
  obtain rfl : focus = .named role name := h
  cases role with
  | callee => rfl
  | operand => cases calls <;> rfl

theorem tokens_shift {state next : State} {token : Token} (hfocus : state.focus = .between)
    (h : state.shift token = .ok next) : next.tokens = state.tokens ++ [token.plain] := by
  obtain ⟨body, calls, focus⟩ := state
  obtain rfl : focus = .between := hfocus
  obtain ⟨kind, text⟩ := token
  cases kind with
  | leftParen =>
    simp only [shift] at h
    split at h
    · cases h
      simp [tokens, Focus.tokens, Token.plain]
    · cases h
  | rightParen =>
    -- The call that is closed moves from the stack into the expression it is part of.
    cases calls with
    | nil => cases h
    | cons call calls =>
      cases h
      rw [tokens_add]
      simp [tokens, Focus.tokens, OpenCall.tokens, Expr.tokens, Token.plain]
  | text =>
    cases h
    simp [tokens, Focus.tokens, Token.plain, Name.tokens, Name.memberTokens, Token.word]
  | string =>
    cases h
    simp [tokens_add, Expr.tokens, Token.plain]
  | number =>
    cases h
    simp [tokens_add, Expr.tokens, Token.plain]
  | dot | plus | minus | star | slash | trueWord | falseWord | undefinedWord | nullWord =>
    cases h

theorem tokens_step {state next : State} {token : Token} {ahead : Option TokenKind}
    (h : state.step token ahead = .ok next) : next.tokens = state.tokens ++ [token.plain] := by
  unfold step at h
  split at h
  · rename_i hfocus
    exact tokens_shift hfocus h
  · rename_i hfocus
    obtain ⟨hkind, hnext⟩ := expect_eq_ok_iff.1 h
    cases hnext
    simp [tokens, hfocus, Focus.tokens, Token.plain_eq_word hkind, Name.tokens,
      Name.memberTokens]
  · rename_i role name hfocus
    split at h
    · rename_i hdot
      cases h
      cases role <;> simp [tokens, hfocus, Focus.tokens, Token.plain_eq_point hdot.1]
    · rw [tokens_shift (settle_focus hfocus) h, tokens_settle]
  · rename_i role name hfocus
    obtain ⟨hkind, hnext⟩ := expect_eq_ok_iff.1 h
    cases hnext
    cases role <;> simp [tokens, hfocus, Focus.tokens, Token.plain_eq_word hkind]

theorem tokens_finish {state : State} {program : Program} (h : state.finish = .ok program) :
    program.tokens = state.tokens := by
  have settled {s : State} (hfocus : s.focus = .between)
      (hfinish : (if s.calls.isEmpty then .ok ⟨s.body.reverse⟩
        else .error (.expected .closing none) : Except ParseError Program) = .ok program) :
      program.tokens = s.tokens := by
    split at hfinish
    · rename_i hcalls
      cases hfinish
      simp [Program.tokens, tokens, List.isEmpty_iff.1 hcalls, hfocus, Focus.tokens]
    · cases hfinish
  unfold finish at h
  split at h
  · cases h
  · cases h
  · rename_i hfocus
    rw [← tokens_settle]
    exact settled (by rw [settle_eq_self hfocus, hfocus]) h
  · rename_i role name hfocus
    rw [← tokens_settle]
    exact settled (settle_focus hfocus) h

/-- A successful reading has taken exactly the tokens of its program. -/
theorem tokens_run {state : State} {ts : List Token} {program : Program}
    (h : (state.run ts).1 = .ok program) :
    program.tokens = state.tokens ++ ts.map Token.plain := by
  induction ts generalizing state with
  | nil =>
    rw [List.map_nil, List.append_nil]
    exact tokens_finish h
  | cons token ts ih =>
    rw [run] at h
    split at h
    · rename_i next hstep
      rw [ih h, tokens_step hstep, List.map_cons, List.append_assoc, List.singleton_append]
    · cases h

end State
end Parser
end JsLisp
