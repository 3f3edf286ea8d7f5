/-
Reading tokens into a program by recursive descent.

Where the pushdown machine keeps the open calls on a stack, a `Descent` keeps them in
its recursion and only counts them.  Its state is the place it has reached in the
tokens and that count, and both outlive a failure: the next call of `parse` goes on
from there.

A `Reading` carries the proof that it did not go back, and that a success has taken
as many tokens as it must.  The recursion ends because of it.
-/
import JsLisp.Expr.Parser

namespace JsLisp

/-- A parser at some place in its tokens, standing in `depth` calls. -/
structure Descent where
  tokens : List Token
  position : Nat
  depth : Nat
deriving DecidableEq

namespace Descent

def ofTokens (tokens : List Token) : Descent :=
  { tokens := tokens, position := 0, depth := 0 }

/-- The token to read next. -/
def peek (d : Descent) : Option Token :=
  d.tokens[d.position]?

/-- The kind of a token that is so many places further on. -/
def kindAhead (d : Descent) (offset : Nat) : Option TokenKind :=
  d.tokens[d.position + offset]?.map Token.kind

def advance (d : Descent) : Descent :=
  { d with position := d.position + 1 }

def enter (d : Descent) : Descent :=
  { d with depth := d.depth + 1 }

def leave (d : Descent) : Descent :=
  { d with depth := d.depth - 1 }

/-- How many tokens are left. -/
def left (d : Descent) : Nat :=
  d.tokens.length - d.position

theorem position_lt_of_peek {d : Descent} {token : Token} (h : d.peek = some token) :
    d.position < d.tokens.length :=
  (List.getElem?_eq_some_iff.1 h).1

/-- Expressions end with the tokens, and inside a call at its parenthesis. -/
def stops (d : Descent) (inCall : Bool) : Bool :=
  match d.peek with
  | none => true
  | some token => inCall && token.kind = .rightParen

theorem exists_peek_of_stops {d : Descent} {inCall : Bool} (h : d.stops inCall = false) :
    ∃ token, d.peek = some token ∧ (inCall = true → token.kind ≠ .rightParen) := by
  unfold stops at h
  split at h
  · cases h
  · rename_i token hpeek
    exact ⟨token, hpeek, fun hcall hkind => by simp [hcall, hkind] at h⟩

/-- The same tokens, at least so many of them further on. -/
structure Beyond (d : Descent) (least : Nat) (d' : Descent) : Prop where
  tokens_eq : d'.tokens = d.tokens
  position_le : d.position + least ≤ d'.position

namespace Beyond

variable {d d' d'' : Descent} {m n : Nat}

theorem trans (h : Beyond d m d') (h' : Beyond d' n d'') : Beyond d (n + m) d'' := by
  have := h.position_le
  have := h'.position_le
  exact ⟨h'.tokens_eq.trans h.tokens_eq, by omega⟩

theorem left_le (h : Beyond d m d') : d'.left ≤ d.left := by
  have := h.position_le
  rw [left, left, h.tokens_eq]
  omega

theorem left_lt (h : Beyond d m d') (hpos : 0 < m) (hlt : d.position < d.tokens.length) :
    d'.left < d.left := by
  have := h.position_le
  rw [left, left, h.tokens_eq]
  omega

end Beyond

/-- What reading from `start` on comes to, and where.  A success has taken at least
`least` tokens. -/
structure Reading (start : Descent) (least : Nat) (α : Type) where
  result : Except ParseError α
  after : Descent
  beyond : Beyond start 0 after
  least_beyond : ∀ a, result = .ok a → Beyond start least after

namespace Reading

variable {α β : Type} {m n : Nat}

/-- Read nothing. -/
def give (d : Descent) (a : α) : Reading d 0 α where
  result := .ok a
  after := d
  beyond := ⟨rfl, Nat.le_refl _⟩
  least_beyond _ _ := ⟨rfl, Nat.le_refl _⟩

/-- Fail, and leave the next token where it is. -/
def refuse (d : Descent) (error : ParseError) : Reading d n α where
  result := .error error
  after := d
  beyond := ⟨rfl, Nat.le_refl _⟩
  least_beyond _ h := nomatch h

/-- Take the next token, whatever it is. -/
def skip (d : Descent) : Reading d 1 Unit where
  result := .ok ()
  after := d.advance
  beyond := ⟨rfl, Nat.le_succ _⟩
  least_beyond _ _ := ⟨rfl, Nat.le_refl _⟩

/-- Read on if the first reading succeeds. -/
def bind {d : Descent} (first : Reading d m α)
    (next : α → (d' : Descent) → Beyond d m d' → Reading d' n β) : Reading d (n + m) β :=
  match h : first.result with
  | .error error => ⟨.error error, first.after, first.beyond, fun _ h => nomatch h⟩
  | .ok a =>
    let second := next a first.after (first.least_beyond a h)
    ⟨second.result, second.after, first.beyond.trans second.beyond, fun b hb =>
      (first.least_beyond a h).trans (second.least_beyond b hb)⟩

/-- Forget how many tokens were taken. -/
def forget {d : Descent} (reading : Reading d n α) : Reading d 0 α :=
  { reading with least_beyond := fun _ _ => reading.beyond }

/-- Read one call deeper and come back up, whatever the outcome. -/
def nested {d : Descent} (inner : Reading d.enter n α) : Reading d n α where
  result := inner.result
  after := inner.after.leave
  beyond := ⟨inner.beyond.tokens_eq, inner.beyond.position_le⟩
  least_beyond a h :=
    ⟨(inner.least_beyond a h).tokens_eq, (inner.least_beyond a h).position_le⟩

end Reading

open Reading

/-- Take the next token if it is of the kind. -/
def consume (d : Descent) (kind : TokenKind) (wanted : Wanted) : Reading d 1 Token :=
  match d.peek with
  | none => refuse d (.expected wanted none)
  | some token =>
    if token.kind = kind then (skip d).bind fun _ d' _ => give d' token
    else refuse d (.expected wanted token)

/-- The segments behind the first.  A dot is taken only if a segment follows it. -/
def members (d : Descent) : Reading d 0 (List String) :=
  match _hpeek : d.peek with
  | none => give d []
  | some token =>
    if token.kind = .dot ∧ d.kindAhead 1 = some .text then
      forget <| (skip d).bind fun _ d₁ _h₁ => (consume d₁ .text .name).bind fun segment d₂ _h₂ =>
        (members d₂).bind fun rest d₃ _ => give d₃ (segment.text :: rest)
    else give d []
termination_by d.left
decreasing_by exact (_h₁.trans _h₂).left_lt (by decide) (position_lt_of_peek _hpeek)

def name (d : Descent) : Reading d 1 Name :=
  (consume d .text .name).bind fun head d₁ _ =>
    (members d₁).bind fun rest d₂ _ => give d₂ ⟨head.text, rest⟩

/-- A literal, which is one token. -/
def literal (d : Descent) (kind : TokenKind) (wanted : Wanted) (make : String → Expr) :
    Reading d 1 Expr :=
  (consume d kind wanted).bind fun token d₁ _ => give d₁ (make token.text)

mutual

/-- An expression.  Its first token is looked at, and asked for again where it is taken.
The parenthesis of a call is taken before the depth is looked at. -/
def expression (d : Descent) : Reading d 1 Expr :=
  match _hpeek : d.peek with
  | none => refuse d (.expected .expression none)
  | some token =>
    match token.kind with
    | .leftParen =>
      (consume d .leftParen .opening).bind fun _ d₁ _h₁ =>
        if maxNesting ≤ d₁.depth then refuse d₁ .tooDeep else nested (call d₁.enter)
    | .text => (name d).bind fun n d₁ _ => give d₁ (.name n)
    | .string => literal d .string .string .string
    | .number => literal d .number .number .number
    | _ => refuse d (.expected .expression token)
termination_by 3 * d.left
decreasing_by
  have hlt := _h₁.left_lt (by decide) (position_lt_of_peek _hpeek)
  show 3 * d₁.left + 2 < 3 * d.left
  omega

/-- A call behind its opening parenthesis. -/
def call (d : Descent) : Reading d 0 Expr :=
  forget <| (name d).bind fun callee d₁ _h₁ => (expressions true d₁).bind fun args d₂ _ =>
    (consume d₂ .rightParen .closing).bind fun _ d₃ _ => give d₃ (.call callee args)
termination_by 3 * d.left + 2
decreasing_by
  have hle := _h₁.left_le
  omega

/-- Expressions up to the end of the tokens, or of the call that they stand in. -/
def expressions (inCall : Bool) (d : Descent) : Reading d 0 (List Expr) :=
  if _hstops : d.stops inCall = true then give d []
  else
    forget <| (expression d).bind fun e d₁ _h₁ =>
      (expressions inCall d₁).bind fun es d₂ _ => give d₂ (e :: es)
termination_by 3 * d.left + 1
decreasing_by
  · omega
  · obtain ⟨token, hpeek, -⟩ := exists_peek_of_stops (Bool.eq_false_iff.2 _hstops)
    have hlt := _h₁.left_lt (by decide) (position_lt_of_peek hpeek)
    omega

end

/-- Read a program, or fail, and stand where reading stopped. -/
def parse (d : Descent) : Except ParseError Program × Descent :=
  let reading := expressions false d
  (reading.result.map Program.mk, reading.after)

end Descent
end JsLisp
