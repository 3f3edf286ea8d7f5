/-
Reading source text into tokens.

`Scan.head` reads the one piece at the head of the input: a blank or comment, a
token, or a fault.  Each outcome carries the characters it consumed and the
rest, so a `Lexer` is only the rest of its source and the line it has reached,
and reading on after a fault means reading the rest.
-/
import JsLisp.Text.Blank
import JsLisp.Token.Basic

namespace JsLisp

inductive LexError
  | unterminatedString
  | unterminatedComment
  | unexpected (char : Char)
deriving DecidableEq

namespace LexError

def message : LexError → String
  | unterminatedString => "unterminated string literal"
  | unterminatedComment => "unterminated block comment"
  | unexpected char => "unexpected token '" ++ char.toString ++ "'"

end LexError

/-- What stands at the head of the input.  `text` is what was consumed and
`rest` what follows it. -/
inductive Scan
  | atEnd
  | trivia (text rest : List Char)
  | token (token : Token) (text rest : List Char)
  | fault (error : LexError) (text rest : List Char)

namespace Scan

/-- The kinds spelled by one character that starts nothing longer. -/
def punctuation? : Char → Option TokenKind
  | '(' => some .leftParen
  | ')' => some .rightParen
  | '.' => some .dot
  | '+' => some .plus
  | '-' => some .minus
  | '*' => some .star
  | _ => none

/-- Cut the input after the first `*/`, which closes a block comment however
many openings precede it. -/
def spanComment : List Char → Option (List Char × List Char)
  | [] => none
  | '*' :: '/' :: rest => some (['*', '/'], rest)
  | c :: rest => (spanComment rest).map fun cut => (c :: cut.1, cut.2)

/-- Cut the input after a fraction, which needs a digit behind its dot. -/
def spanFraction : List Char → List Char × List Char
  | '.' :: d :: more =>
    if d.isDigit then
      ('.' :: (d :: more).takeWhile Char.isDigit, (d :: more).dropWhile Char.isDigit)
    else ([], '.' :: d :: more)
  | cs => ([], cs)

/-- Cut the input after its number: digits, then at most one fraction. -/
def spanNumber (cs : List Char) : List Char × List Char :=
  let fraction := spanFraction (cs.dropWhile Char.isDigit)
  (cs.takeWhile Char.isDigit ++ fraction.1, fraction.2)

/-- The piece that starts with `/`, given what follows it. -/
def ofSlash : List Char → Scan
  | '/' :: cs =>
    trivia ('/' :: '/' :: cs.takeWhile (· ≠ '\n')) (cs.dropWhile (· ≠ '\n'))
  | '*' :: cs =>
    match spanComment cs with
    | some (text, rest) => trivia ('/' :: '*' :: text) rest
    | none => fault .unterminatedComment ('/' :: '*' :: cs) []
  | cs => token ⟨.slash, "/"⟩ ['/'] cs

/-- The piece that starts with a quote, given what follows it.  A string has no
escapes and may span lines. -/
def ofQuote (cs : List Char) : Scan :=
  let body := cs.takeWhile (· ≠ '"')
  match cs.dropWhile (· ≠ '"') with
  | [] => fault .unterminatedString ('"' :: cs) []
  | quote :: rest => token ⟨.string, String.ofList body⟩ ('"' :: body ++ [quote]) rest

/-- The piece at the head of the input.  A character that starts no piece is
left in place. -/
def head : List Char → Scan
  | [] => atEnd
  | c :: cs =>
    if Text.isBlank c then trivia [c] cs
    else if c = '/' then ofSlash cs
    else if c = '"' then ofQuote cs
    else
      match punctuation? c with
      | some kind => token ⟨kind, c.toString⟩ [c] cs
      | none =>
        if c.isAlpha then
          let word := c :: cs.takeWhile Char.isAlphanum
          token ⟨.text, String.ofList word⟩ word (cs.dropWhile Char.isAlphanum)
        else if c.isDigit then
          let cut := spanNumber (c :: cs)
          token ⟨.number, String.ofList cut.1⟩ cut.1 cut.2
        else fault (.unexpected c) [] (c :: cs)

/-! ## Nothing is lost

Every piece is followed by exactly the characters it did not consume, and a
piece that is not a fault consumes at least one. -/

theorem spanComment_append {cs text rest : List Char}
    (h : spanComment cs = some (text, rest)) : text ++ rest = cs := by
  fun_induction spanComment cs generalizing text with
  | case1 => simp at h
  | case2 rest =>
    simp only [Option.some.injEq, Prod.mk.injEq] at h
    obtain ⟨rfl, rfl⟩ := h
    rfl
  | case3 c cs _ ih =>
    obtain ⟨⟨t, r⟩, ht, he⟩ := Option.map_eq_some_iff.1 h
    simp only [Prod.mk.injEq] at he
    obtain ⟨rfl, rfl⟩ := he
    rw [List.cons_append, ih ht]

theorem spanFraction_append (cs : List Char) :
    (spanFraction cs).1 ++ (spanFraction cs).2 = cs := by
  unfold spanFraction
  split
  · split
    · rw [List.cons_append, List.takeWhile_append_dropWhile]
    · rfl
  · rfl

theorem spanNumber_append (cs : List Char) : (spanNumber cs).1 ++ (spanNumber cs).2 = cs := by
  rw [spanNumber, List.append_assoc, spanFraction_append, List.takeWhile_append_dropWhile]

theorem spanNumber_ne_nil {c : Char} (cs : List Char) (h : c.isDigit = true) :
    (spanNumber (c :: cs)).1 ≠ [] := by
  simp [spanNumber, h]

/-- The consumed text of a piece that is not a fault. -/
def Reads (cs : List Char) : Scan → Prop
  | atEnd => cs = []
  | trivia text rest => text ++ rest = cs ∧ text ≠ []
  | token _ text rest => text ++ rest = cs ∧ text ≠ []
  | fault _ text rest => text ++ rest = cs

theorem reads_ofSlash (cs : List Char) : Reads ('/' :: cs) (ofSlash cs) := by
  unfold ofSlash
  split
  · simp [Reads]
  · split
    · rename_i h
      simp [Reads, spanComment_append h]
    · simp [Reads]
  · simp [Reads]

theorem reads_ofQuote (cs : List Char) : Reads ('"' :: cs) (ofQuote cs) := by
  unfold ofQuote
  simp only
  split
  · simp [Reads]
  · rename_i quote rest h
    simp only [Reads, List.append_assoc, List.cons_append, List.nil_append]
    rw [← h, List.takeWhile_append_dropWhile]
    simp

/-- The piece at the head of the input is a cut of the input. -/
theorem reads_head (cs : List Char) : Reads cs (head cs) := by
  unfold head
  split
  · rfl
  · rename_i c cs
    split
    · simp [Reads]
    · split
      · rename_i h
        exact h ▸ reads_ofSlash cs
      · split
        · rename_i h
          exact h ▸ reads_ofQuote cs
        · split
          · simp [Reads]
          · split
            · simp [Reads]
            · split
              · rename_i h
                exact ⟨spanNumber_append (c :: cs), spanNumber_ne_nil cs h⟩
              · simp [Reads]

theorem length_lt_of_trivia {cs text rest : List Char} (h : head cs = trivia text rest) :
    rest.length < cs.length := by
  have hr := reads_head cs
  rw [h] at hr
  have := List.length_pos_iff.2 hr.2
  rw [← hr.1, List.length_append]
  omega

theorem length_lt_of_token {cs text rest : List Char} {t : Token}
    (h : head cs = token t text rest) : rest.length < cs.length := by
  have hr := reads_head cs
  rw [h] at hr
  have := List.length_pos_iff.2 hr.2
  rw [← hr.1, List.length_append]
  omega

end Scan

/-- A lexer part way through its source: the characters still to read and the
line, counted from one, on which they start. -/
structure Lexer where
  rest : List Char
  line : Nat
deriving DecidableEq

namespace Lexer

def ofSource (source : String) : Lexer :=
  { rest := source.toList, line := 1 }

/-- Move past consumed text. -/
def past (lexer : Lexer) (text rest : List Char) : Lexer :=
  { rest := rest, line := lexer.line + text.count '\n' }

/-- Read every token up to the end of the source.  A fault gives up the tokens
before it and leaves the lexer behind the consumed text. -/
def tokenize (lexer : Lexer) : Except LexError (List Token) × Lexer :=
  match _h : Scan.head lexer.rest with
  | .atEnd => (.ok [], lexer)
  | .trivia text rest => tokenize (lexer.past text rest)
  | .token token text rest =>
    let outcome := tokenize (lexer.past text rest)
    (outcome.1.map (token :: ·), outcome.2)
  | .fault error text rest => (.error error, lexer.past text rest)
termination_by lexer.rest.length
decreasing_by
  · exact Scan.length_lt_of_trivia _h
  · exact Scan.length_lt_of_token _h

end Lexer
end JsLisp
