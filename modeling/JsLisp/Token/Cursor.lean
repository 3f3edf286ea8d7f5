/-
Reading source text with a place in it.

Where a `Lexer` keeps only the characters still to read, a `Cursor` keeps the whole
source and the number of characters it has moved past.  It looks at the next two
characters, moves on one at a time, and counts a line break where it comes across one:
between tokens, in a string and in a block comment.  A line comment ends in front of its
line break.  Place and line outlive a failure, and the next call of `tokenize` goes on
from there.

Every loop ends because it moves towards the end of the source.  `Beyond` says how far
a scanner has moved at least.
-/
import JsLisp.Token.Lexer

namespace JsLisp

/-- A place in source text and the line, counted from one, that was reached there. -/
structure Cursor where
  source : Array Char
  position : Nat
  line : Nat
deriving DecidableEq

namespace Cursor

def ofSource (source : String) : Cursor :=
  { source := source.toList.toArray, position := 0, line := 1 }

/-- The character to read next. -/
def peek (cursor : Cursor) : Option Char :=
  cursor.source[cursor.position]?

/-- The character behind that one. -/
def peekNext (cursor : Cursor) : Option Char :=
  cursor.source[cursor.position + 1]?

def advance (cursor : Cursor) : Cursor :=
  { cursor with position := cursor.position + 1 }

def countLine (cursor : Cursor) : Cursor :=
  { cursor with line := cursor.line + 1 }

/-- Move past a character that may be a line break. -/
def pass (cursor : Cursor) (c : Char) : Cursor :=
  if c = '\n' then cursor.countLine.advance else cursor.advance

/-- How many characters are left. -/
def left (cursor : Cursor) : Nat :=
  cursor.source.size - cursor.position

theorem position_lt_of_peek {cursor : Cursor} {c : Char} (h : cursor.peek = some c) :
    cursor.position < cursor.source.size :=
  (Array.getElem?_eq_some_iff.1 h).1

/-- The same source, at least so many characters further on. -/
structure Beyond (cursor : Cursor) (least : Nat) (after : Cursor) : Prop where
  source_eq : after.source = cursor.source
  position_le : cursor.position + least ≤ after.position

namespace Beyond

variable {cursor middle after : Cursor} {m n : Nat}

theorem refl (cursor : Cursor) : Beyond cursor 0 cursor :=
  ⟨rfl, Nat.le_refl _⟩

theorem advance (cursor : Cursor) : Beyond cursor 1 cursor.advance :=
  ⟨rfl, Nat.le_refl _⟩

theorem pass (cursor : Cursor) (c : Char) : Beyond cursor 1 (cursor.pass c) := by
  unfold Cursor.pass
  split
  · exact ⟨rfl, Nat.le_refl _⟩
  · exact advance cursor

theorem trans (h : Beyond cursor m middle) (h' : Beyond middle n after) :
    Beyond cursor (m + n) after := by
  have := h.position_le
  have := h'.position_le
  exact ⟨h'.source_eq.trans h.source_eq, by omega⟩

theorem weaken (h : Beyond cursor m after) (hle : n ≤ m) : Beyond cursor n after := by
  have := h.position_le
  exact ⟨h.source_eq, by omega⟩

theorem left_lt (h : Beyond cursor m after) (hpos : 0 < m) {c : Char}
    (hpeek : cursor.peek = some c) : after.left < cursor.left := by
  have := h.position_le
  have := position_lt_of_peek hpeek
  rw [left, left, h.source_eq]
  omega

end Beyond

/-! ## Scanners -/

/-- Take characters of a class, which holds no line break. -/
def takeWhile (fits : Char → Bool) (cursor : Cursor) : List Char × Cursor :=
  match _hpeek : cursor.peek with
  | none => ([], cursor)
  | some c =>
    if fits c then
      let more := takeWhile fits cursor.advance
      (c :: more.1, more.2)
    else ([], cursor)
termination_by cursor.left
decreasing_by exact (Beyond.advance cursor).left_lt (by decide) _hpeek

/-- Move past a block comment, from behind its opening. -/
def closeComment (cursor : Cursor) : Except LexError Unit × Cursor :=
  match _hpeek : cursor.peek with
  | none => (.error .unterminatedComment, cursor)
  | some c =>
    if c = '*' ∧ cursor.peekNext = some '/' then (.ok (), cursor.advance.advance)
    else closeComment (cursor.pass c)
termination_by cursor.left
decreasing_by exact (Beyond.pass cursor c).left_lt (by decide) _hpeek

/-- Read the contents of a string and move past its closing quote. -/
def closeString (cursor : Cursor) : Except LexError (List Char) × Cursor :=
  match _hpeek : cursor.peek with
  | none => (.error .unterminatedString, cursor)
  | some c =>
    if c = '"' then (.ok [], cursor.advance)
    else
      let more := closeString (cursor.pass c)
      (more.1.map (c :: ·), more.2)
termination_by cursor.left
decreasing_by exact (Beyond.pass cursor c).left_lt (by decide) _hpeek

/-- What starts with a slash. -/
def slash (cursor : Cursor) : Except LexError (Option Token) × Cursor :=
  if cursor.peekNext = some '/' then (.ok none, (cursor.takeWhile (· ≠ '\n')).2)
  else if cursor.peekNext = some '*' then
    let comment := cursor.advance.advance.closeComment
    (comment.1.map fun _ => none, comment.2)
  else (.ok (some ⟨.slash, "/"⟩), cursor.advance)

def string (cursor : Cursor) : Except LexError (Option Token) × Cursor :=
  let body := cursor.advance.closeString
  (body.1.map fun value => some ⟨.string, String.ofList value⟩, body.2)

def word (cursor : Cursor) : Except LexError (Option Token) × Cursor :=
  let text := cursor.takeWhile Char.isAlphanum
  (.ok (some ⟨.text, String.ofList text.1⟩), text.2)

/-- Digits, with a fraction if a digit stands behind the dot. -/
def number (cursor : Cursor) : Except LexError (Option Token) × Cursor :=
  let whole := cursor.takeWhile Char.isDigit
  if whole.2.peek = some '.' ∧ whole.2.peekNext.any Char.isDigit = true then
    let part := whole.2.advance.takeWhile Char.isDigit
    (.ok (some ⟨.number, String.ofList (whole.1 ++ '.' :: part.1)⟩), part.2)
  else (.ok (some ⟨.number, String.ofList whole.1⟩), whole.2)

/-- Read what starts with `c`: a blank or a comment, or a token. -/
def scan (cursor : Cursor) (c : Char) : Except LexError (Option Token) × Cursor :=
  if c = '\n' then (.ok none, cursor.countLine.advance)
  else if Text.isBlank c then (.ok none, cursor.advance)
  else
    match Scan.punctuation? c with
    | some kind => (.ok (some ⟨kind, c.toString⟩), cursor.advance)
    | none =>
      if c = '/' then cursor.slash
      else if c = '"' then cursor.string
      else if c.isAlpha then cursor.word
      else if c.isDigit then cursor.number
      else (.error (.unexpected c), cursor)

/-! ## Every scanner moves on -/

theorem beyond_takeWhile (fits : Char → Bool) (cursor : Cursor) :
    Beyond cursor 0 (cursor.takeWhile fits).2 := by
  fun_induction takeWhile fits cursor with
  | case1 cursor hpeek => exact .refl cursor
  | case2 cursor c hpeek hfits more ih => exact ((Beyond.advance cursor).trans ih).weaken (by omega)
  | case3 cursor c hpeek hfits => exact .refl cursor

theorem beyond_takeWhile_of_fits {fits : Char → Bool} {cursor : Cursor} {c : Char}
    (hpeek : cursor.peek = some c) (hfits : fits c = true) :
    Beyond cursor 1 (cursor.takeWhile fits).2 := by
  rw [takeWhile]
  split
  · rename_i hnone
    rw [hpeek] at hnone
    cases hnone
  · rename_i d hsome
    rw [hpeek] at hsome
    cases hsome
    rw [if_pos hfits]
    exact (Beyond.advance cursor).trans (beyond_takeWhile fits cursor.advance)

theorem beyond_closeComment (cursor : Cursor) : Beyond cursor 0 cursor.closeComment.2 := by
  fun_induction closeComment cursor with
  | case1 cursor hpeek => exact .refl cursor
  | case2 cursor c hpeek hclose =>
    exact ((Beyond.advance cursor).trans (Beyond.advance cursor.advance)).weaken (by omega)
  | case3 cursor c hpeek hopen ih => exact ((Beyond.pass cursor c).trans ih).weaken (by omega)

theorem beyond_closeString (cursor : Cursor) : Beyond cursor 0 cursor.closeString.2 := by
  fun_induction closeString cursor with
  | case1 cursor hpeek => exact .refl cursor
  | case2 cursor hpeek => exact (Beyond.advance cursor).weaken (by omega)
  | case3 cursor c hpeek hquote more ih =>
    exact ((Beyond.pass cursor c).trans ih).weaken (by omega)

section Scan

variable {cursor : Cursor} {c : Char}

theorem beyond_slash (hpeek : cursor.peek = some c) (hslash : c = '/') :
    Beyond cursor 1 cursor.slash.2 := by
  unfold slash
  split
  · exact beyond_takeWhile_of_fits hpeek (by rw [hslash]; decide)
  · split
    · have htwo := (Beyond.advance cursor).trans (Beyond.advance cursor.advance)
      exact (htwo.trans (beyond_closeComment _)).weaken (by omega)
    · exact .advance cursor

theorem beyond_string (cursor : Cursor) : Beyond cursor 1 cursor.string.2 :=
  (Beyond.advance cursor).trans (beyond_closeString cursor.advance)

theorem beyond_number (hpeek : cursor.peek = some c) (hdigit : c.isDigit = true) :
    Beyond cursor 1 cursor.number.2 := by
  have hwhole := beyond_takeWhile_of_fits hpeek hdigit
  unfold number
  simp only
  split
  · have hdot := hwhole.trans (Beyond.advance (cursor.takeWhile Char.isDigit).2)
    exact (hdot.trans (beyond_takeWhile Char.isDigit _)).weaken (by omega)
  · exact hwhole

/-- Only a character that starts nothing is left in place. -/
theorem beyond_scan {piece : Option Token} {after : Cursor} (hpeek : cursor.peek = some c)
    (hscan : cursor.scan c = (.ok piece, after)) : Beyond cursor 1 after := by
  have hafter : (cursor.scan c).2 = after := by rw [hscan]
  rw [← hafter]
  unfold scan at hscan ⊢
  split
  · exact ⟨rfl, Nat.le_refl _⟩
  · split
    · exact .advance cursor
    · split
      · exact .advance cursor
      · rename_i hline hblank _ hmark
        split
        · rename_i hslash
          exact beyond_slash hpeek hslash
        · split
          · exact beyond_string cursor
          · split
            · rename_i halpha
              exact beyond_takeWhile_of_fits hpeek (by simp [Char.isAlphanum, halpha])
            · split
              · rename_i hdigit
                exact beyond_number hpeek hdigit
              · rename_i hslash hquote halpha hdigit
                simp [hline, hblank, hmark, hslash, hquote, halpha, hdigit] at hscan

end Scan

/-- Read every token up to the end of the source.  A failure gives up the tokens before
it. -/
def tokenize (cursor : Cursor) : Except LexError (List Token) × Cursor :=
  match _hpeek : cursor.peek with
  | none => (.ok [], cursor)
  | some c =>
    match _hscan : cursor.scan c with
    | (.error error, after) => (.error error, after)
    | (.ok piece, after) =>
      let more := tokenize after
      (more.1.map (piece.toList ++ ·), more.2)
termination_by cursor.left
decreasing_by exact (beyond_scan _hpeek _hscan).left_lt (by decide) _hpeek

end Cursor
end JsLisp
