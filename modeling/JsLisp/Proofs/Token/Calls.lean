/-
One cursor, called again and again.

A cursor keeps its place and its line from one call of `tokenize` to the next, and a call
may end in the middle of the source.  Whatever a call comes to, the cursor has moved past
some of the unread text with its line breaks counted, so the line is always one more than
the line breaks before the place.  The first call stops at the end of the source or in
front of a character that starts no piece, and neither lets a further call move on.  From
the second call on nothing changes.
-/
import Mathlib
import JsLisp.Proofs.Token.Cursor

namespace JsLisp

namespace Lexer

variable {lexer : Lexer}

section Cut

variable {rest : List Char} {pieces : List (List Char × Option Token)}

theorem rest_of_cut_nil (h : Cut lexer.rest pieces []) : lexer.tokenize.2.rest = [] := by
  rw [tokenize_of_cut h rfl, tokenize_of_nil rfl]
  rfl

/-- A call leaves what the fault leaves of the rest of the cut. -/
theorem rest_of_cut_stuck {error : LexError} (h : Cut lexer.rest pieces rest)
    (hstuck : Scan.Stuck error rest) : lexer.tokenize.2.rest = Scan.leaves error rest := by
  obtain ⟨text, hread⟩ := Scan.head_of_stuck hstuck
  have hfault : (lexer.past (pieces.map Prod.fst).flatten rest).tokenize = (.error error, _) :=
    tokenize_of_fault hread
  rw [tokenize_of_cut h rfl, hfault]
  rfl

end Cut

theorem tokenize_of_unexpected {c : Char} (h : Scan.Stuck (.unexpected c) lexer.rest) :
    lexer.tokenize = (.error (.unexpected c), lexer) := by
  obtain ⟨text, hread⟩ := Scan.head_of_stuck h
  have hreads := Scan.reads_head lexer.rest
  rw [hread] at hreads
  have hnil : text = [] := List.append_left_eq_self.1 hreads
  rw [tokenize_of_fault hread, hnil]
  rfl

end Lexer

namespace Cursor

section Call

variable {cursor : Cursor}

theorem unread_tokenize (cursor : Cursor) :
    cursor.tokenize.2.unread = cursor.lexer.tokenize.2.rest := by
  obtain ⟨text, rest, hunread, htokens, hlexer⟩ := tokenize_eq cursor
  rw [htokens, hlexer]
  exact unread_past hunread

theorem tokenize_fst (cursor : Cursor) : cursor.tokenize.1 = cursor.lexer.tokenize.1 := by
  obtain ⟨text, rest, -, htokens, -⟩ := tokenize_eq cursor
  rw [htokens]

/-- A call that leaves the lexer where it is leaves the cursor where it is. -/
theorem tokenize_of_lexer {result : Except LexError (List Token)}
    (h : cursor.lexer.tokenize = (result, cursor.lexer)) : cursor.tokenize = (result, cursor) := by
  obtain ⟨text, rest, hunread, htokens, hlexer⟩ := tokenize_eq cursor
  rw [h] at htokens hlexer
  have hrest : cursor.unread = rest := congrArg Lexer.rest hlexer
  have hnil : text = [] := List.append_left_eq_self.1 (hunread.symm.trans hrest)
  rw [htokens, hnil, past_nil]

theorem tokenize_of_nil (h : cursor.unread = []) : cursor.tokenize = (.ok [], cursor) :=
  tokenize_of_lexer (Lexer.tokenize_of_nil h)

theorem tokenize_of_unexpected {c : Char} (h : Scan.Stuck (.unexpected c) cursor.unread) :
    cursor.tokenize = (.error (.unexpected c), cursor) :=
  tokenize_of_lexer (Lexer.tokenize_of_unexpected h)

end Call

/-! ## All calls -/

/-- The cursor after some calls. -/
def after (source : String) : Nat → Cursor
  | 0 => ofSource source
  | n + 1 => (after source n).tokenize.2

/-- After any number of calls a beginning of the source is read, and its line breaks are
counted. -/
theorem exists_read (source : String) (n : Nat) :
    ∃ read, source.toList = read ++ (after source n).unread ∧
      after source n = (ofSource source).past read := by
  induction n with
  | zero => exact ⟨[], rfl, rfl⟩
  | succ n ih =>
    obtain ⟨read, hsource, hafter⟩ := ih
    obtain ⟨text, rest, hunread, htokens, -⟩ := tokenize_eq (after source n)
    have hnext : after source (n + 1) = (after source n).past text := by rw [after, htokens]
    refine ⟨read ++ text, ?_, ?_⟩
    · rw [hnext, unread_past hunread, List.append_assoc, ← hunread, ← hsource]
    · rw [hnext, hafter, past_past]

/-- What a cursor has left unread decides where it stands, and on which line. -/
theorem place_of_unread {source : String} {n : Nat} {read rest : List Char}
    (hunread : (after source n).unread = rest) (h : source.toList = read ++ rest) :
    (after source n).position = read.length ∧
      (after source n).line = 1 + read.count '\n' := by
  obtain ⟨read', hsource, hafter⟩ := exists_read source n
  rw [hunread, h] at hsource
  rw [hafter, List.append_cancel_right hsource]
  exact ⟨Nat.zero_add _, rfl⟩

/-- The first call ends at the end of the source, or in front of a character that starts
no piece. -/
theorem first_call (source : String) :
    ((∀ c, (ofSource source).tokenize.1 ≠ .error (.unexpected c)) ∧
        (after source 1).unread = []) ∨
      ∃ c pieces more, (ofSource source).tokenize.1 = .error (.unexpected c) ∧
        Cut source.toList pieces (c :: more) ∧ Scan.Stuck (.unexpected c) (c :: more) ∧
        (after source 1).unread = c :: more := by
  obtain ⟨pieces, rest, hcut, hfinal⟩ := Cut.exists_final source.toList
  have hlexer : Cut (ofSource source).lexer.rest pieces rest := hcut
  have hunread : (after source 1).unread = _ := unread_tokenize (ofSource source)
  rw [tokenize_fst, hunread]
  rcases Lexer.tokenize_of_final hlexer hfinal with ⟨rfl, hresult⟩ | ⟨error, hstuck, hresult⟩
  · exact .inl ⟨fun c => by simp [hresult], Lexer.rest_of_cut_nil hlexer⟩
  · have hrest := Lexer.rest_of_cut_stuck hlexer hstuck
    cases hstuck with
    | string hbody => exact .inl ⟨fun c => by simp [hresult], hrest⟩
    | comment hbody => exact .inl ⟨fun c => by simp [hresult], hrest⟩
    | @unexpected c more hnone =>
      exact .inr ⟨c, pieces, more, hresult, hcut, .unexpected more hnone, hrest⟩

/-- What every further call gives, from what the first one gave. -/
def again : Except LexError (List Token) → Except LexError (List Token)
  | .error (.unexpected c) => .error (.unexpected c)
  | _ => .ok []

theorem again_of_ne {result : Except LexError (List Token)}
    (h : ∀ c, result ≠ .error (.unexpected c)) : again result = .ok [] := by
  unfold again
  split
  · rename_i c
    exact absurd rfl (h c)
  · rfl

theorem again_eq_unexpected_iff (result : Except LexError (List Token)) (c : Char) :
    again result = .error (.unexpected c) ↔ result = .error (.unexpected c) := by
  unfold again
  split
  · rfl
  · rename_i hne
    exact iff_of_false (by simp) (hne c)

theorem second_call (source : String) :
    (after source 1).tokenize = (again (ofSource source).tokenize.1, after source 1) := by
  rcases first_call source with ⟨hne, hunread⟩ | ⟨c, pieces, more, hresult, -, hstuck, hunread⟩
  · rw [tokenize_of_nil hunread, again_of_ne hne]
  · rw [tokenize_of_unexpected (by rw [hunread]; exact hstuck), hresult, again]

theorem after_eq_first (source : String) (n : Nat) : after source (n + 1) = after source 1 := by
  induction n with
  | zero => rfl
  | succ n ih => rw [after, ih, second_call]

theorem further_call (source : String) (n : Nat) :
    (after source (n + 1)).tokenize =
      (again (ofSource source).tokenize.1, after source (n + 1)) := by
  rw [after_eq_first, second_call]

/-- All calls agree on whether, and at which character, they are stuck. -/
theorem unexpected_iff_first (source : String) (n : Nat) (c : Char) :
    (after source n).tokenize.1 = .error (.unexpected c) ↔
      (ofSource source).tokenize.1 = .error (.unexpected c) := by
  cases n with
  | zero => rfl
  | succ n => rw [further_call, again_eq_unexpected_iff]

/-- After every call the place is in the source, and the line is one more than the line
breaks before it.  So a call that is not stuck at a character leaves the cursor at the end,
with every line break counted, and one that is leaves it in front of that character. -/
theorem line_after (source : String) (n : Nat) :
    (after source n).position ≤ source.length ∧
    (after source n).line = 1 + (source.toList.take (after source n).position).count '\n' ∧
    ((∀ c, (after source n).tokenize.1 ≠ .error (.unexpected c)) →
      (after source (n + 1)).position = source.length ∧
        (after source (n + 1)).line = 1 + source.toList.count '\n') ∧
    ∀ c, (after source n).tokenize.1 = .error (.unexpected c) →
      ∃ pieces more,
        Cut source.toList pieces (c :: more) ∧
        source.toList = (pieces.map Prod.fst).flatten ++ c :: more ∧
        (∀ text tail t, ¬ Piece (c :: text) tail t) ∧
        (after source (n + 1)).position = (pieces.map Prod.fst).flatten.length ∧
        (after source (n + 1)).line = 1 + (pieces.map Prod.fst).flatten.count '\n' := by
  obtain ⟨read, hsource, -⟩ := exists_read source n
  obtain ⟨hposition, hline⟩ := place_of_unread rfl hsource
  refine ⟨?_, ?_, fun hne => ?_, fun c hresult => ?_⟩
  · rw [hposition, ← String.length_toList, hsource, List.length_append]
    exact Nat.le_add_right _ _
  · rw [hposition, hline, hsource, List.take_left]
  · rw [after_eq_first]
    rcases first_call source with ⟨-, hunread⟩ | ⟨c, pieces, more, hresult, -⟩
    · rw [← String.length_toList]
      exact place_of_unread hunread (List.append_nil _).symm
    · exact absurd ((unexpected_iff_first source n c).2 hresult) (hne c)
  · rw [unexpected_iff_first] at hresult
    rw [after_eq_first]
    rcases first_call source with ⟨hne, -⟩ | ⟨c', pieces, more, hfirst, hcut, hstuck, hunread⟩
    · exact absurd hresult (hne c)
    · rw [hresult] at hfirst
      cases hfirst
      cases hstuck with
      | unexpected _ hnone =>
        have hsource := hcut.flatten_append
        exact ⟨pieces, more, hcut, hsource, hnone, place_of_unread hunread hsource⟩

/-- Two line breaks are counted in a string and a comment, and the third, behind the
character that starts nothing, is not. -/
theorem line_after_stuck :
    (after "\"\n\"/*\n*/#\n" 1).tokenize.1 = .error (.unexpected '#') ∧
      (after "\"\n\"/*\n*/#\n" 2).line = 3 ∧
      ∃ pieces more,
        Cut "\"\n\"/*\n*/#\n".toList pieces ('#' :: more) ∧
        (after "\"\n\"/*\n*/#\n" 2).line = 1 + (pieces.map Prod.fst).flatten.count '\n' := by
  have hresult : (after "\"\n\"/*\n*/#\n" 1).tokenize.1 = .error (.unexpected '#') := by
    decide +kernel
  obtain ⟨pieces, more, hcut, -, -, -, hline⟩ :=
    (line_after "\"\n\"/*\n*/#\n" 1).2.2.2 '#' hresult
  exact ⟨hresult, by decide +kernel, pieces, more, hcut, hline⟩

/-- From the second call on nothing changes: the cursor stays where the first call left
it.  If the first call was stuck at a character, so are all others, and otherwise they find
no more tokens. -/
theorem calls_settle (source : String) (n : Nat) :
    (after source (n + 1)).tokenize.2 = after source (n + 1) ∧
    (∀ tokens, (after source 0).tokenize.1 = .ok tokens →
      (after source (n + 1)).tokenize.1 = .ok []) ∧
    ((after source 0).tokenize.1 = .error .unterminatedString →
      (after source (n + 1)).tokenize.1 = .ok []) ∧
    ((after source 0).tokenize.1 = .error .unterminatedComment →
      (after source (n + 1)).tokenize.1 = .ok []) ∧
    ∀ c, (after source 0).tokenize.1 = .error (.unexpected c) →
      (after source (n + 1)).tokenize.1 = .error (.unexpected c) := by
  rw [further_call, after]
  refine ⟨rfl, fun tokens hfirst => ?_, fun hfirst => ?_, fun hfirst => ?_, fun c hfirst => ?_⟩
  all_goals
    rw [hfirst]
    rfl

/-- What stands in a string that is never closed is not read a second time. -/
theorem calls_settle_open_string :
    (after "(\"a" 0).tokenize.1 = .error .unterminatedString ∧
      (after "(\"a" 1).tokenize.2 = after "(\"a" 1 ∧ (after "(\"a" 1).tokenize.1 = .ok [] := by
  have hfirst : (after "(\"a" 0).tokenize.1 = .error .unterminatedString := by
    decide +kernel
  obtain ⟨hsame, -, hstring, -⟩ := calls_settle "(\"a" 0
  exact ⟨hfirst, hsame, hstring hfirst⟩

end Cursor
end JsLisp
