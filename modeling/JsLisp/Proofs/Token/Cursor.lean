/-
A cursor reads what a lexer reads.

The lexer counts the line breaks of a piece when it has the piece, the cursor counts
them one by one while it looks for the end of the piece.  `past` moves a cursor behind
some text with the line breaks of the text counted, and every scanner comes to the cursor
`past` the text that `Scan.head` cuts off, with the same token or fault.  So a cursor
gives what the lexer with the unread characters gives, and stops at the same one, on the
same line.
-/
import JsLisp.Proofs.Token.Cut
import JsLisp.Token.Cursor

namespace JsLisp
namespace Cursor

def unread (cursor : Cursor) : List Char :=
  cursor.source.toList.drop cursor.position

/-- The lexer that has the same characters left. -/
def lexer (cursor : Cursor) : Lexer :=
  { rest := cursor.unread, line := cursor.line }

/-- The cursor behind some text, with the line breaks of the text counted. -/
def past (cursor : Cursor) (text : List Char) : Cursor :=
  { cursor with
    position := cursor.position + text.length
    line := cursor.line + text.count '\n' }

section Unread

variable {cursor : Cursor} {c : Char} {text rest cs : List Char}

theorem peek_eq_head? (cursor : Cursor) : cursor.peek = cursor.unread.head? := by
  rw [peek, unread, List.head?_drop, Array.getElem?_toList]

theorem unread_of_peek (h : cursor.peek = some c) : cursor.unread = c :: cursor.advance.unread := by
  obtain ⟨hlt, hc⟩ := Array.getElem?_eq_some_iff.1 h
  rw [unread, List.drop_eq_getElem_cons hlt, Array.getElem_toList, hc]
  rfl

theorem unread_of_none (h : cursor.peek = none) : cursor.unread = [] := by
  rw [peek_eq_head?] at h
  exact List.head?_eq_none_iff.1 h

theorem unread_advance (h : cursor.unread = c :: cs) : cursor.advance.unread = cs := by
  have hpeek : cursor.peek = some c := by rw [peek_eq_head?, h]; rfl
  rw [unread_of_peek hpeek] at h
  exact (List.cons.inj h).2

theorem peekNext_eq_head? (h : cursor.unread = c :: cs) : cursor.peekNext = cs.head? := by
  show cursor.advance.peek = _
  rw [peek_eq_head?, unread_advance h]

theorem unread_past (h : cursor.unread = text ++ rest) : (cursor.past text).unread = rest := by
  show cursor.source.toList.drop (cursor.position + text.length) = rest
  rw [← List.drop_drop]
  show cursor.unread.drop text.length = rest
  rw [h, List.drop_left]

theorem lexer_past (h : cursor.unread = text ++ rest) :
    (cursor.past text).lexer = cursor.lexer.past text rest := by
  rw [lexer, unread_past h]
  rfl

end Unread

@[simp]
theorem past_nil (cursor : Cursor) : cursor.past [] = cursor := rfl

theorem past_past (cursor : Cursor) (text more : List Char) :
    (cursor.past text).past more = cursor.past (text ++ more) := by
  simp [past, Nat.add_assoc]

theorem advance_eq_past (cursor : Cursor) {c : Char} (h : c ≠ '\n') :
    cursor.advance = cursor.past [c] := by
  have hcount : [c].count '\n' = 0 := List.count_eq_zero.2 (by simpa using Ne.symm h)
  rw [past, hcount]
  rfl

theorem countLine_advance (cursor : Cursor) : cursor.countLine.advance = cursor.past ['\n'] := rfl

theorem pass_eq_past (cursor : Cursor) (c : Char) : cursor.pass c = cursor.past [c] := by
  by_cases h : c = '\n'
  · rw [pass, if_pos h, h, countLine_advance]
  · rw [pass, if_neg h, advance_eq_past cursor h]

theorem unread_of_pass {cursor : Cursor} {c : Char} (h : cursor.peek = some c) :
    cursor.unread = c :: (cursor.pass c).unread := by
  have hsame : (cursor.pass c).unread = cursor.advance.unread := by
    unfold pass
    split <;> rfl
  rw [hsame, unread_of_peek h]

theorem takeWhile_eq {fits : Char → Bool} (hline : fits '\n' = false) (cursor : Cursor) :
    cursor.takeWhile fits =
      (cursor.unread.takeWhile fits, cursor.past (cursor.unread.takeWhile fits)) := by
  fun_induction takeWhile fits cursor with
  | case1 cursor hpeek => rw [unread_of_none hpeek]; rfl
  | case2 cursor c hpeek hfits more ih =>
    have hne : c ≠ '\n' := by
      rintro rfl
      rw [hline] at hfits
      cases hfits
    have hunread := unread_of_peek hpeek
    rw [hunread, List.takeWhile_cons_of_pos hfits]
    show (c :: (cursor.advance.takeWhile fits).1, (cursor.advance.takeWhile fits).2) = _
    rw [ih, advance_eq_past cursor hne, past_past, ← advance_eq_past cursor hne]
    rfl
  | case3 cursor c hpeek hfits =>
    rw [unread_of_peek hpeek, List.takeWhile_cons_of_neg hfits]
    rfl

theorem closeComment_eq (cursor : Cursor) :
    cursor.closeComment =
      (Scan.spanComment cursor.unread).elim
        (.error .unterminatedComment, cursor.past cursor.unread)
        fun cut => (.ok (), cursor.past cut.1) := by
  fun_induction closeComment cursor with
  | case1 cursor hpeek => rw [unread_of_none hpeek]; rfl
  | case2 cursor c hpeek hclose =>
    obtain ⟨rfl, hnext⟩ := hclose
    rw [unread_of_peek hpeek, unread_of_peek (show cursor.advance.peek = some '/' from hnext)]
    rfl
  | case3 cursor c hpeek hopen ih =>
    have hunread := unread_of_pass hpeek
    have hnot : ∀ more, c :: (cursor.pass c).unread ≠ '*' :: '/' :: more := by
      intro more heq
      obtain ⟨rfl, hrest⟩ := List.cons.inj heq
      refine hopen ⟨rfl, ?_⟩
      rw [peekNext_eq_head? hunread, hrest]
      rfl
    rw [ih, hunread, Scan.spanComment_cons hnot]
    generalize (cursor.pass c).unread = cs
    rw [pass_eq_past]
    cases Scan.spanComment cs with
    | none =>
      show (_, (cursor.past [c]).past cs) = _
      rw [past_past]
      rfl
    | some cut =>
      show (_, (cursor.past [c]).past cut.1) = _
      rw [past_past]
      rfl

theorem closeString_of_body {cursor : Cursor} {body rest : List Char}
    (h : cursor.unread = body ++ '"' :: rest) (hbody : '"' ∉ body) :
    cursor.closeString = (.ok body, cursor.past (body ++ ['"'])) := by
  fun_induction closeString cursor generalizing body with
  | case1 cursor hpeek =>
    rw [unread_of_none hpeek] at h
    simp at h
  | case2 cursor hpeek =>
    rw [unread_of_peek hpeek] at h
    cases body with
    | nil => rfl
    | cons d body =>
      obtain ⟨rfl, -⟩ := List.cons.inj h
      exact absurd List.mem_cons_self hbody
  | case3 cursor c hpeek hquote more =>
    rename_i ih
    rw [unread_of_pass hpeek] at h
    cases body with
    | nil => exact absurd (List.cons.inj h).1 hquote
    | cons d body =>
      obtain ⟨rfl, hrest⟩ := List.cons.inj h
      show ((cursor.pass c).closeString.1.map (c :: ·), (cursor.pass c).closeString.2) = _
      rw [ih hrest fun hmem => hbody (List.mem_cons_of_mem c hmem), pass_eq_past, past_past]
      rfl

theorem closeString_of_open {cursor : Cursor} (h : '"' ∉ cursor.unread) :
    cursor.closeString = (.error .unterminatedString, cursor.past cursor.unread) := by
  fun_induction closeString cursor with
  | case1 cursor hpeek => rw [unread_of_none hpeek]; rfl
  | case2 cursor hpeek =>
    rw [unread_of_peek hpeek] at h
    exact absurd List.mem_cons_self h
  | case3 cursor c hpeek hquote more ih =>
    have hunread := unread_of_pass hpeek
    rw [hunread] at h ⊢
    show ((cursor.pass c).closeString.1.map (c :: ·), (cursor.pass c).closeString.2) = _
    rw [ih fun hmem => h (List.mem_cons_of_mem c hmem)]
    generalize (cursor.pass c).unread = cs
    rw [pass_eq_past, past_past]
    rfl

/-! ## Pieces -/

/-- What a cursor comes to at a piece or a fault. -/
def reading (cursor : Cursor) : Scan → Except LexError (Option Token) × Cursor
  | .atEnd => (.ok none, cursor)
  | .trivia text _ => (.ok none, cursor.past text)
  | .token token text _ => (.ok (some token), cursor.past text)
  | .fault error text _ => (.error error, cursor.past text)

section Pieces

variable {cursor : Cursor} {c : Char} {cs : List Char}

theorem slash_eq (h : cursor.unread = '/' :: cs) : cursor.slash = cursor.reading (.ofSlash cs) := by
  have hnext := peekNext_eq_head? h
  unfold slash
  split
  · rename_i hslash
    obtain ⟨tail, rfl⟩ := List.head?_eq_some_iff.1 (hnext.symm.trans hslash)
    rw [takeWhile_eq (by decide), h]
    rfl
  · split
    · rename_i hstar
      obtain ⟨tail, rfl⟩ := List.head?_eq_some_iff.1 (hnext.symm.trans hstar)
      have htwo : cursor.advance.advance = cursor.past ['/', '*'] := rfl
      have htail : (cursor.past ['/', '*']).unread = tail := unread_past h
      simp only [htwo, closeComment_eq, htail, Scan.ofSlash]
      cases Scan.spanComment tail with
      | none => exact Prod.ext rfl (past_past cursor _ _)
      | some cut => exact Prod.ext rfl (past_past cursor _ _)
    · rename_i hslash hstar
      rw [hnext] at hslash hstar
      have hends : Text.Ends (fun c => c = '/' ∨ c = '*') cs := by
        intro c hc
        rw [hc, Option.some.injEq] at hslash hstar
        simp [hslash, hstar]
      rw [Scan.ofSlash_of_ends hends]
      rfl

theorem string_eq (h : cursor.unread = '"' :: cs) :
    cursor.string = cursor.reading (.ofQuote cs) := by
  have hquote : cursor.advance = cursor.past ['"'] := rfl
  have hunread := unread_advance h
  by_cases hclose : '"' ∈ cs
  · obtain ⟨body, rest, rfl, hbody⟩ := List.eq_append_cons_of_mem hclose
    rw [string, closeString_of_body hunread hbody, Scan.ofQuote_of_body rest hbody, hquote]
    exact Prod.ext rfl (past_past cursor _ _)
  · rw [string, closeString_of_open (by rw [hunread]; exact hclose), hunread,
      Scan.ofQuote_of_open hclose, hquote]
    exact Prod.ext rfl (past_past cursor _ _)

theorem word_eq (h : cursor.unread = c :: cs) (halpha : c.isAlpha = true) :
    cursor.word =
      (.ok (some ⟨.text, String.ofList (c :: cs.takeWhile Char.isAlphanum)⟩),
        cursor.past (c :: cs.takeWhile Char.isAlphanum)) := by
  have halphanum := (Text.isAlphanum_iff c).2 (.inl halpha)
  rw [word, takeWhile_eq (by decide), h, List.takeWhile_cons_of_pos halphanum]

theorem number_eq (cursor : Cursor) :
    cursor.number =
      (.ok (some ⟨.number, String.ofList (Scan.spanNumber cursor.unread).1⟩),
        cursor.past (Scan.spanNumber cursor.unread).1) := by
  have happend := (List.takeWhile_append_dropWhile (p := Char.isDigit) (l := cursor.unread)).symm
  have hrest := unread_past happend
  rw [number, takeWhile_eq (by decide), Scan.spanNumber]
  generalize cursor.unread.takeWhile Char.isDigit = whole at hrest ⊢
  generalize cursor.unread.dropWhile Char.isDigit = rest at hrest ⊢
  simp only [peek_eq_head?, hrest]
  split
  · rename_i hdot
    obtain ⟨tail, rfl⟩ := List.head?_eq_some_iff.1 hdot.1
    have hnext := hdot.2
    rw [peekNext_eq_head? hrest, Option.any_eq_true] at hnext
    obtain ⟨d, hd, hdigit⟩ := hnext
    obtain ⟨more, rfl⟩ := List.head?_eq_some_iff.1 hd
    have hpoint : (cursor.past whole).advance = cursor.past (whole ++ ['.']) := by
      rw [advance_eq_past _ (show '.' ≠ '\n' by decide), past_past]
    rw [takeWhile_eq (by decide), unread_advance hrest, hpoint, past_past, List.append_assoc,
      Scan.spanFraction, if_pos hdigit]
    rfl
  · rename_i hdot
    have hends : ∀ d more, rest = '.' :: d :: more → d.isDigit = false := by
      rintro d more rfl
      refine Bool.eq_false_iff.2 fun hdigit => hdot ⟨rfl, ?_⟩
      rw [peekNext_eq_head? hrest]
      exact hdigit
    rw [Scan.spanFraction_of_ends hends, List.append_nil]

/-- A scan takes the piece at the head of what is left, or reports the fault there. -/
theorem scan_eq (h : cursor.unread = c :: cs) :
    cursor.scan c = cursor.reading (.head (c :: cs)) := by
  by_cases hline : c = '\n'
  · rw [hline]
    rfl
  by_cases hblank : Text.isBlank c = true
  · rw [scan, if_neg hline, if_pos hblank, Scan.head, if_pos hblank, advance_eq_past cursor hline]
    rfl
  by_cases hslash : c = '/'
  · subst hslash
    exact slash_eq h
  by_cases hquote : c = '"'
  · subst hquote
    exact string_eq h
  simp only [scan, Scan.head, hline, hblank, hslash, hquote, if_false]
  cases Scan.punctuation? c with
  | some kind =>
    rw [advance_eq_past cursor hline]
    rfl
  | none =>
    show (if c.isAlpha then _ else _) = cursor.reading (if c.isAlpha then _ else _)
    by_cases halpha : c.isAlpha = true
    · rw [if_pos halpha, if_pos halpha, word_eq h halpha]
      rfl
    · rw [if_neg halpha, if_neg halpha]
      by_cases hdigit : c.isDigit = true
      · rw [if_pos hdigit, if_pos hdigit, number_eq, h]
        rfl
      · rw [if_neg hdigit, if_neg hdigit]
        rfl

end Pieces

theorem reading_eq_ok {cursor after : Cursor} {cs : List Char} {piece : Option Token}
    (h : cursor.reading (.head cs) = (.ok piece, after)) (hne : cs ≠ []) :
    ∃ text rest, Scan.head cs = .ofPiece text rest piece ∧ text ++ rest = cs ∧
      after = cursor.past text := by
  have hreads := Scan.reads_head cs
  cases hread : Scan.head cs with
  | atEnd =>
    rw [hread] at hreads
    exact absurd hreads hne
  | trivia text rest =>
    rw [hread] at h hreads
    cases h
    exact ⟨text, rest, rfl, hreads.1, rfl⟩
  | token token text rest =>
    rw [hread] at h hreads
    cases h
    exact ⟨text, rest, rfl, hreads.1, rfl⟩
  | fault error text rest =>
    rw [hread] at h
    cases h

theorem reading_eq_error {cursor after : Cursor} {cs : List Char} {error : LexError}
    (h : cursor.reading (.head cs) = (.error error, after)) :
    ∃ text rest, Scan.head cs = .fault error text rest ∧ text ++ rest = cs ∧
      after = cursor.past text := by
  have hreads := Scan.reads_head cs
  cases hread : Scan.head cs with
  | fault error' text rest =>
    rw [hread] at h hreads
    cases h
    exact ⟨text, rest, rfl, hreads, rfl⟩
  | _ =>
    rw [hread] at h
    cases h

/-- A cursor gives what the lexer with the same characters left gives, and moves past as
many of them, with their line breaks counted. -/
theorem tokenize_eq (cursor : Cursor) :
    ∃ text rest, cursor.unread = text ++ rest ∧
      cursor.tokenize = (cursor.lexer.tokenize.1, cursor.past text) ∧
      cursor.lexer.tokenize.2 = cursor.lexer.past text rest := by
  fun_induction tokenize cursor with
  | case1 cursor hpeek =>
    have hunread := unread_of_none hpeek
    have hlexer : cursor.lexer.tokenize = (.ok [], cursor.lexer) :=
      Lexer.tokenize_of_nil hunread
    refine ⟨[], [], hunread, ?_, ?_⟩
    · rw [hlexer]
      rfl
    · rw [hlexer, ← lexer_past hunread]
      rfl
  | case2 cursor c hpeek error after hscan =>
    have hunread := unread_of_peek hpeek
    rw [scan_eq hunread, ← hunread] at hscan
    obtain ⟨text, rest, hread, happend, rfl⟩ := reading_eq_error hscan
    have hlexer : cursor.lexer.tokenize = (.error error, cursor.lexer.past text rest) :=
      Lexer.tokenize_of_fault hread
    exact ⟨text, rest, happend.symm, by rw [hlexer], by rw [hlexer]⟩
  | case3 cursor c hpeek piece after hscan more ih =>
    have hunread := unread_of_peek hpeek
    rw [scan_eq hunread, ← hunread] at hscan
    obtain ⟨text, rest, hread, happend, rfl⟩ := reading_eq_ok hscan (by rw [hunread]; simp)
    obtain ⟨text', rest', hunread', htokens, hlexer⟩ := ih
    have hrest := unread_past happend.symm
    have hstep : cursor.lexer.tokenize =
        ((cursor.past text).lexer.tokenize.1.map (piece.toList ++ ·),
          (cursor.past text).lexer.tokenize.2) := by
      rw [lexer_past happend.symm]
      exact Lexer.tokenize_of_head hread
    refine ⟨text ++ text', rest', ?_, ?_, ?_⟩
    · rw [← happend, ← hrest, hunread', List.append_assoc]
    · show (((cursor.past text).tokenize.1).map _, (cursor.past text).tokenize.2) = _
      rw [htokens, hstep, past_past]
    · rw [hstep, hlexer, lexer_past happend.symm, Lexer.past_past]

end Cursor
end JsLisp
