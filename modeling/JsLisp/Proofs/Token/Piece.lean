/-
The pieces that source text is made of.

`Piece text rest token` is the lexical grammar: with `rest` behind it, `text` is
one piece, and it is the token or, without one, a blank or a comment.  What
follows is part of the judgement because a word or number runs as far as it can
and a slash depends on its neighbour.  `Scan.head` computes the judgement, and
where it reports a fault no piece stands at the head of the input.
-/
import JsLisp.Proofs.Text.Word
import JsLisp.Token.Lexer

namespace JsLisp

open Text (Ends isWord isDigits)

/-- The tokens of one character that starts nothing longer. -/
def marks : List (Char × TokenKind) :=
  [('(', .leftParen), (')', .rightParen), ('.', .dot), ('+', .plus), ('-', .minus),
    ('*', .star)]

inductive Piece : List Char → List Char → Option Token → Prop
  | blank {c : Char} (rest : List Char) (h : Text.isBlank c = true) : Piece [c] rest none
  | lineComment {body rest : List Char} (hbody : '\n' ∉ body) (hrest : Ends (· ≠ '\n') rest) :
    Piece ('/' :: '/' :: body) rest none
  /-- The closing `*/` is the first behind the opening. -/
  | blockComment {body : List Char} (rest : List Char)
    (hbody : ¬ ['*', '/'] <:+: body ++ ['*']) :
    Piece ('/' :: '*' :: (body ++ ['*', '/'])) rest none
  | mark {c : Char} {kind : TokenKind} (rest : List Char) (h : (c, kind) ∈ marks) :
    Piece [c] rest (some ⟨kind, c.toString⟩)
  | slash {rest : List Char} (hrest : Ends (fun c => c = '/' ∨ c = '*') rest) :
    Piece ['/'] rest (some ⟨.slash, "/"⟩)
  | string {body : List Char} (rest : List Char) (hbody : '"' ∉ body) :
    Piece ('"' :: (body ++ ['"'])) rest (some ⟨.string, String.ofList body⟩)
  | word {text rest : List Char} (htext : isWord text = true) (hrest : Ends Char.isAlphanum rest) :
    Piece text rest (some ⟨.text, String.ofList text⟩)
  /-- A number without a fraction ends in front of a dot only if no digit stands
  behind the dot. -/
  | whole {text rest : List Char} (htext : isDigits text = true) (hrest : Ends Char.isDigit rest)
    (hdot : ∀ d more, rest = '.' :: d :: more → d.isDigit = false) :
    Piece text rest (some ⟨.number, String.ofList text⟩)
  | fraction {whole part rest : List Char} (hwhole : isDigits whole = true)
    (hpart : isDigits part = true) (hrest : Ends Char.isDigit rest) :
    Piece (whole ++ '.' :: part) rest (some ⟨.number, String.ofList (whole ++ '.' :: part)⟩)

namespace Scan

/-- The outcome of reading one piece. -/
def ofPiece (text rest : List Char) : Option Token → Scan
  | none => trivia text rest
  | some t => token t text rest

theorem spanComment_cons {c : Char} {rest : List Char}
    (h : ∀ more, c :: rest ≠ '*' :: '/' :: more) :
    spanComment (c :: rest) = (spanComment rest).map fun cut => (c :: cut.1, cut.2) := by
  rw [spanComment]
  intro more hc hrest
  exact h more (by rw [hc, hrest])

theorem spanComment_of_first {body : List Char} (rest : List Char)
    (h : ¬ ['*', '/'] <:+: body ++ ['*']) :
    spanComment (body ++ ['*', '/'] ++ rest) = some (body ++ ['*', '/'], rest) := by
  induction body with
  | nil => rfl
  | cons c body ih =>
    have htail : ¬ ['*', '/'] <:+: body ++ ['*'] := fun hin => h (List.infix_cons hin)
    have hnot : ∀ more, c :: (body ++ ['*', '/'] ++ rest) ≠ '*' :: '/' :: more := by
      intro more heq
      cases body with
      | nil => simp at heq
      | cons d body =>
        simp only [List.cons_append, List.cons.injEq] at heq
        obtain ⟨rfl, rfl, -⟩ := heq
        exact h ⟨[], body ++ ['*'], rfl⟩
    rw [List.cons_append, List.cons_append, spanComment_cons hnot, ih htail]
    rfl

theorem first_of_spanComment {cs text rest : List Char}
    (h : spanComment cs = some (text, rest)) :
    ∃ body, text = body ++ ['*', '/'] ∧ ¬ ['*', '/'] <:+: body ++ ['*'] := by
  fun_induction spanComment cs generalizing text with
  | case1 => cases h
  | case2 rest =>
    cases h
    refine ⟨[], rfl, fun hin => ?_⟩
    have := hin.length_le
    simp at this
  | case3 c cs hnot ih =>
    obtain ⟨⟨text', rest'⟩, hspan, heq⟩ := Option.map_eq_some_iff.1 h
    cases heq
    obtain ⟨body, rfl, hbody⟩ := ih hspan
    refine ⟨c :: body, rfl, fun hin => ?_⟩
    -- A `*/` that starts further right is one of the tail's; `c` starts none.
    rcases List.infix_cons_iff.1 hin with hhead | htail
    · have happend := spanComment_append hspan
      obtain ⟨more, hmore⟩ := hhead
      cases body with
      | nil => simp at hmore
      | cons d body =>
        simp only [List.cons_append, List.nil_append, List.cons.injEq] at hmore
        obtain ⟨rfl, rfl, -⟩ := hmore
        exact hnot _ rfl happend.symm
    · exact hbody htail

theorem not_infix_of_spanComment {cs : List Char} (h : spanComment cs = none) :
    ¬ ['*', '/'] <:+: cs := by
  fun_induction spanComment cs with
  | case1 => simp
  | case2 rest => cases h
  | case3 c cs hnot ih =>
    intro hin
    rcases List.infix_cons_iff.1 hin with ⟨more, hmore⟩ | htail
    · simp only [List.cons_append, List.nil_append, List.cons.injEq] at hmore
      exact hnot more hmore.1.symm hmore.2.symm
    · exact ih (Option.map_eq_none_iff.1 h) htail

theorem spanComment_eq_none {cs : List Char} (h : ¬ ['*', '/'] <:+: cs) :
    spanComment cs = none := by
  cases hspan : spanComment cs with
  | none => rfl
  | some cut =>
    obtain ⟨body, htext, -⟩ := first_of_spanComment hspan
    have happend := spanComment_append hspan
    exact absurd ⟨body, cut.2, by rw [← htext, happend]⟩ h

theorem punctuation?_eq_none {c : Char} (h : c.isAlphanum = true) : punctuation? c = none := by
  unfold punctuation?
  split <;> first | rfl | exact absurd h (by decide)

/-- A letter or digit starts nothing but a word or a number. -/
theorem head_alphanum {c : Char} (cs : List Char) (h : c.isAlphanum = true) :
    head (c :: cs) =
      if c.isAlpha then
        token ⟨.text, String.ofList (c :: cs.takeWhile Char.isAlphanum)⟩
          (c :: cs.takeWhile Char.isAlphanum) (cs.dropWhile Char.isAlphanum)
      else
        token ⟨.number, String.ofList (spanNumber (c :: cs)).1⟩ (spanNumber (c :: cs)).1
          (spanNumber (c :: cs)).2 := by
  have hslash : c ≠ '/' := by
    rintro rfl
    exact absurd h (by decide)
  have hquote : c ≠ '"' := by
    rintro rfl
    exact absurd h (by decide)
  unfold head
  simp only [Text.isBlank_eq_false_of_isAlphanum h, hslash, hquote, punctuation?_eq_none h,
    Bool.false_eq_true, if_false]
  rcases (Text.isAlphanum_iff c).1 h with halpha | hdigit
  · simp [halpha]
  · simp [hdigit]

theorem spanFraction_of_ends {rest : List Char} (hdot : ∀ d more, rest = '.' :: d :: more →
    d.isDigit = false) : spanFraction rest = ([], rest) := by
  unfold spanFraction
  split
  · rename_i d more
    simp [hdot d more rfl]
  · rfl

theorem spanFraction_of_part {part rest : List Char} (hpart : isDigits part = true)
    (hrest : Ends Char.isDigit rest) :
    spanFraction ('.' :: (part ++ rest)) = ('.' :: part, rest) := by
  obtain ⟨hne, hall⟩ := (Text.isDigits_iff part).1 hpart
  cases part with
  | nil => exact absurd rfl hne
  | cons d part =>
    have htake := Text.takeWhile_append hall hrest
    have hdrop := Text.dropWhile_append hall hrest
    rw [List.cons_append] at htake hdrop
    rw [List.cons_append, spanFraction, if_pos (hall d List.mem_cons_self), htake, hdrop]

theorem spanNumber_of_whole {text rest : List Char} (htext : isDigits text = true)
    (hrest : Ends Char.isDigit rest) :
    spanNumber (text ++ rest) =
      (text ++ (spanFraction rest).1, (spanFraction rest).2) := by
  have hall := ((Text.isDigits_iff text).1 htext).2
  rw [spanNumber, Text.takeWhile_append hall hrest, Text.dropWhile_append hall hrest]

/-- Digits are read as a number, with the fraction that stands behind them. -/
theorem head_digits {text rest : List Char} (htext : isDigits text = true)
    (hrest : Ends Char.isDigit rest) :
    head (text ++ rest) =
      token ⟨.number, String.ofList (text ++ (spanFraction rest).1)⟩
        (text ++ (spanFraction rest).1) (spanFraction rest).2 := by
  obtain ⟨hne, hall⟩ := (Text.isDigits_iff text).1 htext
  cases text with
  | nil => exact absurd rfl hne
  | cons c text =>
    have hdigit := hall c List.mem_cons_self
    have halpha := Text.isAlpha_eq_false_of_isDigit hdigit
    have hspan := spanNumber_of_whole htext hrest
    rw [List.cons_append] at hspan
    rw [List.cons_append, head_alphanum _ ((Text.isAlphanum_iff c).2 (.inr hdigit)), hspan,
      halpha]
    rfl

theorem ofSlash_of_ends {rest : List Char} (hrest : Ends (fun c => c = '/' ∨ c = '*') rest) :
    ofSlash rest = token ⟨.slash, "/"⟩ ['/'] rest := by
  unfold ofSlash
  split
  · exact absurd (hrest '/' rfl) (by decide)
  · exact absurd (hrest '*' rfl) (by decide)
  · rfl

theorem ofQuote_of_body {body : List Char} (rest : List Char) (hbody : '"' ∉ body) :
    ofQuote (body ++ '"' :: rest) =
      token ⟨.string, String.ofList body⟩ ('"' :: (body ++ ['"'])) rest := by
  have hall := Text.all_ne_of_not_mem hbody
  have hrest : Ends (· ≠ '"') ('"' :: rest) := Text.ends_cons rest (by decide)
  rw [ofQuote, Text.takeWhile_append hall hrest, Text.dropWhile_append hall hrest]
  rfl

theorem ofQuote_of_open {cs : List Char} (h : '"' ∉ cs) :
    ofQuote cs = fault .unterminatedString ('"' :: cs) [] := by
  have hdrop := Text.dropWhile_append (Text.all_ne_of_not_mem h) (Text.ends_nil _)
  rw [List.append_nil] at hdrop
  rw [ofQuote, hdrop]

theorem head_of_piece {text rest : List Char} {t : Option Token} (h : Piece text rest t) :
    head (text ++ rest) = ofPiece text rest t := by
  cases h with
  | blank _ hblank => simp [head, hblank, ofPiece]
  | @lineComment body _ hbody hrest =>
    have hall := Text.all_ne_of_not_mem hbody
    show ofSlash ('/' :: (body ++ rest)) = _
    rw [ofSlash, Text.takeWhile_append hall hrest, Text.dropWhile_append hall hrest]
    rfl
  | @blockComment body _ hbody =>
    show ofSlash ('*' :: (body ++ ['*', '/'] ++ rest)) = _
    rw [ofSlash, spanComment_of_first rest hbody]
    rfl
  | mark _ hmark =>
    simp only [marks, List.mem_cons, Prod.mk.injEq, List.not_mem_nil, or_false] at hmark
    rcases hmark with h | h | h | h | h | h <;> obtain ⟨rfl, rfl⟩ := h <;> rfl
  | slash hrest => exact ofSlash_of_ends hrest
  | @string body _ hbody =>
    show ofQuote (body ++ ['"'] ++ rest) = _
    rw [List.append_assoc]
    exact ofQuote_of_body rest hbody
  | word htext hrest =>
    cases text with
    | nil => cases htext
    | cons c cs =>
      obtain ⟨halpha, hall⟩ := (Text.isWord_cons c cs).1 htext
      rw [List.cons_append, head_alphanum _ ((Text.isAlphanum_iff c).2 (.inl halpha)),
        if_pos halpha, Text.takeWhile_append hall hrest, Text.dropWhile_append hall hrest]
      rfl
  | whole htext hrest hdot =>
    rw [head_digits htext hrest, spanFraction_of_ends hdot, List.append_nil]
    rfl
  | @fraction whole part _ hwhole hpart hrest =>
    have hpoint : Ends Char.isDigit ('.' :: (part ++ rest)) := Text.ends_cons _ (by decide)
    rw [List.append_assoc, List.cons_append, head_digits hwhole hpoint,
      spanFraction_of_part hpart hrest]
    rfl

/-! ## What stands at the head of the input -/

/-- The source from which nothing more can be read, and why. -/
inductive Stuck : LexError → List Char → Prop
  | string {body : List Char} (hbody : '"' ∉ body) : Stuck .unterminatedString ('"' :: body)
  | comment {body : List Char} (hbody : ¬ ['*', '/'] <:+: body) :
    Stuck .unterminatedComment ('/' :: '*' :: body)
  | unexpected {c : Char} (cs : List Char) (h : ∀ text rest t, ¬ Piece (c :: text) rest t) :
    Stuck (.unexpected c) (c :: cs)

/-- The source starts with a piece or with a fault. -/
def Decided (cs : List Char) : Prop :=
  (∃ text rest t, Piece text rest t ∧ text ++ rest = cs) ∨ ∃ error, Stuck error cs

theorem decided_slash (cs : List Char) : Decided ('/' :: cs) := by
  by_cases hrest : Ends (fun c => c = '/' ∨ c = '*') cs
  · exact .inl ⟨['/'], cs, _, .slash hrest, rfl⟩
  · obtain ⟨c, hc, hmark⟩ : ∃ c, cs.head? = some c ∧ (¬ c = '/' → c = '*') := by
      simpa [Ends] using hrest
    obtain ⟨tail, rfl⟩ := List.head?_eq_some_iff.1 hc
    by_cases hslash : c = '/'
    · subst hslash
      refine .inl ⟨'/' :: '/' :: tail.takeWhile (· ≠ '\n'), tail.dropWhile (· ≠ '\n'), none,
        .lineComment (Text.not_mem_takeWhile _ _) (Text.ends_dropWhile _ _), ?_⟩
      rw [List.cons_append, List.cons_append, List.takeWhile_append_dropWhile]
    · obtain rfl := hmark hslash
      cases hspan : spanComment tail with
      | some cut =>
        obtain ⟨body, htext, hbody⟩ := first_of_spanComment hspan
        have happend := spanComment_append hspan
        refine .inl ⟨'/' :: '*' :: (body ++ ['*', '/']), cut.2, none, .blockComment _ hbody, ?_⟩
        rw [← htext, List.cons_append, List.cons_append, happend]
      | none => exact .inr ⟨_, .comment (not_infix_of_spanComment hspan)⟩

theorem decided_quote (cs : List Char) : Decided ('"' :: cs) := by
  have hbody := Text.not_mem_takeWhile '"' cs
  have happend := List.takeWhile_append_dropWhile (p := (· ≠ '"')) (l := cs)
  cases hdrop : cs.dropWhile (· ≠ '"') with
  | nil =>
    rw [hdrop, List.append_nil] at happend
    rw [happend] at hbody
    exact .inr ⟨_, .string hbody⟩
  | cons quote rest =>
    have hquote : quote = '"' := by
      have hends := Text.ends_dropWhile (· ≠ '"') cs quote (by rw [hdrop]; rfl)
      simpa using hends
    subst hquote
    refine .inl ⟨'"' :: (cs.takeWhile (· ≠ '"') ++ ['"']), rest, _, .string rest hbody, ?_⟩
    rw [hdrop] at happend
    rw [List.cons_append, List.append_assoc, List.singleton_append, happend]

theorem decided_alphanum {c : Char} (cs : List Char) (h : c.isAlphanum = true) :
    Decided (c :: cs) := by
  rcases (Text.isAlphanum_iff c).1 h with halpha | hdigit
  · have hword : isWord (c :: cs.takeWhile Char.isAlphanum) = true :=
      (Text.isWord_cons _ _).2 ⟨halpha, fun d hd => List.all_eq_true.1 List.all_takeWhile d hd⟩
    refine .inl ⟨_, _, _, .word hword (Text.ends_dropWhile Char.isAlphanum cs), ?_⟩
    rw [List.cons_append, List.takeWhile_append_dropWhile]
  · have hdigits : isDigits ((c :: cs).takeWhile Char.isDigit) = true := by
      refine (Text.isDigits_iff _).2 ⟨by simp [hdigit], fun d hd => ?_⟩
      exact List.all_eq_true.1 List.all_takeWhile d hd
    have hends := Text.ends_dropWhile Char.isDigit (c :: cs)
    have happend := List.takeWhile_append_dropWhile (p := Char.isDigit) (l := c :: cs)
    -- The digits go on with a fraction exactly if a dot and a digit follow.
    by_cases hdot : ∀ d more, (c :: cs).dropWhile Char.isDigit = '.' :: d :: more →
        d.isDigit = false
    · exact .inl ⟨_, _, _, .whole hdigits hends hdot, happend⟩
    · obtain ⟨d, more, hrest, hd⟩ : ∃ d more,
          (c :: cs).dropWhile Char.isDigit = '.' :: d :: more ∧ d.isDigit = true := by
        simpa using hdot
      have hpart : isDigits ((d :: more).takeWhile Char.isDigit) = true := by
        refine (Text.isDigits_iff _).2 ⟨by simp [hd], fun e he => ?_⟩
        exact List.all_eq_true.1 List.all_takeWhile e he
      refine .inl ⟨_, _, _, .fraction hdigits hpart (Text.ends_dropWhile _ (d :: more)), ?_⟩
      rw [List.append_assoc, List.cons_append, List.takeWhile_append_dropWhile, ← hrest, happend]

theorem mem_marks {c : Char} {kind : TokenKind} (h : punctuation? c = some kind) :
    (c, kind) ∈ marks := by
  unfold punctuation? at h
  split at h <;> first | (cases h; decide) | cases h

/-- A character of no class is refused, whatever follows it. -/
theorem head_unexpected {c : Char} (cs : List Char) (hblank : Text.isBlank c = false)
    (hslash : c ≠ '/') (hquote : c ≠ '"') (hmark : punctuation? c = none)
    (halphanum : c.isAlphanum = false) :
    head (c :: cs) = fault (.unexpected c) [] (c :: cs) := by
  have hclasses : c.isAlpha = false ∧ c.isDigit = false := by
    simpa [Char.isAlphanum] using halphanum
  simp [head, hblank, hslash, hquote, hmark, hclasses]

theorem decided_cons (c : Char) (cs : List Char) : Decided (c :: cs) := by
  by_cases hblank : Text.isBlank c = true
  · exact .inl ⟨[c], cs, none, .blank cs hblank, rfl⟩
  by_cases hslash : c = '/'
  · exact hslash ▸ decided_slash cs
  by_cases hquote : c = '"'
  · exact hquote ▸ decided_quote cs
  cases hmark : punctuation? c with
  | some kind => exact .inl ⟨[c], cs, _, .mark cs (mem_marks hmark), rfl⟩
  | none =>
    by_cases halphanum : c.isAlphanum = true
    · exact decided_alphanum cs halphanum
    · refine .inr ⟨_, .unexpected cs fun text rest t hpiece => ?_⟩
      have hread := head_of_piece hpiece
      rw [List.cons_append, head_unexpected _ (by simpa using hblank) hslash hquote hmark
        (by simpa using halphanum)] at hread
      cases t <;> cases hread

/-- What a fault leaves unread.  A character that starts no piece stays in place, and the
search for an end has taken everything. -/
def leaves : LexError → List Char → List Char
  | .unexpected _, cs => cs
  | _, _ => []

theorem head_of_stuck {error : LexError} {cs : List Char} (h : Stuck error cs) :
    ∃ text, head cs = fault error text (leaves error cs) := by
  cases h with
  | @string body hbody => exact ⟨'"' :: body, ofQuote_of_open hbody⟩
  | @comment body hbody =>
    refine ⟨'/' :: '*' :: body, ?_⟩
    show ofSlash ('*' :: body) = _
    rw [ofSlash, spanComment_eq_none hbody]
    rfl
  | @unexpected c cs hnone =>
    -- A character of any class would start a piece of its own with nothing behind it.
    refine ⟨[], head_unexpected cs ?_ ?_ ?_ ?_ ?_⟩
    · refine Bool.eq_false_iff.2 fun hblank => ?_
      exact hnone [] [] none (.blank [] hblank)
    · rintro rfl
      exact hnone [] [] _ (.slash (Text.ends_nil _))
    · rintro rfl
      exact hnone ['"'] [] _ (.string [] List.not_mem_nil)
    · refine Option.eq_none_iff_forall_ne_some.2 fun kind hmark => ?_
      exact hnone [] [] _ (.mark [] (mem_marks hmark))
    · refine Bool.eq_false_iff.2 fun halphanum => ?_
      rcases (Text.isAlphanum_iff c).1 halphanum with halpha | hdigit
      · exact hnone [] [] _ (.word (by simp [isWord, halpha]) (Text.ends_nil _))
      · exact hnone [] [] _ (.whole (by simp [isDigits, hdigit]) (Text.ends_nil _)
          (fun _ _ h => by cases h))

end Scan
end JsLisp
