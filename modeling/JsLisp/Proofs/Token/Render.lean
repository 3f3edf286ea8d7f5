/-
Source text written from tokens.

A rendering spells tokens one after the other, with trivia in the gaps around
them: blanks and comments, or nothing at all.  Reading it gives the tokens back
if neighbours that would run together are kept apart.  Only five pairs of kinds
run together, and a slash also runs into a comment.  One triple does so without
any of its pairs: digits, a dot and digits are one number.
-/
import JsLisp.Compile
import JsLisp.Proofs.Token.Spelling

namespace JsLisp

open Text (Ends)

/-- Blanks and closed comments. -/
inductive Trivia : List Char → Prop
  | nil : Trivia []
  | blank {c : Char} {more : List Char} (hc : Text.isBlank c = true) (h : Trivia more) :
    Trivia (c :: more)
  | lineComment {body more : List Char} (hbody : '\n' ∉ body) (h : Trivia more) :
    Trivia ('/' :: '/' :: (body ++ '\n' :: more))
  /-- The closing `*/` is the first behind the opening. -/
  | blockComment {body more : List Char} (hbody : ¬ ['*', '/'] <:+: body ++ ['*'])
    (h : Trivia more) : Trivia ('/' :: '*' :: (body ++ ['*', '/'] ++ more))

/-- At the end of the source a line comment needs no line break. -/
inductive LastTrivia : List Char → Prop
  | closed {text : List Char} (h : Trivia text) : LastTrivia text
  | unclosed {text body : List Char} (h : Trivia text) (hbody : '\n' ∉ body) :
    LastTrivia (text ++ '/' :: '/' :: body)

namespace Token

/-- The token as source spells it. -/
def spelling (token : Token) : List Char :=
  match token.kind with
  | .string => '"' :: (token.text.toList ++ ['"'])
  | _ => token.text.toList

/-- The tokens with a gap in front of each and one behind the last. -/
def render : List Token → (Nat → List Char) → List Char
  | [], gap => gap 0
  | token :: tokens, gap => gap 0 ++ (token.spelling ++ render tokens fun i => gap (i + 1))

end Token

namespace TokenKind

/-- Neighbours that are read as one piece if nothing stands between them. -/
def joins : TokenKind → TokenKind → Bool
  | text, text | text, number | number, number | slash, slash | slash, star => true
  | _, _ => false

end TokenKind

/-- The gaps are trivia and keep apart what would run together.  The gap behind
the token at `i` is the one at `i + 1`. -/
structure Spaced (tokens : List Token) (gap : Nat → List Char) : Prop where
  trivia : ∀ i < tokens.length, Trivia (gap i)
  last : LastTrivia (gap tokens.length)
  pair : ∀ i a b, tokens[i]? = some a → tokens[i + 1]? = some b →
    a.kind.joins b.kind = true → gap (i + 1) ≠ []
  slash : ∀ i a, tokens[i]? = some a → a.kind = .slash → (gap (i + 1)).head? ≠ some '/'
  triple : ∀ i a b c, tokens[i]? = some a → tokens[i + 1]? = some b → tokens[i + 2]? = some c →
    a.kind = .number → '.' ∉ a.text.toList → b.kind = .dot → c.kind = .number →
    gap (i + 1) ≠ [] ∨ gap (i + 2) ≠ []

namespace Trivia

theorem cut {text cs rest : List Char} {pieces : List (List Char × Option Token)}
    (h : Trivia text) (hcut : Cut cs pieces rest) :
    ∃ pieces', Cut (text ++ cs) pieces' rest ∧ Cut.tokens pieces' = Cut.tokens pieces := by
  induction h with
  | nil => exact ⟨pieces, hcut, rfl⟩
  | @blank c more hc h ih =>
    obtain ⟨pieces', hcut', htokens⟩ := ih
    exact ⟨([c], none) :: pieces', .cons (.blank _ hc) hcut', htokens⟩
  | @lineComment body more hbody h ih =>
    obtain ⟨pieces', hcut', htokens⟩ := ih
    -- The line break behind the comment is a blank of its own.
    have hbreak := Cut.cons (.blank (more ++ cs) (by decide : Text.isBlank '\n' = true)) hcut'
    have hcomment := Cut.cons (.lineComment hbody (Text.ends_cons _ (by decide))) hbreak
    refine ⟨('/' :: '/' :: body, none) :: (['\n'], none) :: pieces', ?_, htokens⟩
    simpa using hcomment
  | @blockComment body more hbody h ih =>
    obtain ⟨pieces', hcut', htokens⟩ := ih
    have hcomment := Cut.cons (.blockComment (more ++ cs) hbody) hcut'
    refine ⟨('/' :: '*' :: (body ++ ['*', '/']), none) :: pieces', ?_, htokens⟩
    simpa using hcomment

theorem head {text : List Char} (h : Trivia text) {c : Char} (hc : text.head? = some c) :
    Text.isBlank c = true ∨ c = '/' := by
  cases h with
  | nil => cases hc
  | blank hblank h =>
    cases hc
    exact .inl hblank
  | lineComment hbody h | blockComment hbody h =>
    cases hc
    exact .inr rfl

end Trivia

namespace LastTrivia

theorem cut {text : List Char} (h : LastTrivia text) :
    ∃ pieces, Cut text pieces [] ∧ Cut.tokens pieces = [] := by
  cases h with
  | closed h =>
    obtain ⟨pieces, hcut, htokens⟩ := h.cut (.nil [])
    rw [List.append_nil] at hcut
    exact ⟨pieces, hcut, htokens⟩
  | @unclosed text body h hbody =>
    have hcomment := Cut.cons (.lineComment hbody (Text.ends_nil _)) (.nil [])
    rw [List.append_nil] at hcomment
    exact h.cut hcomment

theorem head {text : List Char} (h : LastTrivia text) {c : Char} (hc : text.head? = some c) :
    Text.isBlank c = true ∨ c = '/' := by
  cases h with
  | closed h => exact h.head hc
  | @unclosed text body h hbody =>
    cases text with
    | nil =>
      cases hc
      exact .inr rfl
    | cons d text => exact h.head hc

end LastTrivia

theorem exists_mark {kind : TokenKind} {text : String}
    (h : (marks.any fun mark => mark.2 == kind && mark.1.toString == text) = true) :
    ∃ c, (c, kind) ∈ marks ∧ c.toString = text := by
  obtain ⟨⟨c, kind'⟩, hmem, hmark⟩ := List.any_eq_true.1 h
  simp only [Bool.and_eq_true, beq_iff_eq] at hmark
  obtain ⟨rfl, htext⟩ := hmark
  exact ⟨c, hmem, htext⟩

namespace TokenKind

/-- The kind of the tokens that start with the character. -/
def ofHead? (c : Char) : Option TokenKind :=
  if c.isAlpha then some text
  else if c.isDigit then some number
  else if c = '/' then some slash
  else if c = '"' then some string
  else Scan.punctuation? c

theorem ofHead?_of_isAlpha {c : Char} (h : c.isAlpha = true) : ofHead? c = some text := by
  rw [ofHead?, if_pos h]

theorem ofHead?_of_isDigit {c : Char} (h : c.isDigit = true) : ofHead? c = some number := by
  rw [ofHead?, if_neg (by simp [Text.isAlpha_eq_false_of_isDigit h]), if_pos h]

end TokenKind

namespace Token

theorem head_spelling {token : Token} (h : token.isSpelled = true) :
    ∃ c cs, token.spelling = c :: cs ∧ TokenKind.ofHead? c = some token.kind := by
  obtain ⟨kind, text⟩ := token
  cases kind
  case text =>
    obtain ⟨c, cs, htext, halpha, -⟩ := Text.exists_cons_of_isWord h
    exact ⟨c, cs, htext, TokenKind.ofHead?_of_isAlpha halpha⟩
  case number =>
    obtain ⟨c, cs, htext, hdigit, -⟩ := Text.exists_cons_of_isNumeral h
    exact ⟨c, cs, htext, TokenKind.ofHead?_of_isDigit hdigit⟩
  case string => exact ⟨'"', text.toList ++ ['"'], rfl, rfl⟩
  case slash =>
    obtain rfl : text = "/" := by simpa [isSpelled] using h
    exact ⟨'/', [], rfl, rfl⟩
  all_goals
    obtain ⟨c, hmem, rfl⟩ := exists_mark h
    have hall : ∀ mark ∈ marks, TokenKind.ofHead? mark.1 = some mark.2 := by decide
    exact ⟨c, [], by simp [spelling], hall _ hmem⟩

/-- What stands behind the token does not continue it. -/
structure Stops (token : Token) (rest : List Char) : Prop where
  word : token.kind = .text → Ends Char.isAlphanum rest
  number : token.kind = .number → Ends Char.isDigit rest
  whole : token.kind = .number → '.' ∉ token.text.toList →
    ∀ d more, rest = '.' :: d :: more → d.isDigit = false
  slash : token.kind = .slash → Ends (fun c => c = '/' ∨ c = '*') rest

theorem piece {token : Token} {rest : List Char} (h : token.isSpelled = true)
    (hstops : token.Stops rest) : Piece token.spelling rest (some token) := by
  obtain ⟨kind, text⟩ := token
  cases kind
  case text =>
    have hpiece := Piece.word h (hstops.word rfl)
    rwa [String.ofList_toList] at hpiece
  case number =>
    have hends := hstops.number rfl
    rcases (Text.isNumeral_iff text.toList).1 h with hdigits | ⟨whole, part, hwhole, hpart, htext⟩
    · have hdot : '.' ∉ text.toList := fun hmem => by
        simpa using Text.all_ne_dot_of_isDigits hdigits '.' hmem
      have hpiece := Piece.whole hdigits hends (hstops.whole rfl hdot)
      rwa [String.ofList_toList] at hpiece
    · have hpiece := Piece.fraction hwhole hpart hends
      rwa [← htext, String.ofList_toList] at hpiece
  case string =>
    have hbody : '"' ∉ text.toList := by simpa [isSpelled] using h
    have hpiece := Piece.string rest hbody
    rwa [String.ofList_toList] at hpiece
  case slash =>
    obtain rfl : text = "/" := by simpa [isSpelled] using h
    exact .slash (hstops.slash rfl)
  all_goals
    obtain ⟨c, hmem, rfl⟩ := exists_mark h
    have hpiece := Piece.mark rest hmem
    simpa [spelling] using hpiece

end Token

/-! ## The gaps keep tokens apart -/

namespace Spaced

variable {tokens : List Token} {token : Token} {gap : Nat → List Char}

theorem tail (h : Spaced (token :: tokens) gap) : Spaced tokens fun i => gap (i + 1) where
  trivia i hi := h.trivia (i + 1) (Nat.succ_lt_succ hi)
  last := h.last
  pair i := h.pair (i + 1)
  slash i := h.slash (i + 1)
  triple i := h.triple (i + 1)

theorem head_gap (h : Spaced tokens gap) {c : Char} (hc : (gap 0).head? = some c) :
    Text.isBlank c = true ∨ c = '/' := by
  cases tokens with
  | nil => exact h.last.head hc
  | cons token tokens => exact (h.trivia 0 (Nat.succ_pos _)).head hc

/-- A rendering starts with its first gap or, if that is empty, with its first
token. -/
theorem ends_render {p : Char → Bool} (hspelled : ∀ t ∈ tokens, t.isSpelled = true)
    (hgap : ∀ c, (gap 0).head? = some c → p c = false)
    (hnext : gap 0 = [] → ∀ b, tokens[0]? = some b →
      ∀ c, TokenKind.ofHead? c = some b.kind → p c = false) :
    Ends p (Token.render tokens gap) := by
  intro c hc
  cases hempty : gap 0 with
  | cons d ds =>
    refine hgap c ?_
    cases tokens <;> simpa [Token.render, hempty] using hc
  | nil =>
    cases tokens with
    | nil => simp [Token.render, hempty] at hc
    | cons b tokens =>
      obtain ⟨d, ds, hspelling, hkind⟩ := Token.head_spelling (hspelled b List.mem_cons_self)
      obtain rfl : d = c := by simpa [Token.render, hempty, hspelling] using hc
      exact hnext hempty b rfl d hkind

theorem gap_alphanum (h : Spaced tokens gap) {c : Char} (hc : (gap 0).head? = some c) :
    c.isAlphanum = false := by
  refine Bool.eq_false_iff.2 fun halphanum => ?_
  rcases h.head_gap hc with hblank | rfl
  · rw [Text.isBlank_eq_false_of_isAlphanum halphanum] at hblank
    cases hblank
  · exact absurd halphanum (by decide)

theorem gap_digit (h : Spaced tokens gap) {c : Char} (hc : (gap 0).head? = some c) :
    c.isDigit = false := by
  have halphanum := h.gap_alphanum hc
  simp only [Char.isAlphanum, Bool.or_eq_false_iff] at halphanum
  exact halphanum.2

theorem ends_alphanum (h : Spaced (token :: tokens) gap)
    (hspelled : ∀ t ∈ tokens, t.isSpelled = true) (hkind : token.kind = .text) :
    Ends Char.isAlphanum (Token.render tokens fun i => gap (i + 1)) := by
  refine ends_render hspelled (fun c hc => h.tail.gap_alphanum hc) fun hempty b hb c hc => ?_
  refine Bool.eq_false_iff.2 fun halphanum => ?_
  have hjoins : token.kind.joins b.kind = true := by
    rcases (Text.isAlphanum_iff c).1 halphanum with halpha | hdigit
    · rw [TokenKind.ofHead?_of_isAlpha halpha] at hc
      rw [hkind, ← Option.some.inj hc]
      rfl
    · rw [TokenKind.ofHead?_of_isDigit hdigit] at hc
      rw [hkind, ← Option.some.inj hc]
      rfl
  exact h.pair 0 token b rfl hb hjoins hempty

theorem ends_digit (h : Spaced (token :: tokens) gap)
    (hspelled : ∀ t ∈ tokens, t.isSpelled = true) (hkind : token.kind = .number) :
    Ends Char.isDigit (Token.render tokens fun i => gap (i + 1)) := by
  refine ends_render hspelled (fun c hc => h.tail.gap_digit hc) fun hempty b hb c hc => ?_
  refine Bool.eq_false_iff.2 fun hdigit => ?_
  rw [TokenKind.ofHead?_of_isDigit hdigit] at hc
  exact h.pair 0 token b rfl hb (by rw [hkind, ← Option.some.inj hc]; rfl) hempty

/-- Behind digits and a dot stand no further digits. -/
theorem not_fraction (h : Spaced (token :: tokens) gap)
    (hspelled : ∀ t ∈ tokens, t.isSpelled = true) (hkind : token.kind = .number)
    (hwhole : '.' ∉ token.text.toList) {d : Char} {more : List Char}
    (hrest : Token.render tokens (fun i => gap (i + 1)) = '.' :: d :: more) :
    d.isDigit = false := by
  cases hempty : gap 1 with
  | cons c cs =>
    -- The gap would start with the dot.
    have hdot : (gap 1).head? = some '.' := by
      cases tokens <;> simp_all [Token.render]
    exact absurd (h.tail.head_gap hdot) (by decide)
  | nil =>
    cases tokens with
    | nil => simp [Token.render, hempty] at hrest
    | cons b tokens =>
      obtain ⟨c, cs, hspelling, hb⟩ := Token.head_spelling (hspelled b List.mem_cons_self)
      obtain ⟨rfl, htail⟩ : c = '.' ∧
          cs ++ Token.render tokens (fun i => gap (i + 2)) = d :: more := by
        simpa [Token.render, hempty, hspelling] using hrest
      have hbkind : b.kind = .dot := (Option.some.inj hb).symm
      obtain rfl : cs = [] := by
        obtain ⟨kind, text⟩ := b
        subst hbkind
        obtain ⟨c, hmem, rfl⟩ := exists_mark (hspelled _ List.mem_cons_self)
        simpa [Token.spelling] using (congrArg List.tail hspelling).symm
      have hends : Ends Char.isDigit (Token.render tokens fun i => gap (i + 2)) := by
        refine ends_render (fun t ht => hspelled t (List.mem_cons_of_mem b ht))
          (fun c hc => h.tail.tail.gap_digit hc) fun hempty' a ha c hc => ?_
        refine Bool.eq_false_iff.2 fun hdigit => ?_
        rw [TokenKind.ofHead?_of_isDigit hdigit] at hc
        have hgaps := h.triple 0 token b a rfl rfl ha hkind hwhole hbkind
          (Option.some.inj hc).symm
        exact hgaps.elim (fun hne => hne hempty) (fun hne => hne hempty')
      exact hends d (by rw [← List.nil_append (Token.render _ _), htail]; rfl)

theorem ends_slash (h : Spaced (token :: tokens) gap)
    (hspelled : ∀ t ∈ tokens, t.isSpelled = true) (hkind : token.kind = .slash) :
    Ends (fun c => c = '/' ∨ c = '*') (Token.render tokens fun i => gap (i + 1)) := by
  refine ends_render hspelled (fun c hc => ?_) fun hempty b hb c hc => ?_
  · have hslash : c ≠ '/' := by
      rintro rfl
      exact h.slash 0 token rfl hkind hc
    have hstar : c ≠ '*' := by
      rintro rfl
      exact absurd (h.tail.head_gap hc) (by decide)
    simp [hslash, hstar]
  · refine Bool.eq_false_iff.2 fun hmark => ?_
    have hjoins : token.kind.joins b.kind = true := by
      rcases of_decide_eq_true hmark with rfl | rfl
      · rw [hkind, ← Option.some.inj hc]
        rfl
      · rw [hkind, ← Option.some.inj hc]
        rfl
    exact h.pair 0 token b rfl hb hjoins hempty

theorem stops (h : Spaced (token :: tokens) gap) (hspelled : ∀ t ∈ tokens, t.isSpelled = true) :
    token.Stops (Token.render tokens fun i => gap (i + 1)) where
  word := h.ends_alphanum hspelled
  number := h.ends_digit hspelled
  whole hkind hwhole _ _ hrest := h.not_fraction hspelled hkind hwhole hrest
  slash := h.ends_slash hspelled

theorem cut (h : Spaced tokens gap) (hspelled : ∀ t ∈ tokens, t.isSpelled = true) :
    ∃ pieces, Cut (Token.render tokens gap) pieces [] ∧ Cut.tokens pieces = tokens := by
  induction tokens generalizing gap with
  | nil => exact h.last.cut
  | cons token tokens ih =>
    have hrest : ∀ t ∈ tokens, t.isSpelled = true :=
      fun t ht => hspelled t (List.mem_cons_of_mem token ht)
    obtain ⟨pieces, hcut, htokens⟩ := ih h.tail hrest
    have hpiece := Token.piece (hspelled token List.mem_cons_self) (h.stops hrest)
    obtain ⟨pieces', hcut', htokens'⟩ :=
      (h.trivia 0 (Nat.succ_pos _)).cut (Cut.cons hpiece hcut)
    refine ⟨pieces', hcut', htokens'.trans ?_⟩
    rw [← htokens]
    rfl

end Spaced

/-- Reading undoes rendering, whatever trivia stand in the gaps, as long as they
keep apart the few neighbours that would run together. -/
theorem tokenize_render (tokens : List Token) (gap : Nat → List Char)
    (hspelled : ∀ token ∈ tokens, token.isSpelled = true) (hspaced : Spaced tokens gap) :
    tokenize (String.ofList (Token.render tokens gap)) = .ok tokens := by
  obtain ⟨pieces, hcut, htokens⟩ := hspaced.cut hspelled
  have hlexer : Cut (Lexer.ofSource (String.ofList (Token.render tokens gap))).rest pieces [] := by
    rw [Lexer.ofSource, String.toList_ofList]
    exact hcut
  have hread := (Lexer.tokenize_eq_ok_iff hlexer (.inl rfl) tokens).2 ⟨rfl, htokens.symm⟩
  rw [tokenize, hread]
  rfl

/-- A comment keeps the dot from being a decimal point, a blank keeps the slash
from opening a comment, and the last comment runs to the end of the source. -/
theorem tokenize_render_fraction :
    tokenize "1./**/2/ *//" =
      .ok [⟨.number, "1"⟩, ⟨.dot, "."⟩, ⟨.number, "2"⟩, ⟨.slash, "/"⟩, ⟨.star, "*"⟩] := by
  have hcomment : Trivia ['/', '*', '*', '/'] := @Trivia.blockComment [] [] (by decide) .nil
  refine tokenize_render
    [⟨.number, "1"⟩, ⟨.dot, "."⟩, ⟨.number, "2"⟩, ⟨.slash, "/"⟩, ⟨.star, "*"⟩]
    (fun i => [[], [], ['/', '*', '*', '/'], [], [' '], ['/', '/']].getD i [])
    (by decide) ⟨?_, .unclosed .nil List.not_mem_nil, ?_, ?_, ?_⟩
  · intro i hi
    match i, hi with
    | 0, _ | 1, _ | 3, _ => exact .nil
    | 2, _ => exact hcomment
    | 4, _ => exact .blank (by decide) .nil
  · intro i a b ha hb
    match i, ha, hb with
    | 0, rfl, rfl | 1, rfl, rfl | 2, rfl, rfl | 3, rfl, rfl => decide
  · intro i a ha
    match i, ha with
    | 0, rfl | 1, rfl | 2, rfl | 3, rfl | 4, rfl => decide
  · intro i a b c ha hb hc
    match i, ha, hb, hc with
    | 0, rfl, rfl, rfl | 1, rfl, rfl, rfl | 2, rfl, rfl, rfl => decide

end JsLisp
