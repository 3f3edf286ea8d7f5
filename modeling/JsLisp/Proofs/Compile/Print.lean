/-
Programs and the source that they are read from.

Printing writes a program with as little source as it needs: calls in parentheses,
one blank in front of every argument, one line for every statement, and strings as
they are.  It is read back, so every program that is spelled as source spells it
can be read, and no other program ever is.  Reading printed text is compositional:
`Spells` says what a text is read as in front of any source that does not go on with
a name or a number.
-/
import JsLisp.Proofs.Compile.Stages
import JsLisp.Proofs.Token.Render

namespace JsLisp

open Text (Ends)

namespace Expr

mutual

def print : Expr → String
  | call callee args => "(" ++ callee.text ++ printArgs args ++ ")"
  | name n => n.text
  | string value => "\"" ++ value ++ "\""
  | number raw => raw

/-- The arguments of a call, with a blank in front of each. -/
def printArgs : List Expr → String
  | [] => ""
  | e :: es => " " ++ print e ++ printArgs es

end

end Expr

namespace Program

def print (program : Program) : String :=
  "\n".intercalate (program.body.map Expr.print)

/-- The program is one that source can spell.  Names have segments by their type. -/
structure WellFormed (program : Program) : Prop where
  nesting : program.nesting ≤ maxNesting
  plain : Expr.isPlainAll program.body = true
  strings : ∀ value ∈ Expr.stringsAll program.body, '"' ∉ value.toList

end Program

/-- In front of source that does not go on with a name or a number, the text is
read as the tokens. -/
def Spells (text : List Char) (tokens : List Token) : Prop :=
  ∀ rest pieces, Ends Name.isNameChar rest → Cut rest pieces [] →
    ∃ pieces', Cut (text ++ rest) pieces' [] ∧ Cut.tokens pieces' = tokens ++ Cut.tokens pieces

theorem Cut.tokens_cons (text : List Char) (t : Option Token)
    (pieces : List (List Char × Option Token)) :
    tokens ((text, t) :: pieces) = t.toList ++ tokens pieces := by
  cases t <;> rfl

theorem Token.stops_of_ends {token : Token} {rest : List Char} (hkind : token.kind ≠ .slash)
    (h : Ends Name.isNameChar rest) : token.Stops rest where
  word _ c hc := by
    have hname := h c hc
    simp only [Name.isNameChar, Bool.or_eq_false_iff] at hname
    exact hname.1
  number _ c hc := by
    have hname := h c hc
    simp only [Name.isNameChar, Char.isAlphanum, Bool.or_eq_false_iff] at hname
    exact hname.1.2
  whole _ _ d more hrest := by
    subst hrest
    exact absurd (h '.' rfl) (by decide)
  slash hslash := absurd hslash hkind

namespace Spells

variable {text text' : List Char} {tokens tokens' : List Token}

theorem nil : Spells [] [] :=
  fun _ pieces _ hcut => ⟨pieces, hcut, rfl⟩

theorem append (h : Spells text tokens) (h' : Spells text' tokens')
    (hends : Ends Name.isNameChar text') : Spells (text ++ text') (tokens ++ tokens') := by
  intro rest pieces hrest hcut
  obtain ⟨pieces', hcut', htokens'⟩ := h' rest pieces hrest hcut
  obtain ⟨pieces'', hcut'', htokens''⟩ := h _ pieces' (Text.ends_append hends hrest) hcut'
  refine ⟨pieces'', ?_, ?_⟩
  · rw [List.append_assoc]
    exact hcut''
  · rw [htokens'', htokens', List.append_assoc]

/-- One more piece in front. -/
theorem cons {piece : List Char} {t : Option Token}
    (hpiece : ∀ rest, Ends Name.isNameChar rest → Piece piece (text ++ rest) t)
    (h : Spells text tokens) : Spells (piece ++ text) (t.toList ++ tokens) := by
  intro rest pieces hrest hcut
  obtain ⟨pieces', hcut', htokens'⟩ := h rest pieces hrest hcut
  refine ⟨(piece, t) :: pieces', ?_, ?_⟩
  · rw [List.append_assoc]
    exact .cons (hpiece rest hrest) hcut'
  · rw [Cut.tokens_cons, htokens', List.append_assoc]

theorem blank {c : Char} (hc : Text.isBlank c = true) (h : Spells text tokens) :
    Spells (c :: text) tokens :=
  h.cons fun _ _ => .blank _ hc

theorem mark {c : Char} {kind : TokenKind} (hc : (c, kind) ∈ marks) (h : Spells text tokens) :
    Spells (c :: text) (⟨kind, c.toString⟩ :: tokens) :=
  h.cons fun _ _ => .mark _ hc

/-- A name goes on behind its dot. -/
theorem segment {segment : String} (hword : Text.isWord segment.toList = true)
    (h : Spells ('.' :: text) tokens) :
    Spells (segment.toList ++ '.' :: text) (.word segment :: tokens) := by
  have hpiece : ∀ rest, Ends Name.isNameChar rest →
      Piece segment.toList ('.' :: text ++ rest) (some (.word segment)) := by
    intro rest _
    have hdot : Ends Char.isAlphanum ('.' :: text ++ rest) := Text.ends_cons _ (by decide)
    have hsegment := Piece.word hword hdot
    rwa [String.ofList_toList] at hsegment
  exact h.cons hpiece

theorem token {token : Token} (hspelled : token.isSpelled = true) (hkind : token.kind ≠ .slash) :
    Spells token.spelling [token] := by
  have hpiece : ∀ rest, Ends Name.isNameChar rest →
      Piece token.spelling ([] ++ rest) (some token) :=
    fun rest hrest => Token.piece hspelled (Token.stops_of_ends hkind hrest)
  have hspells := Spells.nil.cons hpiece
  rwa [List.append_nil] at hspells

theorem tokenize_eq {source : String} (h : Spells source.toList tokens) :
    tokenize source = .ok tokens := by
  obtain ⟨pieces, hcut, htokens⟩ := h [] [] (Text.ends_nil _) (.nil [])
  have hlexer : Cut (Lexer.ofSource source).rest pieces [] := by
    rw [List.append_nil] at hcut
    exact hcut
  have hread := (Lexer.tokenize_eq_ok_iff hlexer (.inl rfl) tokens).2
    ⟨rfl, by rw [htokens]; simp [Cut.tokens]⟩
  rw [tokenize, hread]
  rfl

end Spells

theorem Name.spells {name : Name} (h : name.isPlain = true) :
    Spells name.text.toList name.tokens := by
  obtain ⟨head, members⟩ := name
  induction members generalizing head with
  | nil =>
    have hhead : Text.isWord head.toList = true := by simpa [isPlain, segments] using h
    rw [text_lone]
    exact .token (show (Token.word head).isSpelled = true from hhead)
      (by decide : TokenKind.text ≠ .slash)
  | cons segment members ih =>
    have hparts : Text.isWord head.toList = true ∧ (Name.mk segment members).isPlain = true := by
      simpa [isPlain, segments] using h
    rw [toList_text_cons]
    exact .segment hparts.1 (.mark (by decide) (ih segment hparts.2))

namespace Expr

theorem ends_printArgs (es : List Expr) : Ends Name.isNameChar (printArgs es).toList := by
  cases es with
  | nil => exact Text.ends_nil _
  | cons e es =>
    rw [printArgs, String.append_assoc, String.toList_append]
    exact Text.ends_cons _ (by decide)

mutual

theorem spells_print (e : Expr) (hplain : e.isPlain = true)
    (hstrings : ∀ value ∈ e.strings, '"' ∉ value.toList) : Spells e.print.toList e.tokens := by
  cases e with
  | call callee args =>
    rw [isPlain, Bool.and_eq_true] at hplain
    have hclosing : Spells [')'] [.closing] := .mark (by decide) .nil
    have hargs := (spells_printArgs args hplain.2 hstrings).append hclosing
      (Text.ends_cons [] (by decide))
    have hends : Ends Name.isNameChar ((printArgs args).toList ++ [')']) :=
      Text.ends_append (ends_printArgs args) (Text.ends_cons [] (by decide))
    have hcall : Spells _ (.opening :: _) :=
      .mark (by decide : ('(', TokenKind.leftParen) ∈ marks)
        ((Name.spells hplain.1).append hargs hends)
    simpa [print, tokens] using hcall
  | name n => exact n.spells hplain
  | string value =>
    have hspelled : (Token.mk .string value).isSpelled = true := by
      simpa [Token.isSpelled] using hstrings value List.mem_cons_self
    have hliteral := Spells.token hspelled (by decide : TokenKind.string ≠ .slash)
    simpa [print, tokens, Token.spelling] using hliteral
  | number raw =>
    exact .token (show (Token.mk .number raw).isSpelled = true from hplain)
      (by decide : TokenKind.number ≠ .slash)

theorem spells_printArgs (es : List Expr) (hplain : isPlainAll es = true)
    (hstrings : ∀ value ∈ stringsAll es, '"' ∉ value.toList) :
    Spells (printArgs es).toList (tokensAll es) := by
  cases es with
  | nil => exact .nil
  | cons e es =>
    rw [isPlainAll, Bool.and_eq_true] at hplain
    rw [stringsAll, List.forall_mem_append] at hstrings
    have harg := (spells_print e hplain.1 hstrings.1).append
      (spells_printArgs es hplain.2 hstrings.2) (ends_printArgs es)
    have hblank := Spells.blank (by decide : Text.isBlank ' ' = true) harg
    simpa [printArgs, tokensAll] using hblank

end

theorem spells_lines {es : List Expr} (hplain : isPlainAll es = true)
    (hstrings : ∀ value ∈ stringsAll es, '"' ∉ value.toList) :
    Spells ("\n".intercalate (es.map print)).toList (tokensAll es) := by
  induction es with
  | nil => exact .nil
  | cons e es ih =>
    rw [isPlainAll, Bool.and_eq_true] at hplain
    rw [stringsAll, List.forall_mem_append] at hstrings
    have hfirst := e.spells_print hplain.1 hstrings.1
    have hrest := ih hplain.2 hstrings.2
    cases es with
    | nil => simpa [tokensAll] using hfirst
    | cons e' es =>
      have hline := Spells.blank (by decide : Text.isBlank '\n' = true) hrest
      have hlines := hfirst.append hline (Text.ends_cons _ (by decide))
      simpa [tokensAll] using hlines

end Expr

namespace Program

theorem spells_print {program : Program} (h : program.WellFormed) :
    Spells program.print.toList program.tokens :=
  Expr.spells_lines h.plain h.strings

theorem parse_print {program : Program} (h : program.WellFormed) :
    parse program.print = .ok program :=
  (parse_eq_ok_iff _ _).2
    ⟨program.tokens, (spells_print h).tokenize_eq, Parser.parse_tokens h.nesting⟩

theorem wellFormed_of_parse {source : String} {program : Program}
    (h : parse source = .ok program) : program.WellFormed := by
  obtain ⟨tokens, htokens, hparse⟩ := (parse_eq_ok_iff source program).1 h
  have hspelled := isSpelled_of_tokenize htokens
  have hyields := Parser.yields_of_parse hparse
  refine ⟨Parser.nesting_le_of_parse hparse hyields, isPlainAll_of_yields hyields hspelled,
    fun value hvalue => ?_⟩
  rw [← strings_of_yields hyields] at hvalue
  obtain ⟨token, htoken, rfl⟩ := List.mem_map.1 hvalue
  obtain ⟨hmem, hkind⟩ := List.mem_filter.1 htoken
  have hquote := hspelled token hmem
  rw [Token.isSpelled, of_decide_eq_true hkind] at hquote
  simpa using hquote

/-- Source is read as the well-formed programs and as no others, and each of them
is read from its printed text. -/
theorem exists_source_iff (program : Program) :
    ((∃ source, parse source = .ok program) ↔ program.WellFormed) ∧
      (program.WellFormed → parse program.print = .ok program) :=
  ⟨⟨fun ⟨_, h⟩ => wellFormed_of_parse h, fun h => ⟨program.print, parse_print h⟩⟩, parse_print⟩

/-- A string that looks like source and spans lines, in the argument of a member
call, and a fraction behind it. -/
theorem parse_print_verbatim :
    parse "(a.f \"// (\n\" (g))\n1.5" =
      .ok ⟨[.call ⟨"a", ["f"]⟩ [.string "// (\n", .call ⟨"g", []⟩ []], .number "1.5"]⟩ :=
  (exists_source_iff ⟨[.call ⟨"a", ["f"]⟩ [.string "// (\n", .call ⟨"g", []⟩ []],
    .number "1.5"]⟩).2 ⟨by decide, by decide, by decide⟩

end Program
end JsLisp
