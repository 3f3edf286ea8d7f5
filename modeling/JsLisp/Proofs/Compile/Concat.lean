/-
Compiling two sources as one.

A line break ends every piece that source text is made of, except the two that go
on until they are closed.  So what was read before the line break is read in the
same way with more source behind it, and nothing passes over it: the tokens, the
programs and the codes of the two sources are put one after the other.
-/
import Mathlib
import JsLisp.Proofs.Compile.Stages
import JsLisp.Proofs.Token.Trim

namespace JsLisp

/-- A line break ends every piece. -/
theorem Piece.append_line {text rest : List Char} {t : Option Token} (h : Piece text rest t)
    (more : List Char) : Piece text (rest ++ '\n' :: more) t :=
  (h.append_blank (by decide) more).resolve_right fun hcomment => hcomment.1 rfl

namespace Cut

theorem append_line {cs rest : List Char} {pieces : List (List Char × Option Token)}
    (h : Cut cs pieces rest) (more : List Char) :
    Cut (cs ++ '\n' :: more) pieces (rest ++ '\n' :: more) := by
  induction h with
  | nil cs => exact .nil _
  | cons hpiece hcut ih =>
    rw [List.append_assoc]
    exact .cons (hpiece.append_line more) ih

theorem trans {cs middle rest : List Char} {pieces pieces' : List (List Char × Option Token)}
    (h : Cut cs pieces middle) (h' : Cut middle pieces' rest) :
    Cut cs (pieces ++ pieces') rest := by
  induction h with
  | nil cs => exact h'
  | cons hpiece hcut ih => exact .cons hpiece (ih h')

/-- Two cuts become one, with the line break as a piece between them. -/
theorem concat {cs ds rest : List Char} {pieces pieces' : List (List Char × Option Token)}
    (h : Cut cs pieces []) (h' : Cut ds pieces' rest) :
    Cut (cs ++ '\n' :: ds) (pieces ++ (['\n'], none) :: pieces') rest :=
  (h.append_line ds).trans (.cons (.blank ds (by decide)) h')

theorem tokens_concat (pieces pieces' : List (List Char × Option Token)) :
    tokens (pieces ++ (['\n'], none) :: pieces') = tokens pieces ++ tokens pieces' := by
  simp [tokens]

end Cut

theorem tokenize_concat {a : String} {tokens : List Token} (h : tokenize a = .ok tokens)
    (b : String) : tokenize (a ++ "\n" ++ b) = (tokenize b).map (tokens ++ ·) := by
  obtain ⟨pieces, rest, hcut, hfinal⟩ := Cut.exists_final a.toList
  obtain ⟨pieces', rest', hcut', hfinal'⟩ := Cut.exists_final b.toList
  have hlexer : Cut (Lexer.ofSource a).rest pieces rest := hcut
  have hlexer' : Cut (Lexer.ofSource b).rest pieces' rest' := hcut'
  have hread := (mapError_eq_ok_iff _ _ _).1 h
  obtain ⟨rfl, rfl⟩ := (Lexer.tokenize_eq_ok_iff hlexer hfinal tokens).1 hread
  have hboth : Cut (Lexer.ofSource (a ++ "\n" ++ b)).rest (pieces ++ (['\n'], none) :: pieces')
      rest' := by
    have hconcat := hcut.concat hcut'
    simpa [Lexer.ofSource] using hconcat
  rw [tokenize, tokenize]
  rcases Lexer.tokenize_of_final hlexer' hfinal' with ⟨hnil, hresult⟩ | ⟨error, hstuck, hresult⟩
  · rw [hresult, (Lexer.tokenize_eq_ok_iff hboth hfinal' _).2 ⟨hnil, rfl⟩, Cut.tokens_concat]
    rfl
  · rw [hresult, (Lexer.tokenize_eq_error_iff hboth hfinal' error).2 hstuck]
    rfl

theorem Expr.nestingAll_append (as bs : List Expr) :
    nestingAll (as ++ bs) = max (nestingAll as) (nestingAll bs) := by
  induction as with
  | nil => simp [nestingAll]
  | cons a as ih => rw [List.cons_append, nestingAll, nestingAll, ih, Nat.max_assoc]

theorem Parser.parse_append {as bs : List Token} {p q : Program}
    (h : (Parser.mk as).parse.1 = .ok p) (h' : (Parser.mk bs).parse.1 = .ok q) :
    (Parser.mk (as ++ bs)).parse.1 = .ok ⟨p.body ++ q.body⟩ := by
  have hp := yields_of_parse h
  have hq := yields_of_parse h'
  refine parse_eq_ok_of_yields ?_ ?_
  · rw [Program.Yields, List.map_append, hp, hq, Program.tokens, Program.tokens, Program.tokens,
      Expr.tokensAll_append]
  · rw [Program.nesting, Expr.nestingAll_append]
    exact Nat.max_le.2 ⟨nesting_le_of_parse h hp, nesting_le_of_parse h' hq⟩

theorem parse_concat {a b : String} {p q : Program} (h : parse a = .ok p) (h' : parse b = .ok q) :
    parse (a ++ "\n" ++ b) = .ok ⟨p.body ++ q.body⟩ := by
  obtain ⟨as, htokens, hparse⟩ := (parse_eq_ok_iff a p).1 h
  obtain ⟨bs, htokens', hparse'⟩ := (parse_eq_ok_iff b q).1 h'
  refine (parse_eq_ok_iff _ _).2 ⟨as ++ bs, ?_, Parser.parse_append hparse hparse'⟩
  rw [tokenize_concat htokens b, htokens']
  rfl

theorem Expr.codesAt_append (as bs : List Expr) (depth : Nat) :
    codesAt (as ++ bs) depth =
      (codesAt as depth).bind fun codes =>
        (codesAt bs depth).bind fun codes' => .ok (codes ++ codes') := by
  induction as with
  | nil =>
    rw [List.nil_append, codesAt]
    cases codesAt bs depth <;> rfl
  | cons a as ih =>
    rw [List.cons_append, codesAt, codesAt, ih]
    cases a.codeAt depth with
    | error error => rfl
    | ok code =>
      cases codesAt as depth with
      | error error => rfl
      | ok codes => cases codesAt bs depth <;> rfl

theorem Code.statements_append {codes codes' : List String} (h : codes ≠ []) (h' : codes' ≠ []) :
    statements (codes ++ codes') = statements codes ++ ";" ++ statements codes' := by
  induction codes with
  | nil => exact absurd rfl h
  | cons code codes ih =>
    cases codes with
    | nil =>
      cases codes' with
      | nil => exact absurd rfl h'
      | cons code' codes' => rw [List.singleton_append, statements_cons, statements_singleton]
    | cons next codes =>
      have htail := ih (List.cons_ne_nil next codes)
      rw [List.cons_append] at htail
      rw [List.cons_append, List.cons_append, statements_cons, htail, statements_cons]
      simp only [String.append_assoc]

theorem Program.code_append (p q : Program) :
    (Program.mk (p.body ++ q.body)).code =
      p.code.bind fun code => q.code.bind fun code' =>
        .ok (if p.body.isEmpty then code' else if q.body.isEmpty then code
          else code ++ ";" ++ code') := by
  have hempty {es : List Expr} {codes : List String} (h : Expr.codesAt es 0 = .ok codes) :
      es.isEmpty = codes.isEmpty := by
    obtain ⟨-, -, rfl⟩ := (Expr.codesAt_eq_ok_iff es (Nat.zero_le _) codes).1 h
    cases es <;> rfl
  rw [code_eq_bind, code_eq_bind, code_eq_bind, Expr.codesAt_append]
  cases hp : Expr.codesAt p.body 0 with
  | error error => rfl
  | ok codes =>
    cases hq : Expr.codesAt q.body 0 with
    | error error => rfl
    | ok codes' =>
      show Except.ok (Code.statements (codes ++ codes')) = Except.ok _
      rw [hempty hp, hempty hq]
      cases codes with
      | nil => rfl
      | cons code codes =>
        cases codes' with
        | nil => rw [List.append_nil]; rfl
        | cons code' codes' =>
          rw [Code.statements_append (List.cons_ne_nil _ _) (List.cons_ne_nil _ _)]
          rfl

theorem compile_of_tokenize {source : String} {error : CompileError}
    (h : tokenize source = .error error) : compile source = .error error := by
  rw [compile, parse, h]
  rfl

/-- Two sources that parse, with a line break between them, are read as the
statements of the one and then of the other.  They compile to the error of the
first that has one, and else to the two codes.  If the second has no tokens, its
error is that of both together. -/
theorem compile_concat (a b : String) :
    (∀ p q, parse a = .ok p → parse b = .ok q →
      parse (a ++ "\n" ++ b) = .ok ⟨p.body ++ q.body⟩ ∧
      compile (a ++ "\n" ++ b) = do
        let code ← compile a
        let code' ← compile b
        return if p.body.isEmpty then code' else if q.body.isEmpty then code
          else code ++ ";" ++ code') ∧
    ∀ tokens error, tokenize a = .ok tokens → tokenize b = .error error →
      compile b = .error error ∧ compile (a ++ "\n" ++ b) = .error error ∧
        error.stage = "lex" := by
  refine ⟨fun p q hp hq => ?_, fun tokens error ha hb => ?_⟩
  · have hparse := parse_concat hp hq
    refine ⟨hparse, ?_⟩
    rw [compile_of_parse hparse, compile_of_parse hp, compile_of_parse hq, Program.code_append]
    cases p.code with
    | error error => rfl
    | ok code => cases q.code <;> rfl
  · have htokens : tokenize (a ++ "\n" ++ b) = .error error := by
      rw [tokenize_concat ha b, hb]
      rfl
    refine ⟨compile_of_tokenize hb, compile_of_tokenize htokens, ?_⟩
    rw [tokenize] at hb
    cases hread : (Lexer.ofSource b).tokenize.1 with
    | ok tokens =>
      rw [hread] at hb
      cases hb
    | error lexError =>
      rw [hread] at hb
      cases hb
      rfl

/-- An open comment in front of the line break, and a slash on either side of it,
which together open none. -/
theorem compile_concat_comment :
    parse ("a 1 // (" ++ "\n" ++ "b") =
      .ok ⟨[.name ⟨"a", []⟩, .number "1"] ++ [.name ⟨"b", []⟩]⟩ ∧
    compile ("a 1 // (" ++ "\n" ++ "b") = .ok ("a;1" ++ ";" ++ "b") ∧
    compile ("1./" ++ "\n" ++ "/ \"") = .error (.lex .unterminatedString) := by
  have hboth := (compile_concat "a 1 // (" "b").1 ⟨[.name ⟨"a", []⟩, .number "1"]⟩
    ⟨[.name ⟨"b", []⟩]⟩ (by cbv) (by cbv)
  have hfault := (compile_concat "1./" "/ \"").2
    [⟨.number, "1"⟩, ⟨.dot, "."⟩, ⟨.slash, "/"⟩] (.lex .unterminatedString) (by cbv) (by cbv)
  refine ⟨hboth.1, hboth.2.trans ?_, hfault.2.1⟩
  cbv

end JsLisp
