/-
Blanks around a source.

A blank in front of a source is a piece of its own.  One at the end is as well, or it
belongs to a comment that the end of the source has closed.  A string or comment that
stays open takes it in, and a character that starts no piece never sees it.  So blanks at
either end change neither the tokens of a source nor its fault.
-/
import Mathlib.Data.List.TakeWhile
import JsLisp.Compile
import JsLisp.Proofs.Token.Cut

namespace JsLisp

namespace Text

theorem isAlphanum_eq_false_of_isBlank {c : Char} (h : isBlank c = true) :
    c.isAlphanum = false := by
  refine Bool.eq_false_iff.2 fun halphanum => ?_
  rw [isBlank_eq_false_of_isAlphanum halphanum] at h
  cases h

theorem isDigit_eq_false_of_isBlank {c : Char} (h : isBlank c = true) : c.isDigit = false := by
  have halphanum := isAlphanum_eq_false_of_isBlank h
  rw [Char.isAlphanum, Bool.or_eq_false_iff] at halphanum
  exact halphanum.2

theorem trim_append_blank {c : Char} (hc : isBlank c = true) (cs : List Char) :
    trim (cs ++ [c]) = trim cs := by
  have hone : [c].dropWhile isBlank = [] := List.dropWhile_cons_of_pos hc
  rw [trim, trim, List.dropWhile_append]
  split
  · rename_i hnil
    rw [hone, List.isEmpty_iff.1 hnil]
  · rw [List.reverse_append, List.reverse_singleton, List.singleton_append,
      List.dropWhile_cons_of_pos hc]

/-- What a blank at either end does not change, trimming does not change. -/
theorem apply_trim {α : Type} {f : List Char → α}
    (hfront : ∀ c cs, isBlank c = true → f (c :: cs) = f cs)
    (hback : ∀ c cs, isBlank c = true → f (cs ++ [c]) = f cs) (cs : List Char) :
    f (trim cs) = f cs := by
  have hdrop : ∀ {g : List Char → α}, (∀ c cs, isBlank c = true → g (c :: cs) = g cs) →
      ∀ cs, g (cs.dropWhile isBlank) = g cs := by
    intro g hg cs
    induction cs with
    | nil => rfl
    | cons c cs ih =>
      by_cases hc : isBlank c = true
      · rw [List.dropWhile_cons_of_pos hc, ih, hg c cs hc]
      · rw [List.dropWhile_cons_of_neg hc]
  calc f (trim cs)
      = f (cs.dropWhile isBlank).reverse.reverse := by
        refine hdrop (g := fun ds => f ds.reverse) (fun c ds hc => ?_) _
        rw [List.reverse_cons, hback c _ hc]
    _ = f (cs.dropWhile isBlank) := by rw [List.reverse_reverse]
    _ = f cs := hdrop hfront cs

theorem trim_eq_nil_iff (cs : List Char) : trim cs = [] ↔ cs.all isBlank = true := by
  constructor
  · intro h
    have hall := apply_trim (f := fun ds => ds.all isBlank)
      (fun c ds hc => by simp [hc]) (fun c ds hc => by simp [hc]) cs
    rw [h] at hall
    exact hall.symm
  · intro h
    have hnil : cs.dropWhile isBlank = [] := List.dropWhile_eq_nil_iff.2 (List.all_eq_true.1 h)
    rw [trim, hnil]
    rfl

end Text

open Text (Ends)

/-- A piece that ends at the end of the source also ends at a blank, except that a line
comment goes on over it unless it is a line break. -/
theorem Piece.append_blank {text rest : List Char} {t : Option Token} (h : Piece text rest t)
    {c : Char} (hc : Text.isBlank c = true) (more : List Char) :
    Piece text (rest ++ c :: more) t ∨
      c ≠ '\n' ∧ rest = [] ∧ t = none ∧ Piece (text ++ [c]) [] none := by
  have hends {p : Char → Bool} (hrest : Ends p rest) (hblank : p c = false) :
      Ends p (rest ++ c :: more) := Text.ends_append hrest (Text.ends_cons more hblank)
  have hdigit := Text.isDigit_eq_false_of_isBlank hc
  cases h with
  | blank rest h => exact .inl (.blank _ h)
  | @lineComment body rest hbody hrest =>
    by_cases hline : c = '\n'
    · exact .inl (.lineComment hbody (hends hrest (by simp [hline])))
    · cases rest with
      | nil =>
        refine .inr ⟨hline, rfl, rfl, .lineComment ?_ (Text.ends_nil _)⟩
        simpa [eq_comm] using ⟨hbody, hline⟩
      | cons d rest => exact .inl (.lineComment hbody (Text.ends_cons _ (hrest d rfl)))
  | blockComment rest hbody => exact .inl (.blockComment _ hbody)
  | mark rest h => exact .inl (.mark _ h)
  | slash hrest =>
    refine .inl (.slash (hends hrest ?_))
    refine decide_eq_false ?_
    rintro (rfl | rfl) <;> exact absurd hc (by decide)
  | string rest hbody => exact .inl (.string _ hbody)
  | word htext hrest =>
    exact .inl (.word htext (hends hrest (Text.isAlphanum_eq_false_of_isBlank hc)))
  | whole htext hrest hdot =>
    refine .inl (.whole htext (hends hrest hdigit) fun d tail heq => ?_)
    -- The digit that would make a fraction is in the source or is the blank.
    cases rest with
    | nil =>
      cases heq
      exact absurd hc (by decide)
    | cons e rest =>
      cases rest with
      | nil =>
        cases heq
        exact hdigit
      | cons e rest =>
        cases heq
        exact hdot d rest rfl
  | fraction hwhole hpart hrest => exact .inl (.fraction hwhole hpart (hends hrest hdigit))

namespace Cut

theorem of_nil {pieces : List (List Char × Option Token)} {rest : List Char}
    (h : Cut [] pieces rest) : pieces = [] ∧ rest = [] := by
  generalize hcs : ([] : List Char) = cs at h
  cases h with
  | nil => exact ⟨rfl, rfl⟩
  | cons hpiece hcut => exact absurd (List.append_eq_nil_iff.1 hcs.symm).1 hpiece.ne_nil

/-- A cut to the end goes on over the blank, and any other leaves it. -/
theorem append_blank {cs rest : List Char} {pieces : List (List Char × Option Token)}
    (h : Cut cs pieces rest) {c : Char} (hc : Text.isBlank c = true) :
    ∃ others, Cut (cs ++ [c]) others (if rest = [] then [] else rest ++ [c]) ∧
      tokens others = tokens pieces := by
  induction h with
  | nil cs =>
    by_cases hcs : cs = []
    · subst hcs
      exact ⟨[([c], none)], .cons (.blank [] hc) (.nil []), rfl⟩
    · rw [if_neg hcs]
      exact ⟨[], .nil _, rfl⟩
  | @cons text tail rest t pieces hpiece hcut ih =>
    obtain hmore | ⟨-, rfl, rfl, hmore⟩ := hpiece.append_blank hc []
    · obtain ⟨others, hothers, htokens⟩ := ih
      refine ⟨(text, t) :: others, ?_, ?_⟩
      · rw [List.append_assoc]
        exact .cons hmore hothers
      · cases t with
        | none => exact htokens
        | some token => exact congrArg (token :: ·) htokens
    · obtain ⟨rfl, rfl⟩ := hcut.of_nil
      refine ⟨[(text ++ [c], none)], ?_, rfl⟩
      have hcut' := Cut.cons hmore (.nil [])
      simpa using hcut'

end Cut

theorem Scan.Stuck.append_blank {error : LexError} {cs : List Char} (h : Scan.Stuck error cs)
    {c : Char} (hc : Text.isBlank c = true) : Scan.Stuck error (cs ++ [c]) := by
  cases h with
  | @string body hbody =>
    refine .string fun hmem => ?_
    rcases List.mem_append.1 hmem with hmem | hmem
    · exact hbody hmem
    · rw [← List.mem_singleton.1 hmem] at hc
      exact absurd hc (by decide)
  | @comment body hbody =>
    refine .comment fun hin => ?_
    rcases List.infix_concat_iff.1 hin with ⟨front, hfront⟩ | hin
    · have hlast : '/' = c := by
        have := congrArg List.getLast? hfront
        simpa using this
      subst hlast
      exact absurd hc (by decide)
    · exact hbody hin
  | @unexpected d cs hnone => exact .unexpected _ hnone

/-- Sources agree if they are cut into the same tokens, and then both end or both have the
same fault. -/
theorem tokenize_congr {cs ds rest left : List Char}
    {pieces others : List (List Char × Option Token)} (h : Cut cs pieces rest)
    (h' : Cut ds others left) (htokens : Cut.tokens others = Cut.tokens pieces)
    (hrest : rest = [] ∧ left = [] ∨ ∃ error, Scan.Stuck error rest ∧ Scan.Stuck error left) :
    tokenize (String.ofList ds) = tokenize (String.ofList cs) := by
  have hlexer : Cut (Lexer.ofSource (String.ofList cs)).rest pieces rest := by
    simpa [Lexer.ofSource] using h
  have hlexer' : Cut (Lexer.ofSource (String.ofList ds)).rest others left := by
    simpa [Lexer.ofSource] using h'
  rw [tokenize, tokenize]
  rcases hrest with ⟨hnil, hnil'⟩ | ⟨error, hstuck, hstuck'⟩
  · rw [(Lexer.tokenize_eq_ok_iff hlexer (.inl hnil) _).2 ⟨hnil, rfl⟩,
      (Lexer.tokenize_eq_ok_iff hlexer' (.inl hnil') _).2 ⟨hnil', rfl⟩, htokens]
  · rw [(Lexer.tokenize_eq_error_iff hlexer (.inr ⟨error, hstuck⟩) error).2 hstuck,
      (Lexer.tokenize_eq_error_iff hlexer' (.inr ⟨error, hstuck'⟩) error).2 hstuck']

theorem tokenize_blank_cons {c : Char} (hc : Text.isBlank c = true) (cs : List Char) :
    tokenize (String.ofList (c :: cs)) = tokenize (String.ofList cs) := by
  obtain ⟨pieces, rest, hcut, hfinal⟩ := Cut.exists_final cs
  have hmore : Cut (c :: cs) (([c], none) :: pieces) rest := .cons (.blank cs hc) hcut
  refine tokenize_congr hcut hmore rfl ?_
  rcases hfinal with hnil | ⟨error, hstuck⟩
  · exact .inl ⟨hnil, hnil⟩
  · exact .inr ⟨error, hstuck, hstuck⟩

theorem tokenize_append_blank {c : Char} (hc : Text.isBlank c = true) (cs : List Char) :
    tokenize (String.ofList (cs ++ [c])) = tokenize (String.ofList cs) := by
  obtain ⟨pieces, rest, hcut, hfinal⟩ := Cut.exists_final cs
  obtain ⟨others, hmore, htokens⟩ := hcut.append_blank hc
  refine tokenize_congr hcut hmore htokens ?_
  rcases hfinal with hnil | ⟨error, hstuck⟩
  · exact .inl ⟨hnil, if_pos hnil⟩
  · have hne : rest ≠ [] := by
      rintro rfl
      cases hstuck
    rw [if_neg hne]
    exact .inr ⟨error, hstuck, hstuck.append_blank hc⟩

theorem tokenize_trim (cs : List Char) :
    tokenize (String.ofList (Text.trim cs)) = tokenize (String.ofList cs) :=
  Text.apply_trim (f := fun cs => tokenize (String.ofList cs))
    (fun _ cs hc => tokenize_blank_cons hc cs) (fun _ cs hc => tokenize_append_blank hc cs) cs

end JsLisp
