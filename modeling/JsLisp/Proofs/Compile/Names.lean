/-
Names in programs that were read.

A name keeps its segments apart, and a callee is looked up by the text in which they are
joined.  Nothing is lost in that text as long as no segment has a dot, and the words that
source has between its dots have none.  So a callee is a builtin exactly if it is a single
segment that spells the name of the builtin, and never by the way its segments join.
-/
import JsLisp.Proofs.Code.Walk
import JsLisp.Proofs.Code.Form
import JsLisp.Proofs.Compile.Print

namespace JsLisp

namespace Expr

/-- The name stands somewhere in the expression, by itself or as a callee. -/
inductive HasName (own : Name) : Expr → Prop
  | here : HasName own (name own)
  | callee (args : List Expr) : HasName own (call own args)
  | inside {e : Expr} {es : List Expr} (around : Name) (hmem : e ∈ es) (h : HasName own e) :
    HasName own (call around es)

theorem isPlain_of_mem {es : List Expr} (h : isPlainAll es = true) :
    ∀ e ∈ es, e.isPlain = true := by
  induction es with
  | nil => exact fun e he => absurd he List.not_mem_nil
  | cons e es ih =>
    rw [isPlainAll, Bool.and_eq_true] at h
    exact List.forall_mem_cons.2 ⟨h.1, ih h.2⟩

theorem isPlain_of_hasName {own : Name} {e : Expr} (h : HasName own e)
    (hplain : e.isPlain = true) : own.isPlain = true := by
  induction h with
  | here => exact hplain
  | callee args =>
    rw [isPlain, Bool.and_eq_true] at hplain
    exact hplain.1
  | inside around hmem _ ih =>
    rw [isPlain, Bool.and_eq_true] at hplain
    exact ih (isPlain_of_mem hplain.2 _ hmem)

theorem HasCall.hasName {callee : Name} {args : List Expr} {e : Expr}
    (h : HasCall callee args e) : HasName callee e := by
  induction h with
  | here => exact .callee args
  | inside around hmem _ ih => exact .inside around hmem ih

end Expr

/-- The text of a plain name is the name of a builtin only if it is a single segment. -/
theorem Builtin.find?_text_eq_some_iff {callee : Name} (h : callee.isPlain = true)
    (builtin : Builtin) :
    find? callee.text = some builtin ↔ builtin ∈ all ∧ callee.segments = [builtin.name] := by
  constructor
  · intro hfind
    have hmem := mem_all_of_find? hfind
    have hword : ∀ builtin ∈ all, Name.isPlain ⟨builtin.name, []⟩ = true := by decide
    have hcallee : callee = ⟨builtin.name, []⟩ := by
      refine Name.eq_of_isPlain h (hword builtin hmem) ?_
      rw [Name.text_lone, name_of_find? hfind]
    rw [hcallee]
    exact ⟨hmem, rfl⟩
  · rintro ⟨hmem, hsegments⟩
    obtain ⟨head, members⟩ := callee
    cases hsegments
    rw [Name.text_lone]
    exact find?_name builtin hmem

namespace Program

/-- The name stands somewhere in the program. -/
def HasName (program : Program) (own : Name) : Prop :=
  ∃ e ∈ program.body, e.HasName own

theorem isPlain_of_hasName {source : String} {program : Program}
    (h : parse source = .ok program) {own : Name} (hown : program.HasName own) :
    own.isPlain = true := by
  obtain ⟨e, hmem, hname⟩ := hown
  exact Expr.isPlain_of_hasName hname
    (Expr.isPlain_of_mem (wellFormed_of_parse h).plain e hmem)

/-- Text that is cut at its dots joins to the same text, and a name whose text is cut comes
back exactly if no segment has a dot.  Every name of a program that was read is of this kind,
so its callees are builtins by their only segment. -/
theorem names_lossless :
    (∀ path : String, (Name.ofPath path).text = path) ∧
    (∀ own : Name, Name.ofPath own.text = own ↔
      ∀ segment ∈ own.segments, '.' ∉ segment.toList) ∧
    ∀ (source : String) (program : Program), parse source = .ok program →
      (∀ own, program.HasName own → Name.ofPath own.text = own ∧
        ∀ segment ∈ own.segments, '.' ∉ segment.toList) ∧
      ∀ callee args, program.HasCall callee args → ∀ builtin,
        Builtin.find? callee.text = some builtin ↔
          builtin ∈ Builtin.all ∧ callee.segments = [builtin.name] := by
  refine ⟨Name.text_ofPath, Name.ofPath_text_eq_iff, fun source program hparse => ⟨?_, ?_⟩⟩
  · intro own hown
    have hback := Name.ofPath_text_of_isPlain (isPlain_of_hasName hparse hown)
    exact ⟨hback, (Name.ofPath_text_eq_iff own).1 hback⟩
  · rintro callee args ⟨e, hmem, hcall⟩ builtin
    exact Builtin.find?_text_eq_some_iff (isPlain_of_hasName hparse ⟨e, hmem, hcall.hasName⟩)
      builtin

/-- A callee that starts with the name of a builtin, around a call of that builtin. -/
theorem names_lossless_member :
    parse "(if.x (if a b))" =
        .ok ⟨[.call ⟨"if", ["x"]⟩ [.call ⟨"if", []⟩ [.name ⟨"a", []⟩, .name ⟨"b", []⟩]]]⟩ ∧
      Name.ofPath "if.x" = ⟨"if", ["x"]⟩ ∧ Builtin.find? "if.x" = none ∧
      Builtin.find? "if" = some ⟨"if", .between 2 3, .conditional⟩ := by
  have hwell : WellFormed
      ⟨[.call ⟨"if", ["x"]⟩ [.call ⟨"if", []⟩ [.name ⟨"a", []⟩, .name ⟨"b", []⟩]]]⟩ :=
    ⟨by decide, by decide, by decide⟩
  have hparse := parse_print hwell
  obtain ⟨hnames, hcalls⟩ := names_lossless.2.2 _ _ hparse
  have hmember := (hnames ⟨"if", ["x"]⟩ ⟨_, List.mem_cons_self, .callee _⟩).1
  have houter := hcalls ⟨"if", ["x"]⟩ _ ⟨_, List.mem_cons_self, .here⟩
  have hinner := hcalls ⟨"if", []⟩ _ ⟨_, List.mem_cons_self, .inside _ List.mem_cons_self .here⟩
  refine ⟨hparse, hmember, ?_, (hinner _).2 ⟨by decide, rfl⟩⟩
  refine Option.eq_none_iff_forall_ne_some.2 fun builtin hfind => ?_
  simpa [Name.segments] using ((houter builtin).1 hfind).2

end Program
end JsLisp
