/-
Arguments by position.

A form weaves its own texts with the arguments, and so writes each of them once.  Here the
same code is put together by position: a builtin asks for its first argument, for the rest
from the second on, or for the arguments in pairs.  A position may lie behind the last
argument, and then there is no code.  An argument that is not asked for is lost.

`Form.takes` says for which numbers of arguments neither happens, and every arity of the
table keeps to it.  So emission by position, which could get stuck at any call, is emission.
-/
import JsLisp.Proofs.Code.Group
import JsLisp.Proofs.Code.Walk

namespace JsLisp

/-- The texts in turn with the arguments, starting and ending with a text. -/
inductive Alternates : List String → List String → String → Prop
  | last (text : String) : Alternates [text] [] text
  | cons {texts args : List String} {code : String} (text arg : String)
    (h : Alternates texts args code) :
    Alternates (text :: texts) (arg :: args) (text ++ arg ++ code)

theorem alternates_weave {texts args : List String} (h : texts.length = args.length + 1) :
    Alternates texts args (weave texts args) := by
  induction texts generalizing args with
  | nil => cases h
  | cons text texts ih =>
    cases args with
    | nil =>
      obtain rfl : texts = [] := List.length_eq_zero_iff.1 (Nat.succ.inj h)
      rw [weave_nil]
      simpa using Alternates.last text
    | cons arg args =>
      rw [weave]
      exact .cons text arg (ih (Nat.succ.inj h))

/-- A piece of code. -/
inductive Part
  | own (text : String)
  /-- The argument at a position. -/
  | argument (position : Nat)
  /-- The arguments from a position on, with a text between them. -/
  | listed (start : Nat) (divider : String)
  /-- The arguments in pairs, as entries of an object. -/
  | entries
  /-- The argument at a position, in parentheses unless it is a group. -/
  | condition (position : Nat)
  /-- The argument at a position behind a text, if there is one. -/
  | optional (before : String) (position : Nat)

namespace Part

/-- Keys with their values.  A key without a value is lost. -/
def pairs : List String → List String
  | key :: value :: more => (key ++ ":" ++ value) :: pairs more
  | _ => []

/-- The code of a part, unless it asks for an argument that is not there. -/
def read? (args : List String) : Part → Option String
  | own text => some text
  | argument position => args[position]?
  | listed start divider =>
    if start ≤ args.length then some (divider.intercalate (args.drop start)) else none
  | entries => some (",".intercalate (pairs args))
  | condition position =>
    args[position]?.bind fun code =>
      (Code.isEnclosed? code).map fun enclosed => if enclosed then code else "(" ++ code ++ ")"
  | optional before position => some (args[position]?.elim "" (before ++ ·))

def readAll? (args : List String) : List Part → Option String
  | [] => some ""
  | part :: parts =>
    (part.read? args).bind fun code => (readAll? args parts).map (code ++ ·)

theorem readAll?_cons {args : List String} {part : Part} {parts : List Part} {code more : String}
    (h : part.read? args = some code) (hmore : readAll? args parts = some more) :
    readAll? args (part :: parts) = some (code ++ more) := by
  rw [readAll?, h, Option.bind_some, hmore, Option.map_some]

end Part

namespace Form

/-- Texts with an argument behind each but the last. -/
def fixedParts : Nat → List String → List Part
  | _, [] => []
  | _, [text] => [.own text]
  | position, text :: texts => .own text :: .argument position :: fixedParts (position + 1) texts

/-- The form by position. -/
def parts : Form → List Part
  | listed opening divider closing => [.own opening, .listed 0 divider, .own closing]
  | fixed texts => fixedParts 0 texts
  | entries => [.own "\x7b", .entries, .own "\x7d"]
  | construction => [.own "new ", .argument 0, .own "(", .listed 1 ",", .own ")"]
  | conditional => [.own "if", .condition 0, .argument 1, .optional ";else " 2]

/-- The code of a call, unless a position lies behind the last argument. -/
def read? (form : Form) (args : List String) : Option String :=
  Part.readAll? args form.parts

/-- The numbers of arguments for which every position is there and every argument has one. -/
def takes : Form → Nat → Bool
  | listed _ _ _, _ => true
  | fixed texts, count => texts.length == count + 1
  | entries, count => count % 2 == 0
  | construction, count => 1 ≤ count
  | conditional, count => 2 ≤ count && count ≤ 3

theorem takes_of_accepts {builtin : Builtin} (h : builtin ∈ Builtin.all) {count : Nat}
    (haccepts : builtin.arity.accepts count = true) : builtin.form.takes count = true := by
  have hall : ∀ builtin ∈ Builtin.all, ∀ count, builtin.arity.accepts count = true →
      builtin.form.takes count = true := by
    simp [Builtin.all, Arity.accepts, takes]
  exact hall builtin h count haccepts

theorem length_separators {form : Form} {args : List String}
    (h : form.takes args.length = true) :
    (form.separators args).length = args.length + 1 := by
  cases form with
  | listed opening divider closing => cases args <;> simp [separators]
  | fixed texts => exact beq_iff_eq.1 h
  | entries =>
    cases args with
    | nil => rfl
    | cons a more =>
      obtain ⟨dividers, hseparators, hlength, -⟩ := entrySeparators_succ true more.length
      have htexts : entries.separators (a :: more) =
          "\x7b" :: entrySeparators true (more.length + 1) := rfl
      rw [htexts, hseparators]
      simp [hlength]
  | construction =>
    match args with
    | [] => cases h
    | [_] => rfl
    | _ :: _ :: more => simp [separators]
  | conditional =>
    obtain ⟨around, -, hseparators⟩ := separators_conditional args
    simp only [takes, Bool.and_eq_true, decide_eq_true_eq] at h
    rw [hseparators]
    split
    · simp only [List.length_cons, List.length_nil]
      omega
    · simp only [List.length_cons, List.length_nil]
      omega

/-- The texts around that many arguments, of which the first is a group of its own or is not. -/
def texts (form : Form) (count : Nat) (enclosed : Bool) : List String :=
  form.separators (List.replicate count (if enclosed then "()" else ""))

theorem separators_eq_texts (form : Form) (args : List String) :
    form.separators args = form.texts args.length (args.head?.any Code.isEnclosed) := by
  refine form.separators_congr (by simp) fun _ => ?_
  cases args with
  | nil => rfl
  | cons a more =>
    have hsample : ∀ enclosed : Bool,
        Code.isEnclosed (if enclosed then "()" else "") = enclosed := by
      decide
    exact congrArg some (hsample (Code.isEnclosed a)).symm

theorem texts_of_ne_conditional {form : Form} (h : form ≠ .conditional) (count : Nat) :
    form.texts count true = form.texts count false :=
  form.separators_congr (by simp) fun hform => absurd hform h

theorem append_weave (divider closing arg : String) (args : List String) :
    arg ++ weave (args.map (fun _ => divider) ++ [closing]) args =
      divider.intercalate (arg :: args) ++ closing := by
  induction args generalizing arg with
  | nil => simp [weave]
  | cons next args ih =>
    rw [List.map_cons, List.cons_append, weave, String.append_assoc, ih next,
      String.intercalate_cons_cons]
    simp only [String.append_assoc]

theorem read?_listed (opening divider closing : String) (args : List String) :
    (listed opening divider closing).read? args =
      some ((listed opening divider closing).emit args) := by
  have hread : (listed opening divider closing).read? args =
      some (opening ++ (divider.intercalate args ++ (closing ++ ""))) :=
    rfl
  rw [hread, emit]
  cases args with
  | nil => simp [separators, weave]
  | cons a more =>
    rw [separators, List.cons_append, weave, String.append_assoc, append_weave, String.append_empty]

/-- Behind each text but the last stands the next argument, so the positions and the
arguments run out together. -/
theorem readAll?_fixedParts (position : Nat) {texts args : List String}
    (h : texts.length = (args.drop position).length + 1) :
    Part.readAll? args (fixedParts position texts) = some (weave texts (args.drop position)) := by
  induction texts generalizing position with
  | nil => cases h
  | cons text texts ih =>
    cases hdrop : args.drop position with
    | nil =>
      rw [hdrop] at h
      obtain rfl : texts = [] := List.length_eq_zero_iff.1 (Nat.succ.inj h)
      rfl
    | cons arg more =>
      have hmore : args.drop (position + 1) = more := by
        rw [← List.tail_drop, hdrop, List.tail_cons]
      have harg : Part.read? args (.argument position) = some arg := by
        have hhead : (args.drop position)[0]? = some arg := by rw [hdrop]; rfl
        rwa [List.getElem?_drop] at hhead
      rw [hdrop] at h
      cases texts with
      | nil => cases h
      | cons next texts =>
        have hrest := ih (position + 1) (by rw [hmore]; exact Nat.succ.inj h)
        rw [hmore] at hrest
        rw [fixedParts, Part.readAll?_cons rfl (Part.readAll?_cons harg hrest), weave,
          String.append_assoc]
        exact List.cons_ne_nil next texts

/-- Two texts go by with each pair. -/
theorem append_weave_entries (key value : String) (more : List String)
    (h : more.length % 2 = 0) :
    key ++ weave (entrySeparators true (more.length + 2)) (value :: more) =
      ",".intercalate (Part.pairs (key :: value :: more)) ++ "\x7d" := by
  match more, h with
  | [], _ => simp [entrySeparators, weave, Part.pairs, String.append_assoc]
  | nextKey :: nextValue :: more, h =>
    have hmore : more.length % 2 = 0 := by
      simp only [List.length_cons] at h
      omega
    have ih := append_weave_entries nextKey nextValue more hmore
    have hseparators : entrySeparators true ((nextKey :: nextValue :: more).length + 2) =
        ":" :: "," :: entrySeparators true (more.length + 2) := rfl
    rw [hseparators, weave, weave, Part.pairs, Part.pairs, String.intercalate_cons_cons,
      ← Part.pairs, String.append_assoc, String.append_assoc, ih]
    simp only [String.append_assoc]

theorem read?_entries {args : List String} (h : args.length % 2 = 0) :
    entries.read? args = some (entries.emit args) := by
  have hread : entries.read? args =
      some ("\x7b" ++ (",".intercalate (Part.pairs args) ++ ("\x7d" ++ ""))) :=
    rfl
  rw [hread]
  match args, h with
  | [], _ => rfl
  | key :: value :: more, h =>
    have hmore : more.length % 2 = 0 := by
      simp only [List.length_cons] at h
      omega
    have hemit : entries.emit (key :: value :: more) = "\x7b" ++ key ++
        weave (entrySeparators true (more.length + 2)) (value :: more) := rfl
    rw [hemit, String.append_assoc, append_weave_entries key value more hmore,
      String.append_empty]

theorem read?_construction {args : List String} (h : 1 ≤ args.length) :
    construction.read? args = some (construction.emit args) := by
  cases args with
  | nil => cases h
  | cons constructor more =>
    have hread : construction.read? (constructor :: more) =
        some ("new " ++ (constructor ++ ("(" ++ (",".intercalate more ++ (")" ++ ""))))) :=
      rfl
    rw [hread]
    cases more with
    | nil => simp [emit, separators, weave, String.append_assoc]
    | cons first more =>
      have hemit : construction.emit (constructor :: first :: more) = "new " ++ constructor ++
          ("(" ++ first ++ weave (more.map (fun _ => ",") ++ [")"]) more) := rfl
      rw [hemit, String.append_assoc, String.append_assoc, append_weave, String.append_empty]

theorem read?_conditional {args : List String} (hleast : 2 ≤ args.length)
    (hmost : args.length ≤ 3) :
    conditional.read? args = some (conditional.emit args) := by
  match args, hleast, hmost with
  | condition :: consequence :: more, _, hmost =>
    have hcondition : Part.read? (condition :: consequence :: more) (.condition 0) =
        some (if Code.isEnclosed condition then condition else "(" ++ condition ++ ")") := by
      show (Code.isEnclosed? condition).map _ = _
      rw [Code.isEnclosed?_eq, Option.map_some]
    have hread : conditional.read? (condition :: consequence :: more) =
        some ("if" ++ ((if Code.isEnclosed condition then condition else "(" ++ condition ++ ")") ++
          (consequence ++ (more[0]?.elim "" (";else " ++ ·) ++ "")))) :=
      Part.readAll?_cons rfl (Part.readAll?_cons hcondition rfl)
    obtain ⟨hshort, hlong⟩ := emit_conditional condition consequence
    rw [hread]
    match more, hmost with
    | [], _ =>
      rw [hshort]
      simp [String.append_assoc]
    | [alternative], _ =>
      rw [hlong]
      simp [String.append_assoc]

/-- By position a form writes the same code, if it takes that many arguments. -/
theorem read?_eq {form : Form} {args : List String} (h : form.takes args.length = true) :
    form.read? args = some (form.emit args) := by
  cases form with
  | listed opening divider closing => exact read?_listed opening divider closing args
  | fixed texts => exact readAll?_fixedParts 0 (beq_iff_eq.1 h)
  | entries => exact read?_entries (beq_iff_eq.1 h)
  | construction => exact read?_construction (of_decide_eq_true h)
  | conditional =>
    rw [takes, Bool.and_eq_true] at h
    exact read?_conditional (of_decide_eq_true h.1) (of_decide_eq_true h.2)

end Form

/-! ## Emission by position -/

namespace Code

/-- The code of a call by position. -/
def call? (callee : Name) (args : List String) : Option (Except EmitError String) :=
  match Builtin.find? callee.text with
  | some builtin =>
    if builtin.arity.accepts args.length then (builtin.form.read? args).map .ok
    else some (.error (.argumentCount builtin.name builtin.arity args.length))
  | none => ((Form.listed (callee.text ++ "(") "," ")").read? args).map .ok

theorem takes_of_accepts {callee : Name} {count : Nat} (h : accepts callee count = true) :
    (form callee).takes count = true := by
  unfold accepts at h
  unfold form
  cases hfind : Builtin.find? callee.text with
  | none => rfl
  | some builtin =>
    rw [hfind] at h
    exact Form.takes_of_accepts (Builtin.mem_all_of_find? hfind) h

theorem form_ne_conditional {callee : Name} (h : callee.text ≠ "if") :
    form callee ≠ .conditional := by
  unfold form
  cases hfind : Builtin.find? callee.text with
  | none => exact Form.noConfusion
  | some builtin =>
    have hall : ∀ builtin ∈ Builtin.all, builtin.name ≠ "if" → builtin.form ≠ .conditional := by
      decide
    refine hall builtin (Builtin.mem_all_of_find? hfind) ?_
    rw [Builtin.name_of_find? hfind]
    exact h

/-- An argument is asked for only after their number was accepted. -/
theorem call?_eq (callee : Name) (args : List String) :
    call? callee args = some (call callee args) := by
  cases hfind : Builtin.find? callee.text with
  | none => simp only [call?, call, hfind, Form.read?_listed, Option.map_some]
  | some builtin =>
    simp only [call?, call, hfind]
    by_cases hcount : builtin.arity.accepts args.length = true
    · have htakes := Form.takes_of_accepts (Builtin.mem_all_of_find? hfind) hcount
      rw [if_pos hcount, if_pos hcount, Form.read?_eq htakes, Option.map_some]
    · rw [if_neg hcount, if_neg hcount]

end Code

namespace Expr

mutual

/-- Emission by position, with the count of calls as state.  It has no result if a call asks
for an argument that is not there, or leaves more calls than it entered. -/
def emit? : Expr → Nat → Option (Except EmitError String × Nat)
  | call callee args, depth =>
    if maxNesting ≤ depth then some (.error .tooDeep, depth)
    else
      match emitAll? args (depth + 1) with
      | some (.ok codes, outer + 1) => (Code.call? callee codes).map fun result => (result, outer)
      | some (.error error, outer + 1) => some (.error error, outer)
      | _ => none
  | name n, depth => some (.ok n.text, depth)
  | string value, depth => some (.ok (Code.stringLiteral value), depth)
  | number raw, depth => some (.ok raw, depth)

def emitAll? : List Expr → Nat → Option (Except EmitError (List String) × Nat)
  | [], depth => some (.ok [], depth)
  | e :: es, depth =>
    match emit? e depth with
    | some (.ok code, next) =>
      (emitAll? es next).map fun (result, last) => (result.map (code :: ·), last)
    | some (.error error, next) => some (.error error, next)
    | none => none

end

mutual

theorem emit?_eq (e : Expr) (depth : Nat) : e.emit? depth = some (e.codeAt depth, depth) := by
  cases e with
  | call callee args =>
    rw [emit?, codeAt, emitAll?_eq args (depth + 1)]
    split
    · rfl
    · cases codesAt args (depth + 1) with
      | error error => rfl
      | ok codes =>
        show (Code.call? callee codes).map _ = _
        rw [Code.call?_eq]
        rfl
  | name n => rfl
  | string value => rfl
  | number raw => rfl

theorem emitAll?_eq (es : List Expr) (depth : Nat) :
    emitAll? es depth = some (codesAt es depth, depth) := by
  cases es with
  | nil => rfl
  | cons e es =>
    rw [emitAll?, codesAt, emit?_eq e depth]
    cases e.codeAt depth with
    | error error => rfl
    | ok code =>
      show (emitAll? es depth).map _ = _
      rw [emitAll?_eq es depth]
      rfl

end

end Expr

namespace Program

/-- The code of a program by position. -/
def code? (program : Program) : Option (Except EmitError String) :=
  (Expr.emitAll? program.body 0).map fun (result, _) => result.map Code.statements

theorem code?_eq (program : Program) : program.code? = some program.code := by
  rw [code?, Expr.emitAll?_eq, code_eq_bind]
  rfl

end Program

/-- No call asks for an argument that is not there.  A call with a number of arguments that
is accepted is written as texts and arguments in turn, where the texts depend on the callee,
on that number and, for the conditional, on whether the condition is a group of its own.  So
emission by position has the result of emission for every program. -/
theorem emission_in_bounds :
    (∀ callee : Name, ∃ texts : Nat → Bool → List String,
      (callee.text ≠ "if" → ∀ count, texts count true = texts count false) ∧
      ∀ args : List String,
        (∀ builtin, Builtin.find? callee.text = some builtin →
          builtin.arity.accepts args.length = true) →
        ∃ code, Code.call? callee args = some (.ok code) ∧ Code.call callee args = .ok code ∧
          Alternates (texts args.length (args.head?.any Code.isEnclosed)) args code) ∧
    (∀ builtin ∈ Builtin.all, Builtin.find? builtin.name = some builtin) ∧
    ∀ program : Program, program.code? = some program.code := by
  refine ⟨fun callee => ?_, Builtin.find?_name, Program.code?_eq⟩
  refine ⟨(Code.form callee).texts, fun hname => ?_, fun args haccepts => ?_⟩
  · exact Form.texts_of_ne_conditional (Code.form_ne_conditional hname)
  · have hcount : Code.accepts callee args.length = true := (Code.accepts_iff _ _).2 haccepts
    have hcall : Code.call callee args = .ok ((Code.form callee).emit args) :=
      (Code.call_eq_ok_iff _ _ _).2 ⟨hcount, rfl⟩
    refine ⟨_, by rw [Code.call?_eq, hcall], hcall, ?_⟩
    rw [← Form.separators_eq_texts]
    exact alternates_weave (Form.length_separators (Code.takes_of_accepts hcount))

/-- An object with two entries, and a call that is refused for its number of arguments before
any of them is asked for. -/
theorem emission_in_bounds_object :
    (∃ texts, Code.call? ⟨"object", []⟩ ["a", "1", "b", "2"] = some (.ok "\x7ba:1,b:2\x7d") ∧
      Alternates texts ["a", "1", "b", "2"] "\x7ba:1,b:2\x7d") ∧
    Builtin.find? "new" = some ⟨"new", .atLeast 1, .construction⟩ ∧
    Program.code? ⟨[.call ⟨"new", []⟩ []]⟩ =
      some (.error (.argumentCount "new" (.atLeast 1) 0)) := by
  obtain ⟨hcalls, hfind, hprograms⟩ := emission_in_bounds
  obtain ⟨texts, -, hargs⟩ := hcalls ⟨"object", []⟩
  have hcount : ∀ builtin, Builtin.find? (Name.text ⟨"object", []⟩) = some builtin →
      builtin.arity.accepts 4 = true := by
    intro builtin h
    cases h
    rfl
  obtain ⟨code, hcall?, hcall, hcode⟩ := hargs ["a", "1", "b", "2"] hcount
  have hown : code = "\x7ba:1,b:2\x7d" := by
    have hresult : Code.call ⟨"object", []⟩ ["a", "1", "b", "2"] = .ok "\x7ba:1,b:2\x7d" := rfl
    exact Except.ok.inj (hcall.symm.trans hresult)
  subst hown
  exact ⟨⟨_, hcall?, hcode⟩, hfind ⟨"new", .atLeast 1, .construction⟩ (by decide), hprograms _⟩

end JsLisp
