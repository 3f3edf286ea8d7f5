/-
Reading emitted code back.

The decoder is a pushdown machine over characters.  Its stack holds the brackets
that are open, each as the call that it will be, and every character is one step.
It is no judge of code: it is only asked to read what was emitted.  An expression
reads back if the machine, in front of its text, ends up behind it with the same
expression in focus.

A word is finished by the first character that does not continue it, and an
expression may be indexed by what follows it, so the machine keeps the latest
expression in its focus until the next character has been seen.
-/
import JsLisp.Proofs.Code.Emission
import JsLisp.Proofs.Code.Form
import JsLisp.Proofs.Code.Literal
import JsLisp.Proofs.Expr.Name

namespace JsLisp
namespace Decoder

/-- A bracket that is open: the callee, as far as it is known, and the arguments
read so far, the latest first. -/
structure Frame where
  callee : Name
  args : List Expr

inductive Focus
  /-- In front of an expression. -/
  | want
  /-- Behind an exclamation mark. -/
  | negated
  /-- In a word or number, with its characters so far, the latest first. -/
  | word (cs : List Char)
  /-- In a string literal, with its value so far, the latest first. -/
  | quoted (cs : List Char)
  /-- Behind a backslash in a string literal. -/
  | escaped (cs : List Char)
  /-- Behind an expression. -/
  | done (e : Expr)

structure State where
  body : List Expr
  frames : List Frame
  focus : Focus

/-- The expression that a word or number is. -/
def atom (cs : List Char) : Expr :=
  if cs.head?.any Char.isDigit then .number (String.ofList cs)
  else .name (Name.ofPath (String.ofList cs))

namespace State

def start : State :=
  ⟨[], [], .want⟩

def push (state : State) (callee : Name) (args : List Expr) : State :=
  { state with frames := ⟨callee, args⟩ :: state.frames, focus := .want }

/-- Give a finished expression to the innermost bracket, or to the program. -/
def give (state : State) (e : Expr) : State :=
  match state.frames with
  | [] => { state with body := e :: state.body, focus := .want }
  | frame :: frames =>
    { state with frames := { frame with args := e :: frame.args } :: frames, focus := .want }

/-- Settle what the innermost bracket is a call of. -/
def label (state : State) (callee : Name) : State :=
  match state.frames with
  | [] => state
  | frame :: frames => { state with frames := { frame with callee := callee } :: frames }

def close (state : State) : State :=
  match state.frames with
  | [] => state
  | frame :: frames =>
    { state with frames := frames, focus := .done (.call frame.callee frame.args.reverse) }

/-- A character in front of an expression.  A bracket may close on nothing, and
the second character of a long operator stands here. -/
def before (state : State) (c : Char) : State :=
  match c with
  | '(' => state.push ⟨"", []⟩ []
  | '[' => state.push ⟨"array", []⟩ []
  | '\x7b' => state.push ⟨"object", []⟩ []
  | '!' => { state with focus := .negated }
  | '"' => { state with focus := .quoted [] }
  | ')' | ']' | '\x7d' => state.close
  | '|' | '&' => state
  | c => { state with focus := .word [c] }

/-- A character behind an expression. -/
def after (state : State) (e : Expr) (c : Char) : State :=
  match c with
  | '[' => state.push ⟨"idx", []⟩ [e]
  | ')' | ']' | '\x7d' => (state.give e).close
  | '+' => (state.give e).label ⟨"add", []⟩
  | '-' => (state.give e).label ⟨"sub", []⟩
  | '|' => (state.give e).label ⟨"or", []⟩
  | '&' => (state.give e).label ⟨"and", []⟩
  | _ => state.give e

def step (state : State) (c : Char) : State :=
  match state.focus with
  | .want => state.before c
  | .negated => state.push ⟨"not", []⟩ []
  | .word cs =>
    if Name.isNameChar c then { state with focus := .word (c :: cs) }
    else if c = '(' then state.push (Name.ofPath (String.ofList cs.reverse)) []
    else state.after (atom cs.reverse) c
  | .quoted cs =>
    if c = '\\' then { state with focus := .escaped cs }
    else if c = '"' then { state with focus := .done (.string (String.ofList cs.reverse)) }
    else { state with focus := .quoted (c :: cs) }
  | .escaped cs => { state with focus := .quoted ((Code.unescape? c).getD c :: cs) }
  | .done e => state.after e c

def read (state : State) (cs : List Char) : State :=
  cs.foldl step state

/-- The statements, when the code ends here. -/
def finish (state : State) : List Expr :=
  match state.focus with
  | .word cs => (atom cs.reverse :: state.body).reverse
  | .done e => (e :: state.body).reverse
  | _ => state.body.reverse

theorem read_append (state : State) (cs ds : List Char) :
    state.read (cs ++ ds) = (state.read cs).read ds :=
  List.foldl_append

end State

def decode (code : String) : Program :=
  ⟨(State.start.read code.toList).finish⟩

/-- The focus is on the expression, finished or not yet known to be. -/
inductive Pending : Focus → Expr → Prop
  | done (e : Expr) : Pending (.done e) e
  | word (cs : List Char) : Pending (.word cs) (atom cs.reverse)

theorem step_of_pending {body : List Expr} {frames : List Frame} {focus : Focus} {e : Expr}
    (h : Pending focus e) {c : Char} (hname : Name.isNameChar c = false) (hparen : c ≠ '(') :
    (State.mk body frames focus).step c = (State.mk body frames focus).after e c := by
  cases h with
  | done => rfl
  | word cs => simp [State.step, hname, hparen]

/-- Reading the text of the expression leaves it in the focus and nothing else
changed. -/
def Reads (e : Expr) : Prop :=
  ∀ body frames, ∃ focus, Pending focus e ∧
    (State.mk body frames .want).read e.text.toList = ⟨body, frames, focus⟩

theorem before_alphanum (state : State) {c : Char} (h : c.isAlphanum = true) :
    state.before c = { state with focus := .word [c] } := by
  unfold State.before
  split
  case h_11 => rfl
  all_goals exact absurd h (by decide)

theorem read_nameChars (body : List Expr) (frames : List Frame) (cs ds : List Char)
    (hds : ∀ d ∈ ds, Name.isNameChar d = true) :
    (State.mk body frames (.word cs)).read ds = ⟨body, frames, .word (ds.reverse ++ cs)⟩ := by
  induction ds generalizing cs with
  | nil => rfl
  | cons d ds ih =>
    have hd := hds d List.mem_cons_self
    show ((State.mk body frames (.word cs)).step d).read ds = _
    rw [State.step]
    simp only [hd, if_true]
    rw [ih (d :: cs) fun d' hd' => hds d' (List.mem_cons_of_mem d hd')]
    simp

theorem read_word (body : List Expr) (frames : List Frame) {c : Char} {cs : List Char}
    (hc : c.isAlphanum = true) (hcs : ∀ d ∈ cs, Name.isNameChar d = true) :
    (State.mk body frames .want).read (c :: cs) = ⟨body, frames, .word (c :: cs).reverse⟩ := by
  show ((State.mk body frames .want).before c).read cs = _
  rw [before_alphanum _ hc, read_nameChars body frames [c] cs hcs, List.reverse_cons]

theorem reads_atom {e : Expr} {c : Char} {cs : List Char} (htext : e.text.toList = c :: cs)
    (hatom : atom (c :: cs) = e) (hc : c.isAlphanum = true)
    (hcs : ∀ d ∈ cs, Name.isNameChar d = true) : Reads e := by
  intro body frames
  refine ⟨.word (c :: cs).reverse, ?_, ?_⟩
  · have hpending := Pending.word (c :: cs).reverse
    rwa [List.reverse_reverse, hatom] at hpending
  · rw [htext]
    exact read_word body frames hc hcs

theorem reads_name {n : Name} (h : n.isPlain = true) : Reads (.name n) := by
  obtain ⟨c, cs, htext, halpha, hcs⟩ := Name.text_of_isPlain h
  have hatom : atom (c :: cs) = .name n := by
    rw [atom, Name.ofPath_of_isPlain h htext]
    simp [Text.isDigit_eq_false_of_isAlpha halpha]
  exact reads_atom htext hatom ((Text.isAlphanum_iff c).2 (.inl halpha)) hcs

theorem reads_number {raw : String} (h : Text.isNumeral raw.toList = true) :
    Reads (.number raw) := by
  obtain ⟨c, cs, htext, hdigit, hcs⟩ := Text.exists_cons_of_isNumeral h
  have hatom : atom (c :: cs) = .number raw := by
    have hraw : String.ofList (c :: cs) = raw := by rw [← htext, String.ofList_toList]
    simp [atom, hdigit, hraw]
  refine reads_atom htext hatom ((Text.isAlphanum_iff c).2 (.inr hdigit)) fun d hd => ?_
  rcases hcs d hd with hd | rfl
  · simp [Name.isNameChar, Char.isAlphanum, hd]
  · rfl

theorem read_escape (body : List Expr) (frames : List Frame) (cs value : List Char) :
    (State.mk body frames (.quoted cs)).read (Code.escape value) =
      ⟨body, frames, .quoted (value.reverse ++ cs)⟩ := by
  induction value generalizing cs with
  | nil => rfl
  | cons c value ih =>
    have hchar : (State.mk body frames (.quoted cs)).read (Code.escapeChar c) =
        ⟨body, frames, .quoted (c :: cs)⟩ := by
      unfold Code.escapeChar
      split
      case h_6 hslash hquote _ _ _ =>
        show (State.mk body frames (.quoted cs)).step c = _
        simp only [State.step]
        rw [if_neg hslash, if_neg hquote]
      all_goals rfl
    rw [Code.escape, List.flatMap_cons, State.read_append, hchar]
    show (State.mk body frames (.quoted (c :: cs))).read (Code.escape value) = _
    rw [ih]
    simp

theorem reads_string (value : String) : Reads (.string value) := by
  intro body frames
  refine ⟨.done (.string value), .done _, ?_⟩
  have htext : (Expr.string value).text.toList = '"' :: (Code.escape value.toList ++ ['"']) := by
    simp [Expr.text, Code.stringLiteral]
  rw [htext]
  show (State.mk body frames (.quoted [])).read (Code.escape value.toList ++ ['"']) = _
  rw [State.read_append, read_escape]
  show State.mk body frames
    (.done (.string (String.ofList (value.toList.reverse ++ []).reverse))) = _
  simp

/-! ## Brackets

Between the arguments of a bracket stands a divider, which may settle what the
bracket is a call of. -/

/-- Behind an argument, the text starts the next one and changes the callee by
`settle`. -/
def Divides (settle : Name → Name) (divider : String) : Prop :=
  ∀ body callee args frames focus e, Pending focus e →
    (State.mk body (⟨callee, args⟩ :: frames) focus).read divider.toList =
      ⟨body, ⟨settle callee, e :: args⟩ :: frames, .want⟩

theorem divides_separator {divider : String} (h : divider ∈ [",", ":"]) : Divides id divider := by
  intro body callee args frames focus e hpending
  simp only [List.mem_cons, List.not_mem_nil, or_false] at h
  rcases h with rfl | rfl <;> exact step_of_pending hpending (by decide) (by decide)

/-- The builtins that stand between their arguments, with their signs. -/
def operators : List (String × String) :=
  [("add", "+"), ("sub", "-"), ("or", "||"), ("and", "&&")]

theorem divides_operator {name sign : String} (h : (name, sign) ∈ operators) :
    Divides (fun _ => ⟨name, []⟩) sign := by
  intro body callee args frames focus e hpending
  simp only [operators, List.mem_cons, Prod.mk.injEq, List.not_mem_nil, or_false] at h
  rcases h with ⟨rfl, rfl⟩ | ⟨rfl, rfl⟩ | ⟨rfl, rfl⟩ | ⟨rfl, rfl⟩
  · exact step_of_pending hpending (by decide) (by decide)
  · exact step_of_pending hpending (by decide) (by decide)
  · show ((State.mk body (⟨callee, args⟩ :: frames) focus).step '|').step '|' = _
    rw [step_of_pending hpending (by decide) (by decide)]
    rfl
  · show ((State.mk body (⟨callee, args⟩ :: frames) focus).step '&').step '&' = _
    rw [step_of_pending hpending (by decide) (by decide)]
    rfl

def closings : List String :=
  [")", "]", "\x7d"]

theorem read_closing {closing : String} (hclosing : closing ∈ closings) (body : List Expr)
    (callee : Name) (args : List Expr) (frames : List Frame) {focus : Focus} {e : Expr}
    (h : Pending focus e) :
    (State.mk body (⟨callee, args⟩ :: frames) focus).read closing.toList =
      ⟨body, frames, .done (.call callee (args.reverse ++ [e]))⟩ := by
  rw [← List.reverse_cons]
  simp only [closings, List.mem_cons, List.not_mem_nil, or_false] at hclosing
  rcases hclosing with rfl | rfl | rfl <;> exact step_of_pending h (by decide) (by decide)

/-- The arguments behind the first, with their dividers, and the closing. -/
theorem read_weave {settle : Name → Name} (hsettle : ∀ n, settle (settle n) = settle n)
    {closing : String} (hclosing : closing ∈ closings) {dividers : List String} {es : List Expr}
    (hlength : dividers.length = es.length) (hdividers : ∀ d ∈ dividers, Divides settle d)
    (hes : ∀ e ∈ es, Reads e) (body : List Expr) (callee : Name) (args : List Expr)
    (frames : List Frame) {focus : Focus} {e : Expr} (h : Pending focus e) :
    (State.mk body (⟨callee, args⟩ :: frames) focus).read
        (weave (dividers ++ [closing]) (Expr.textAll es)).toList =
      ⟨body, frames, .done (.call (if es.isEmpty then callee else settle callee)
        (args.reverse ++ e :: es))⟩ := by
  -- The latest argument is still in the focus; each round moves it to the frame.
  induction es generalizing dividers callee args focus e with
  | nil =>
    obtain rfl : dividers = [] := List.length_eq_zero_iff.1 hlength
    have hweave : weave ([] ++ [closing]) (Expr.textAll []) = closing := by
      simp [weave, Expr.textAll]
    rw [hweave]
    exact read_closing hclosing body callee args frames h
  | cons e' es ih =>
    cases dividers with
    | nil => cases hlength
    | cons divider dividers =>
      obtain ⟨focus', hpending, hread⟩ :=
        hes e' List.mem_cons_self body (⟨settle callee, e :: args⟩ :: frames)
      rw [Expr.textAll, List.cons_append, weave_cons, State.read_append, State.read_append,
        hdividers divider List.mem_cons_self body callee args frames focus e h, hread,
        ih (Nat.succ.inj hlength) (fun d hd => hdividers d (List.mem_cons_of_mem _ hd))
          (fun x hx => hes x (List.mem_cons_of_mem _ hx)) (settle callee) (e :: args) hpending,
        hsettle]
      simp

/-- In front of an expression, the text opens a bracket. -/
def Opens (callee : Name) (opening : String) : Prop :=
  ∀ body frames, (State.mk body frames .want).read opening.toList =
    ⟨body, ⟨callee, []⟩ :: frames, .want⟩

theorem opens_callee {callee : Name} (h : callee.isPlain = true) :
    Opens callee (callee.text ++ "(") := by
  intro body frames
  obtain ⟨c, cs, htext, halpha, hcs⟩ := Name.text_of_isPlain h
  rw [String.toList_append, State.read_append, htext,
    read_word body frames ((Text.isAlphanum_iff c).2 (.inl halpha)) hcs]
  show State.mk body
    (⟨Name.ofPath (String.ofList (c :: cs).reverse.reverse), []⟩ :: frames) .want = _
  rw [List.reverse_reverse, Name.ofPath_of_isPlain h htext]

theorem reads_bracket {callee initial : Name} {settle : Name → Name} {opening closing : String}
    {dividers : List String} {e : Expr} {es : List Expr}
    (hseparators : (Code.form callee).separators (Expr.textAll (e :: es)) =
      opening :: (dividers ++ [closing]))
    (hopens : Opens initial opening) (hclosing : closing ∈ closings)
    (hlength : dividers.length = es.length) (hdividers : ∀ d ∈ dividers, Divides settle d)
    (hsettle : ∀ n, settle (settle n) = settle n)
    (hlabel : (if es.isEmpty then initial else settle initial) = callee)
    (hargs : ∀ x ∈ e :: es, Reads x) : Reads (.call callee (e :: es)) := by
  intro body frames
  obtain ⟨focus, hpending, hread⟩ :=
    hargs e List.mem_cons_self body (⟨initial, []⟩ :: frames)
  refine ⟨_, .done _, ?_⟩
  rw [Expr.text, Form.emit, hseparators, Expr.textAll, weave_cons, State.read_append,
    State.read_append, hopens, hread,
    read_weave hsettle hclosing hlength hdividers
      (fun x hx => hargs x (List.mem_cons_of_mem e hx)) body initial [] frames hpending, hlabel]
  rfl

/-- A bracket may be empty. -/
theorem reads_empty {callee : Name} {opening closing : String}
    (hseparators : (Code.form callee).separators [] = [opening ++ closing])
    (hopens : Opens callee opening) (hclosing : closing ∈ closings) :
    Reads (.call callee []) := by
  intro body frames
  refine ⟨_, .done _, ?_⟩
  have htext : (Expr.call callee []).text = opening ++ closing := by
    simp [Expr.text, Expr.textAll, Form.emit, hseparators, weave]
  rw [htext, String.toList_append, State.read_append, hopens]
  simp only [closings, List.mem_cons, List.not_mem_nil, or_false] at hclosing
  rcases hclosing with rfl | rfl | rfl <;> rfl

/-- The brackets with one divider throughout. -/
theorem reads_listed {callee initial : Name} {settle : Name → Name}
    {opening divider closing : String}
    (hform : Code.form callee = .listed opening divider closing) (hopens : Opens initial opening)
    (hclosing : closing ∈ closings) (hdivider : Divides settle divider)
    (hsettle : ∀ n, settle (settle n) = settle n) {args : List Expr}
    (hlabel : (if args.length ≤ 1 then initial else settle initial) = callee)
    (hargs : ∀ x ∈ args, Reads x) : Reads (.call callee args) := by
  cases args with
  | nil =>
    obtain rfl : initial = callee := by simpa using hlabel
    exact reads_empty (by rw [hform]; rfl) hopens hclosing
  | cons e es =>
    have hseparators : (Code.form callee).separators (Expr.textAll (e :: es)) =
        opening :: ((Expr.textAll es).map (fun _ => divider) ++ [closing]) := by
      rw [hform]
      rfl
    refine reads_bracket hseparators hopens hclosing (by simp) ?_ hsettle ?_ hargs
    · intro d hd
      obtain ⟨-, -, rfl⟩ := List.mem_map.1 hd
      exact hdivider
    · cases es <;> simpa using hlabel

theorem finish_of_pending {body : List Expr} {frames : List Frame} {focus : Focus} {e : Expr}
    (h : Pending focus e) : (State.mk body frames focus).finish = body.reverse ++ [e] := by
  cases h <;> simp [State.finish]

theorem finish_read_statements (body es : List Expr) (hes : ∀ e ∈ es, Reads e) :
    ((State.mk body [] .want).read (Code.statements (Expr.textAll es)).toList).finish =
      body.reverse ++ es := by
  induction es generalizing body with
  | nil => simp [Expr.textAll, Code.statements, State.read, State.finish]
  | cons e es ih =>
    obtain ⟨focus, hpending, hread⟩ := hes e List.mem_cons_self body []
    cases es with
    | nil =>
      rw [Expr.textAll, Expr.textAll, Code.statements_singleton, hread,
        finish_of_pending hpending]
    | cons e' es =>
      have hnext : (State.mk body [] focus).read ";".toList = ⟨e :: body, [], .want⟩ :=
        step_of_pending hpending (by decide) (by decide)
      have htail := ih (e :: body) fun x hx => hes x (List.mem_cons_of_mem e hx)
      rw [Expr.textAll] at htail
      rw [Expr.textAll, Expr.textAll, Code.statements_cons, String.toList_append,
        String.toList_append, State.read_append, State.read_append, hread, hnext, htail]
      simp

end Decoder
end JsLisp
