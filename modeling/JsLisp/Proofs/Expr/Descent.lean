/-
Descent reads what the machine reads.

The machine keeps the open calls on its stack, descent in its recursion.  `Follows`
says what the two have in common at each reading: from where the reading starts, the
machine comes to the state that the result stands for, or fails with the same error
at the same token, and the count of open calls is what it was.  It is proved of every
way to put readings together, and then of each reading by the recursion of its
definition.
-/
import JsLisp.Expr.Descent
import JsLisp.Proofs.Expr.Grammar

namespace JsLisp
namespace Descent

open JsLisp.Parser (State Role)

def unread (d : Descent) : List Token :=
  d.tokens.drop d.position

theorem unread_of_peek {d : Descent} {token : Token} (h : d.peek = some token) :
    d.unread = token :: d.advance.unread := by
  obtain ⟨hlt, htoken⟩ := List.getElem?_eq_some_iff.1 h
  rw [unread, List.drop_eq_getElem_cons hlt, htoken]
  rfl

theorem unread_of_none {d : Descent} (h : d.peek = none) : d.unread = [] :=
  List.drop_eq_nil_of_le (List.getElem?_eq_none_iff.1 h)

theorem kindAhead_one (d : Descent) :
    d.kindAhead 1 = d.advance.unread.head?.map Token.kind := by
  rw [kindAhead, unread, List.head?_drop]
  rfl

/-- A token that has been looked at is taken, so the label is never needed. -/
theorem bind_consume {d : Descent} {token : Token} (hpeek : d.peek = some token)
    {kind : TokenKind} (hkind : token.kind = kind) (wanted : Wanted) {n : Nat} {α : Type}
    (next : Token → (d' : Descent) → Beyond d 1 d' → Reading d' n α) :
    (consume d kind wanted).bind next =
      (Reading.skip d).bind fun _ d' hbeyond => next token d' hbeyond := by
  unfold consume
  split
  · rename_i hnone
    cases hnone.symm.trans hpeek
  · rename_i found hfound
    obtain rfl : found = token := Option.some.inj (hfound.symm.trans hpeek)
    rw [if_pos hkind]
    rfl

/-- From where the reading starts, the machine in `state` goes on as in the state that
the result stands for, or fails where the reading fails.  The reading gives back the
count and stays in its tokens. -/
structure Follows {d : Descent} {n : Nat} {α : Type} (reading : Reading d n α) (state : State)
    (resume : α → State) : Prop where
  depth_eq : reading.after.depth = d.depth
  position_le : d.position ≤ d.tokens.length → reading.after.position ≤ d.tokens.length
  run_eq : state.run d.unread =
    match reading.result with
    | .ok a => (resume a).run reading.after.unread
    | .error error => (.error error, reading.after.unread)

namespace Follows

variable {d : Descent} {m n : Nat} {α β : Type} {state : State}

theorem give {a : α} {resume : α → State}
    (h : state.run d.unread = (resume a).run d.unread) : Follows (.give d a) state resume :=
  ⟨rfl, id, h⟩

theorem refuse {error : ParseError} {resume : α → State}
    (h : state.run d.unread = (.error error, d.unread)) :
    Follows (.refuse d error : Reading d n α) state resume :=
  ⟨rfl, id, h⟩

theorem skip {token : Token} {next : State} (hpeek : d.peek = some token)
    (h : state.run (token :: d.advance.unread) = next.run d.advance.unread) :
    Follows (.skip d) state fun _ => next := by
  refine ⟨rfl, fun _ => position_lt_of_peek hpeek, ?_⟩
  rw [unread_of_peek hpeek]
  exact h

theorem bind {first : Reading d m α} {mid : α → State} {resume : β → State}
    {next : α → (d' : Descent) → Beyond d m d' → Reading d' n β} (hfirst : Follows first state mid)
    (hnext : ∀ a (h : first.result = .ok a),
      Follows (next a first.after (first.least_beyond a h)) (mid a) resume) :
    Follows (first.bind next) state resume := by
  have hrun := hfirst.run_eq
  unfold Reading.bind
  split
  · rename_i error herror
    rw [herror] at hrun
    exact ⟨hfirst.depth_eq, hfirst.position_le, hrun⟩
  · rename_i a hok
    have hsecond := hnext a hok
    have htokens := first.beyond.tokens_eq
    rw [hok] at hrun
    refine ⟨hsecond.depth_eq.trans hfirst.depth_eq, fun hle => ?_, hrun.trans hsecond.run_eq⟩
    have hle' := hsecond.position_le (by rw [htokens]; exact hfirst.position_le hle)
    rwa [htokens] at hle'

theorem forget {reading : Reading d n α} {resume : α → State} (h : Follows reading state resume) :
    Follows reading.forget state resume :=
  ⟨h.depth_eq, h.position_le, h.run_eq⟩

theorem nested {inner : Reading d.enter n α} {resume : α → State}
    (h : Follows inner state resume) : Follows inner.nested state resume := by
  refine ⟨?_, h.position_le, h.run_eq⟩
  show inner.after.depth - 1 = d.depth
  rw [h.depth_eq]
  rfl

end Follows

section Names

variable {d : Descent} {state : State}

/-- Taking a token of one kind, where the machine takes that kind and no other. -/
theorem follows_consume {kind : TokenKind} {wanted : Wanted} {next : Token → State}
    (htake : ∀ token ahead, d.peek = some token → token.kind = kind →
      state.step token ahead = .ok (next token))
    (hrefuse : ∀ token ahead, d.peek = some token → token.kind ≠ kind →
      state.step token ahead = .error (.expected wanted token))
    (hend : d.peek = none → state.finish = .error (.expected wanted none)) :
    Follows (consume d kind wanted) state next := by
  unfold consume
  split
  · rename_i hpeek
    refine .refuse ?_
    rw [unread_of_none hpeek, State.run, hend hpeek]
  · rename_i token hpeek
    by_cases hkind : token.kind = kind
    · rw [if_pos hkind]
      have hskip : Follows (.skip d) state fun _ => next token := by
        refine .skip hpeek ?_
        rw [State.run, htake token _ hpeek hkind]
      exact .bind hskip fun _ _ => .give rfl
    · rw [if_neg hkind]
      refine .refuse ?_
      rw [unread_of_peek hpeek, State.run, hrefuse token _ hpeek hkind]
      rfl

theorem follows_members (d : Descent) (state : State) (role : Role) (name : Name) :
    Follows (members d) { state with focus := .named role name } fun rest =>
      { state with focus := .named role ⟨name.head, name.members ++ rest⟩ }.settle := by
  rw [members]
  split
  · rename_i hpeek
    refine .give ?_
    rw [List.append_nil, unread_of_none hpeek]
    refine State.run_settle rfl fun token more h => ?_
    cases h
  · rename_i token hpeek
    rw [kindAhead_one]
    by_cases hdot : token.kind = .dot ∧ d.advance.unread.head?.map Token.kind = some .text
    · rw [if_pos hdot]
      let dotted : State := { state with focus := .dotted role name }
      have hskip : Follows (.skip d) { state with focus := .named role name } fun _ => dotted := by
        refine .skip hpeek ?_
        rw [State.run, State.step]
        simp only [hdot, and_self, if_true]
        rfl
      have hsegment (d₁ : Descent) : Follows (consume d₁ .text .name) dotted fun token =>
          { state with focus := .named role (name.extend token.text) } :=
        follows_consume (fun token ahead _ hkind => by simp [State.step, dotted, hkind])
          (fun token ahead _ hkind => by simp [State.step, dotted, hkind]) (fun _ => rfl)
      refine .forget (.bind hskip fun _ _ => .bind (hsegment _) fun segment hok => ?_)
      have htaken := ((Reading.skip d).least_beyond () rfl).trans
        ((consume d.advance .text .name).least_beyond segment hok)
      have hlt := htaken.left_lt (by decide) (position_lt_of_peek hpeek)
      refine .bind (follows_members _ state role (name.extend segment.text)) fun rest _ => ?_
      refine .give ?_
      simp [Name.extend]
    · rw [if_neg hdot]
      refine .give ?_
      rw [List.append_nil, unread_of_peek hpeek]
      refine State.run_settle rfl fun token' more hcons => ?_
      obtain ⟨rfl, rfl⟩ := List.cons.inj hcons
      exact hdot
termination_by d.left
decreasing_by exact hlt

theorem follows_name {start : State} {role : Role}
    (h : Follows (consume d .text .name) start fun token =>
      { state with focus := .named role ⟨token.text, []⟩ }) :
    Follows (name d) start fun n => { state with focus := .named role n }.settle :=
  .bind h fun head _ => .bind (follows_members _ state role ⟨head.text, []⟩) fun _ _ => .give rfl

/-- Behind a parenthesis nothing but a name is taken. -/
theorem follows_callee (d : Descent) (state : State) :
    Follows (name d) { state with focus := .opened } state.enter := by
  have hhead : Follows (consume d .text .name) { state with focus := .opened } fun token =>
      { state with focus := .named .callee ⟨token.text, []⟩ } :=
    follows_consume (fun token ahead _ hkind => by simp [State.step, hkind])
      (fun token ahead _ hkind => by simp [State.step, hkind]) (fun _ => rfl)
  exact follows_name hhead

theorem follows_operand (hfocus : state.focus = .between) {token : Token}
    (hpeek : d.peek = some token) (hkind : token.kind = .text) :
    Follows (name d) state fun n => { state with focus := .named .operand n }.settle := by
  refine follows_name (follows_consume (fun other ahead _ hother => ?_) (fun other _ hother hne => ?_)
    fun hnone => ?_)
  · simp [State.step, State.shift, hfocus, hother]
  · rw [hpeek] at hother
    cases hother
    exact absurd hkind hne
  · rw [hpeek] at hnone
    cases hnone

end Names

/-! ## Expressions -/

theorem Reading.exists_of_bind {d : Descent} {m n : Nat} {α β : Type} {first : Reading d m α}
    {next : α → (d' : Descent) → Beyond d m d' → Reading d' n β} {b : β}
    (h : (first.bind next).result = .ok b) :
    ∃ a hbeyond, first.result = .ok a ∧ (next a first.after hbeyond).result = .ok b ∧
      (first.bind next).after = (next a first.after hbeyond).after := by
  unfold Reading.bind at h ⊢
  split at h
  · cases h
  · rename_i a hok
    exact ⟨a, first.least_beyond a hok, hok, h, rfl⟩

/-- Expressions are read as far as they go. -/
theorem stops_of_expressions {inCall : Bool} {d : Descent} {es : List Expr}
    (h : (expressions inCall d).result = .ok es) :
    (expressions inCall d).after.stops inCall = true := by
  by_cases hstops : d.stops inCall = true
  · rw [expressions, dif_pos hstops]
    exact hstops
  · rw [expressions, dif_neg hstops] at h ⊢
    obtain ⟨e, hbeyond, -, hrest, hafter⟩ := Reading.exists_of_bind h
    obtain ⟨es', hbeyond', hes', -, hafter'⟩ := Reading.exists_of_bind hrest
    obtain ⟨token, hpeek, -⟩ := exists_peek_of_stops (Bool.eq_false_iff.2 hstops)
    have hlt := hbeyond.left_lt (by decide) (position_lt_of_peek hpeek)
    have hlast := stops_of_expressions hes'
    show (Reading.bind _ _).after.stops inCall = true
    rw [hafter, hafter']
    exact hlast
termination_by d.left
decreasing_by exact hlt

section Tokens

variable {d : Descent} {state : State} {token : Token}

theorem follows_literal {kind : TokenKind} {wanted : Wanted} {make : String → Expr}
    (hfocus : state.focus = .between) (hpeek : d.peek = some token) (hkind : token.kind = kind)
    (hshift : state.shift token = .ok (state.add (make token.text))) :
    Follows (literal d kind wanted make) state state.add := by
  have hskip : Follows (.skip d) state fun _ => state.add (make token.text) := by
    refine .skip hpeek ?_
    rw [State.run, State.step, hfocus]
    simp only [hshift]
  rw [literal, bind_consume hpeek hkind]
  exact .bind hskip fun _ _ => .give rfl

theorem follows_refused {error : ParseError} (hfocus : state.focus = .between)
    (hpeek : d.peek = some token) (hshift : state.shift token = .error error)
    (hstays : error ≠ .tooDeep) :
    Follows (.refuse d error : Reading d 1 Expr) state state.add := by
  refine .refuse ?_
  rw [unread_of_peek hpeek, State.run, State.step, hfocus]
  cases error with
  | tooDeep => exact absurd rfl hstays
  | expected wanted found => simp only [hshift, State.leftover]

/-- A parenthesis that opens one call too many is taken all the same. -/
theorem follows_tooDeep {next : Unit → (d' : Descent) → Beyond d 1 d' → Reading d' 0 Expr}
    (hfocus : state.focus = .between) (hpeek : d.peek = some token)
    (hshift : state.shift token = .error .tooDeep)
    (hnext : ∀ hbeyond, next () d.advance hbeyond = .refuse d.advance .tooDeep) :
    Follows ((Reading.skip d).bind next) state state.add := by
  have hresult : ((Reading.skip d).bind next).result = .error .tooDeep :=
    congrArg Reading.result (hnext ⟨rfl, Nat.le_refl _⟩)
  have hafter : ((Reading.skip d).bind next).after = d.advance :=
    congrArg Reading.after (hnext ⟨rfl, Nat.le_refl _⟩)
  refine ⟨?_, fun _ => ?_, ?_⟩
  · rw [hafter]
    rfl
  · rw [hafter]
    exact position_lt_of_peek hpeek
  · rw [hresult, hafter, unread_of_peek hpeek, State.run, State.step, hfocus]
    simp only [hshift, State.leftover]

/-- No other token starts an expression.  A closing parenthesis ends a call only
where one is open. -/
theorem shift_other (hparen : token.kind ≠ .leftParen) (htext : token.kind ≠ .text)
    (hstring : token.kind ≠ .string) (hnumber : token.kind ≠ .number)
    (hopen : 0 < state.calls.length → token.kind ≠ .rightParen) :
    state.shift token = .error (.expected .expression token) := by
  unfold State.shift
  split
  · contradiction
  · rename_i hkind
    split
    · rfl
    · rename_i hcalls
      exact absurd hkind (hopen (by rw [hcalls]; exact Nat.succ_pos _))
  · contradiction
  · contradiction
  · contradiction
  · rfl

end Tokens

theorem kind_of_stops {d : Descent} {token : Token} (h : d.stops true = true)
    (hpeek : d.peek = some token) : token.kind = .rightParen := by
  simpa [stops, hpeek] using h

theorem add_name (state : State) (n : Name) :
    { state with focus := .named .operand n }.settle = state.add (.name n) := by
  obtain ⟨body, calls, focus⟩ := state
  cases calls <;> rfl

mutual

/-- Reading an expression adds it to the innermost open call. -/
theorem follows_expression (d : Descent) {state : State} (hfocus : state.focus = .between)
    (hdepth : state.calls.length = d.depth) {token : Token} (hpeek : d.peek = some token)
    (hopen : 0 < state.calls.length → token.kind ≠ .rightParen) :
    Follows (expression d) state state.add := by
  rw [expression]
  split
  · rename_i hnone
    cases hnone.symm.trans hpeek
  · rename_i found hfound
    obtain rfl : found = token := Option.some.inj (hfound.symm.trans hpeek)
    split
    · rename_i hkind
      rw [bind_consume hpeek hkind]
      by_cases hfull : maxNesting ≤ d.depth
      · have hshift : state.shift found = .error .tooDeep := by
          have hnone : ¬ state.calls.length < maxNesting := by omega
          simp [State.shift, hkind, hnone]
        exact follows_tooDeep hfocus hpeek hshift fun _ => if_pos hfull
      · have hskip : Follows (.skip d) state fun _ => { state with focus := .opened } := by
          have hroom : state.calls.length < maxNesting := by omega
          refine .skip hpeek ?_
          rw [State.run, State.step, hfocus]
          simp [State.shift, hkind, hroom]
        have hlt : d.advance.left < d.left :=
          ((Reading.skip d).least_beyond () rfl).left_lt (by decide) (position_lt_of_peek hpeek)
        refine .bind hskip fun _ _ => ?_
        rw [if_neg (show ¬ maxNesting ≤ (Reading.skip d).after.depth from hfull)]
        exact .nested (follows_call d.advance.enter hfocus (congrArg (· + 1) hdepth))
    · rename_i hkind
      refine .bind (follows_operand hfocus hpeek hkind) fun n _ => .give ?_
      rw [add_name]
    · rename_i hkind
      exact follows_literal hfocus hpeek hkind (by simp [State.shift, hkind])
    · rename_i hkind
      exact follows_literal hfocus hpeek hkind (by simp [State.shift, hkind])
    · rename_i hparen htext hstring hnumber
      exact follows_refused hfocus hpeek (shift_other hparen htext hstring hnumber hopen) (by simp)
termination_by 3 * d.left
decreasing_by
  show 3 * d.advance.left + 2 < 3 * d.left
  omega

/-- Reading a call, from behind its parenthesis, adds the call. -/
theorem follows_call (d : Descent) {state : State} (hfocus : state.focus = .between)
    (hdepth : state.calls.length + 1 = d.depth) :
    Follows (call d) { state with focus := .opened } state.add := by
  rw [call]
  have hcallee := follows_callee d state
  refine .forget (.bind hcallee fun callee hok => ?_)
  have hle := ((name d).least_beyond callee hok).left_le
  have hargs : Follows (expressions true (name d).after) (state.enter callee)
      (state.enter callee).addAll := follows_expressions true (name d).after rfl
    (by rw [hcallee.depth_eq, ← hdepth]; rfl) (by simp [State.enter])
  refine .bind hargs fun args hargsOk => ?_
  have hstops := stops_of_expressions hargsOk
  have hclosing : Follows (consume (expressions true (name d).after).after .rightParen .closing)
      ((state.enter callee).addAll args) fun _ => state.add (.call callee args) := by
    refine follows_consume (fun token ahead _ hkind => ?_) (fun token ahead hpeek hkind => ?_)
      fun _ => ?_
    · exact State.step_closing hfocus callee args hkind ahead
    · exact absurd (kind_of_stops hstops hpeek) hkind
    · rw [State.enter, State.args_addAll]
      rfl
  exact .bind hclosing fun _ _ => .give rfl
termination_by 3 * d.left + 2
decreasing_by omega

/-- Reading expressions adds them all. -/
theorem follows_expressions (inCall : Bool) (d : Descent) {state : State}
    (hfocus : state.focus = .between) (hdepth : state.calls.length = d.depth)
    (hcall : inCall = true ↔ 0 < state.calls.length) :
    Follows (expressions inCall d) state state.addAll := by
  rw [expressions]
  by_cases hstops : d.stops inCall = true
  · rw [dif_pos hstops]
    exact .give rfl
  · rw [dif_neg hstops]
    obtain ⟨token, hpeek, hopen⟩ := exists_peek_of_stops (Bool.eq_false_iff.2 hstops)
    have hfirst := follows_expression d hfocus hdepth hpeek fun hcalls =>
      hopen (hcall.2 hcalls)
    refine .forget (.bind hfirst fun e hok => ?_)
    have hlt := ((expression d).least_beyond e hok).left_lt (by decide)
      (position_lt_of_peek hpeek)
    have hrest := follows_expressions inCall (expression d).after (State.focus_add state e)
      (by rw [State.length_calls_add, hdepth, hfirst.depth_eq])
      (by rw [State.length_calls_add]; exact hcall)
    exact .bind hrest fun es _ => .give rfl
termination_by 3 * d.left + 1
decreasing_by
  · omega
  · omega

end

end Descent
end JsLisp
