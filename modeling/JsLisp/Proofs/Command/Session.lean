/-
Sessions, line by line.

A session that lists its lines keeps nothing from one line for the next.  So what it
writes is put together from what each line gives, and a session goes on after some lines
as it would have begun.  The lines are trimmed before they are run, which makes no
difference to their listings or their errors.
-/
import Mathlib
import JsLisp.Command.Session
import JsLisp.Proofs.Text.Utf8
import JsLisp.Proofs.Token.Trim

namespace JsLisp

theorem listing_trim (mode : Mode) (cs : List Char) :
    listing mode (String.ofList (Text.trim cs)) = listing mode (String.ofList cs) := by
  cases mode <;> simp only [listing, parse, tokenize_trim]

theorem runSource_of_listing (disk : Disk) (runner : Runner) {mode : Mode}
    (hmode : mode ≠ .execute) (source : String) :
    runSource disk runner mode source =
      match listing mode source with
      | .error error => (.error (.compile error), [])
      | .ok text => (.ok 0, [.own (text ++ "\n")]) := by
  cases mode with
  | execute => exact absurd rfl hmode
  | tokenize => rfl
  | parse => rfl

theorem runSource_trim (disk : Disk) (runner : Runner) {mode : Mode} (hmode : mode ≠ .execute)
    (cs : List Char) :
    runSource disk runner mode (String.ofList (Text.trim cs)) =
      runSource disk runner mode (String.ofList cs) := by
  rw [runSource_of_listing disk runner hmode, runSource_of_listing disk runner hmode,
    listing_trim]

/-- What fails to be listed writes nothing. -/
theorem runSource_eq_error {disk : Disk} {runner : Runner} {mode : Mode}
    (hmode : mode ≠ .execute) {source : String} {error : CommandError} {out : List Chunk}
    (h : runSource disk runner mode source = (.error error, out)) : out = [] := by
  rw [runSource_of_listing disk runner hmode] at h
  cases hlisting : listing mode source with
  | error cause =>
    rw [hlisting] at h
    cases h
    rfl
  | ok text =>
    rw [hlisting] at h
    cases h

namespace Chunk

theorem ownText_append (chunks others : List Chunk) :
    ownText (chunks ++ others) = ownText chunks ++ ownText others := by
  induction chunks with
  | nil => rw [List.nil_append, ownText, String.empty_append]
  | cons chunk chunks ih =>
    cases chunk with
    | own text => rw [List.cons_append, ownText, ownText, ih, String.append_assoc]
    | started text => rw [List.cons_append, ownText, ownText, ih]

theorem ownText_flatMap {α : Type} (f : α → List Chunk) (items : List α) :
    ownText (items.flatMap f) = String.join (items.map fun item => ownText (f item)) := by
  induction items with
  | nil => rfl
  | cons item items ih =>
    rw [List.flatMap_cons, ownText_append, ih, List.map_cons, String.join_cons]

end Chunk

namespace Session

/-- The lines of a text, up to its last line break. -/
def ended (text : String) : List (List Char) :=
  (text.toList.splitOn '\n').dropLast

theorem splitOn_append_of_ended {a b : List Char} (h : a = [] ∨ a.getLast? = some '\n') :
    (a ++ b).splitOn '\n' = (a.splitOn '\n').dropLast ++ b.splitOn '\n' := by
  rcases h with rfl | h
  · rfl
  · obtain ⟨init, rfl⟩ := List.getLast?_eq_some_iff.1 h
    rw [List.append_assoc, List.singleton_append, List.splitOn_append_cons_self,
      List.splitOn_append_cons_self, List.splitOn_nil, List.dropLast_concat]

theorem ofBytes_toUTF8 (text : String) :
    Input.ofBytes text.toUTF8 = Input.ofText text.toList none := by
  rw [Input.ofBytes, Text.Utf8.decode_toUTF8]

/-- Behind a line break the text starts anew. -/
theorem lines_ofText_append {a : String} (h : a = "" ∨ a.toList.getLast? = some '\n')
    (b : String) :
    (Input.ofText (a ++ b).toList none).lines =
      (ended a).map Input.dropReturn ++ (Input.ofText b.toList none).lines := by
  have hsplit : (a ++ b).toList.splitOn '\n' = ended a ++ b.toList.splitOn '\n' := by
    rw [String.toList_append, ended]
    exact splitOn_append_of_ended (h.imp_left fun hnil => by rw [hnil, String.toList_empty])
  have hne : b.toList.splitOn '\n' ≠ [] := List.splitOn_ne_nil _ _
  unfold Input.ofText
  simp only [hsplit, List.dropLast_append_of_ne_nil hne, List.getLastD_eq_getLast?,
    List.getLast?_append_of_ne_nil _ hne, List.map_append]
  split
  · rfl
  · rw [List.append_assoc]

theorem trimmed_dropReturn (line : List Char) :
    trimmed (Input.dropReturn line) = trimmed line := by
  unfold Input.dropReturn
  split
  · rename_i h
    obtain ⟨front, rfl⟩ := List.getLast?_eq_some_iff.1 h
    rw [List.dropLast_concat, trimmed, trimmed, Text.trim_append_blank (by decide)]
  · rfl

section Line

variable (run : String → Except CommandError Nat × List Chunk)

/-- What comes of a line that does not end the session. -/
def reply (line : List Char) : List Chunk × String :=
  if trimmed line == "" then ([], "") else answer run (trimmed line)

theorem reply_dropReturn (line : List Char) :
    reply run (Input.dropReturn line) = reply run line := by
  rw [reply, reply, trimmed_dropReturn]

theorem ofLines_cons (fault : Option Fault) {line : List Char} (h : trimmed line ≠ leave)
    (lines : List (List Char)) :
    ofLines run fault (line :: lines) =
      after (.own prompt :: (reply run line).1) (reply run line).2
        (ofLines run fault lines) := by
  rw [ofLines, if_neg h, reply]
  split
  · rfl
  · rfl

/-- A session goes on behind some lines as it would have begun. -/
theorem ofLines_append (fault : Option Fault) {lines : List (List Char)}
    (h : ∀ line ∈ lines, trimmed line ≠ leave) (others : List (List Char)) :
    ofLines run fault (lines ++ others) =
      after (lines.flatMap fun line => .own prompt :: (reply run line).1)
        (String.join (lines.map fun line => (reply run line).2))
        (ofLines run fault others) := by
  induction lines with
  | nil => simp [after]
  | cons line lines ih =>
    rw [List.cons_append, ofLines_cons run fault (h line List.mem_cons_self),
      ih fun other hother => h other (List.mem_cons_of_mem line hother)]
    simp [after, String.join_cons, String.append_assoc]

/-- The prompt for a line and what running the line writes.  A blank line is not run, and
one that fails writes nothing. -/
def shown (line : List Char) : String :=
  prompt ++
    if line.all Text.isBlank then ""
    else
      match run (String.ofList line) with
      | (.ok _, out) => Chunk.ownText out
      | (.error _, _) => ""

/-- The complaint about a line that fails. -/
def complaint (line : List Char) : String :=
  match run (String.ofList line) with
  | (.ok _, _) => ""
  | (.error error, _) => error.message ++ "\n"

end Line

section Listing

variable (disk : Disk) (runner : Runner) {mode : Mode}

theorem trimmed_eq_empty_iff (line : List Char) :
    trimmed line = "" ↔ line.all Text.isBlank = true := by
  rw [trimmed, ← Text.trim_eq_nil_iff, String.ofList_eq_empty_iff]

theorem reply_of_blank (run : String → Except CommandError Nat × List Chunk) {line : List Char}
    (h : line.all Text.isBlank = true) : reply run line = ([], "") := by
  rw [reply, (trimmed_eq_empty_iff line).2 h]
  rfl

/-- Lines that are run might as well be run untrimmed. -/
theorem reply_eq_answer (hmode : mode ≠ .execute) {line : List Char}
    (h : ¬ line.all Text.isBlank = true) :
    reply (runSource disk runner mode) line =
      answer (runSource disk runner mode) (String.ofList line) := by
  have hne : ¬ (trimmed line == "") = true := by
    rw [beq_iff_eq, trimmed_eq_empty_iff]
    exact h
  rw [reply, if_neg hne, answer, answer, trimmed, runSource_trim disk runner hmode]

theorem ownText_reply (hmode : mode ≠ .execute) (line : List Char) :
    Chunk.ownText (.own prompt :: (reply (runSource disk runner mode) line).1) =
      shown (runSource disk runner mode) line := by
  rw [Chunk.ownText, shown]
  by_cases hblank : line.all Text.isBlank = true
  · rw [reply_of_blank _ hblank, if_pos hblank]
    rfl
  · rw [reply_eq_answer disk runner hmode hblank, if_neg hblank, answer]
    cases hrun : runSource disk runner mode (String.ofList line) with
    | mk result out =>
      cases result with
      | ok code => rfl
      | error error =>
        rw [runSource_eq_error hmode hrun]
        rfl

theorem complaint_of_blank (hmode : mode ≠ .execute) {line : List Char}
    (h : line.all Text.isBlank = true) : complaint (runSource disk runner mode) line = "" := by
  have hempty : String.ofList (Text.trim line) = "" := (trimmed_eq_empty_iff line).2 h
  rw [complaint, ← runSource_trim disk runner hmode, hempty, runSource_of_listing disk runner hmode]
  cases mode with
  | execute => exact absurd rfl hmode
  | tokenize => cbv
  | parse => cbv

theorem complaint_reply (hmode : mode ≠ .execute) (line : List Char) :
    (reply (runSource disk runner mode) line).2 =
      complaint (runSource disk runner mode) line := by
  by_cases hblank : line.all Text.isBlank = true
  · rw [reply_of_blank _ hblank, complaint_of_blank disk runner hmode hblank]
  · rw [reply_eq_answer disk runner hmode hblank, answer, complaint]
    cases runSource disk runner mode (String.ofList line) with
    | mk result out => cases result <;> rfl

end Listing

/-! ## Whole sessions -/

section Typed

variable (disk : Disk) (runner : Runner) (mode : Mode)

/-- The session on a text that is typed in. -/
def typed (text : String) : Session :=
  run disk runner mode (.ofBytes text.toUTF8)

/-- The same without the greeting. -/
def answers (text : String) : Session :=
  ofLines (runSource disk runner mode) none (Input.ofText text.toList none).lines

theorem typed_eq (text : String) :
    typed disk runner mode text = after [.own greeting] "" (answers disk runner mode text) := by
  rw [typed, run, ofBytes_toUTF8]
  rfl

theorem out_typed (text : String) :
    Chunk.ownText (typed disk runner mode text).out =
      greeting ++ Chunk.ownText (answers disk runner mode text).out := by
  rw [typed_eq]
  rfl

theorem err_typed (text : String) :
    (typed disk runner mode text).err = (answers disk runner mode text).err := by
  rw [typed_eq, after, String.empty_append]

theorem answers_empty :
    answers disk runner mode "" = ⟨[.own prompt, .own "\n"], "", none⟩ :=
  rfl

end Typed

theorem answers_append (disk : Disk) (runner : Runner) {mode : Mode} (hmode : mode ≠ .execute)
    {a : String} (hended : a = "" ∨ a.toList.getLast? = some '\n')
    (hstay : ∀ line ∈ ended a, trimmed line ≠ leave) (b : String) :
    Chunk.ownText (answers disk runner mode (a ++ b)).out =
        String.join ((ended a).map (shown (runSource disk runner mode))) ++
          Chunk.ownText (answers disk runner mode b).out ∧
      (answers disk runner mode (a ++ b)).err =
        String.join ((ended a).map (complaint (runSource disk runner mode))) ++
          (answers disk runner mode b).err := by
  have hlines : ∀ line ∈ (ended a).map Input.dropReturn, trimmed line ≠ leave := by
    intro line hline
    obtain ⟨raw, hraw, rfl⟩ := List.mem_map.1 hline
    rw [trimmed_dropReturn]
    exact hstay raw hraw
  rw [answers, lines_ofText_append hended, ofLines_append _ _ hlines, answers, after]
  constructor
  · rw [Chunk.ownText_append, Chunk.ownText_flatMap, List.map_map]
    refine congrArg (String.join · ++ _) (List.map_congr_left fun line _ => ?_)
    rw [Function.comp_apply, reply_dropReturn, ownText_reply disk runner hmode]
  · rw [List.map_map]
    refine congrArg (String.join · ++ _) (List.map_congr_left fun line _ => ?_)
    rw [Function.comp_apply, reply_dropReturn, complaint_reply disk runner hmode]

/-- Sessions that list are put together from their lines.  A text that ends with a line
break shows for each line what running the untrimmed line writes, and complains about each
line that fails; behind it, any other text is answered as in a session of its own. -/
theorem listing_sessions_append (disk : Disk) (runner : Runner) {mode : Mode}
    (hmode : mode ≠ .execute) (a b : String)
    (hended : a = "" ∨ a.toList.getLast? = some '\n')
    (hstay : ∀ line ∈ ended a, trimmed line ≠ leave) :
    Chunk.ownText (typed disk runner mode a).out =
        greeting ++ String.join ((ended a).map (shown (runSource disk runner mode))) ++
          prompt ++ "\n" ∧
      (typed disk runner mode a).err =
        String.join ((ended a).map (complaint (runSource disk runner mode))) ∧
      (∃ rest, Chunk.ownText (typed disk runner mode b).out = greeting ++ rest ∧
        Chunk.ownText (typed disk runner mode (a ++ b)).out =
          greeting ++ String.join ((ended a).map (shown (runSource disk runner mode))) ++ rest) ∧
      (typed disk runner mode (a ++ b)).err =
        (typed disk runner mode a).err ++ (typed disk runner mode b).err := by
  obtain ⟨hout, herr⟩ := answers_append disk runner hmode hended hstay b
  obtain ⟨hself, hfault⟩ := answers_append disk runner hmode hended hstay ""
  rw [String.append_empty, answers_empty] at hself hfault
  rw [String.append_empty] at hfault
  refine ⟨?_, ?_, ⟨_, out_typed disk runner mode b, ?_⟩, ?_⟩
  · rw [out_typed, hself, String.append_assoc, String.append_assoc]
    rfl
  · rw [err_typed, hfault]
  · rw [out_typed, hout, String.append_assoc]
  · rw [err_typed, err_typed, err_typed, herr, hfault]

/-- A carriage return, a blank line, and a string that stays open. -/
theorem listing_sessions_append_open :
    (∀ line ∈ ended "(f) \r\n\t\n\"open \n", trimmed line ≠ leave) ∧
      (∃ rest,
        Chunk.ownText (typed .fresh ⟨"node", []⟩ .parse ".exit\n(g)").out = greeting ++ rest ∧
        Chunk.ownText
            (typed .fresh ⟨"node", []⟩ .parse ("(f) \r\n\t\n\"open \n" ++ ".exit\n(g)")).out =
          greeting ++
            String.join ((ended "(f) \r\n\t\n\"open \n").map
              (shown (runSource .fresh ⟨"node", []⟩ .parse))) ++ rest) ∧
      (typed .fresh ⟨"node", []⟩ .parse ("(f) \r\n\t\n\"open \n" ++ ".exit\n(g)")).err =
        (typed .fresh ⟨"node", []⟩ .parse "(f) \r\n\t\n\"open \n").err ++
          (typed .fresh ⟨"node", []⟩ .parse ".exit\n(g)").err := by
  have hmode : Mode.parse ≠ .execute := by decide
  have hended : "(f) \r\n\t\n\"open \n".toList.getLast? = some '\n' := by decide +kernel
  have hstay : ∀ line ∈ ended "(f) \r\n\t\n\"open \n", trimmed line ≠ leave := by
    decide +kernel
  obtain ⟨-, -, hout, herr⟩ := listing_sessions_append .fresh ⟨"node", []⟩ hmode
    "(f) \r\n\t\n\"open \n" ".exit\n(g)" (.inr hended) hstay
  exact ⟨hstay, hout, herr⟩

end Session
end JsLisp
