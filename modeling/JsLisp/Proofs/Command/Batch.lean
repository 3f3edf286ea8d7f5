/-
What a batch writes.

Outputs are named for the stems of their sources, so two sources may share an output,
and an output may be the source of a later file.  A batch therefore reads and writes in
turn: each source is compiled from what stands at its place when its turn comes, and at
each place the last output stays.  `Ran` is the run of a batch as a list of such steps,
and what the disk holds in the end is read off the outputs in their order.

A source that cannot be read or compiled stops the batch before anything is done for it.
So the batch ends as the batch of the sources before it does.
-/
import Mathlib
import JsLisp.Command.Batch
import JsLisp.Proofs.Compile.Stages
import JsLisp.Proofs.Disk.Change
import JsLisp.Proofs.Text.Utf8

namespace JsLisp
namespace Batch

open JsLisp.Action
open Disk (Changed)

/-- An output: where it stands and what it holds. -/
structure Written where
  place : Place
  code : String

theorem run_writing (target : Path) (action : DiskM Unit) (disk : Disk) :
    (writing target action).run disk =
      ((action.run disk).1.mapError (.write target), (action.run disk).2) :=
  rfl

theorem writing_eq_ok {target : Path} {action : DiskM Unit} {disk after : Disk}
    (h : (writing target action).run disk = (.ok (), after)) :
    action.run disk = (.ok (), after) := by
  rw [run_writing] at h
  cases hrun : action.run disk with
  | mk result left =>
    rw [hrun] at h
    cases result with
    | ok =>
      cases h
      rfl
    | error fault => cases h

theorem writing_eq_error {target : Path} {action : DiskM Unit} {error : CommandError}
    {disk after : Disk} (h : (writing target action).run disk = (.error error, after)) :
    ∃ fault, error = .write target fault := by
  rw [run_writing] at h
  cases hrun : action.run disk with
  | mk result left =>
    rw [hrun] at h
    cases result with
    | ok => cases h
    | error fault =>
      cases h
      exact ⟨fault, rfl⟩

/-- Directories are made first.  Then the file is written, unless one of them could not
be made. -/
theorem run_save (target : Path) (code : String) (disk : Disk) :
    ∃ middle, Changed [] disk middle ∧
      ((save target code).run disk =
          (writing target (Disk.write target code.toUTF8)).run middle ∨
        ∃ path fault, (save target code).run disk = (.error (.write path fault), middle)) := by
  unfold save
  split
  · rename_i parent _
    split
    · have hcalm : Changed [] disk ((Disk.ensureDirectories parent).run disk).2 :=
        Disk.calm_ensureChain parent.ancestors disk
      cases hrun : (writing parent (Disk.ensureDirectories parent)).run disk with
      | mk result middle =>
        have hmiddle : middle = ((Disk.ensureDirectories parent).run disk).2 :=
          (congrArg Prod.snd hrun).symm
        subst hmiddle
        refine ⟨_, hcalm, ?_⟩
        cases result with
        | ok => exact .inl (run_bind_ok hrun _)
        | error error =>
          obtain ⟨fault, rfl⟩ := writing_eq_error hrun
          exact .inr ⟨parent, fault, run_bind_error hrun _⟩
    · exact ⟨disk, .refl disk, .inl rfl⟩
  · exact ⟨disk, .refl disk, .inl rfl⟩

/-- The file is put where its path leads. -/
theorem save_eq_ok {target : Path} {code : String} {disk after : Disk}
    (h : (save target code).run disk = (.ok (), after)) :
    ∃ place, Changed [place] disk after ∧ after.locate target = .ok place ∧
      Disk.ending target = .name ∧ after.entry? place = some (.file code.toUTF8) := by
  obtain ⟨middle, hmiddle, hwrite | ⟨path, fault, hfault⟩⟩ := run_save target code disk
  · obtain ⟨place, hlocate, hending, hnot, rfl⟩ :=
      Disk.write_eq_ok (writing_eq_ok (hwrite.symm.trans h))
    have hput := Changed.put_file hnot code.toUTF8
    exact ⟨place, hmiddle.trans hput, hput.locate_eq hlocate, hending,
      Disk.entry?_put_self middle _ hnot⟩
  · cases hfault.symm.trans h

theorem save_eq_error {target : Path} {code : String} {error : CommandError} {disk after : Disk}
    (h : (save target code).run disk = (.error error, after)) :
    ∃ path fault, error = .write path fault := by
  obtain ⟨middle, -, hwrite | ⟨path, fault, hfault⟩⟩ := run_save target code disk
  · obtain ⟨fault, herror⟩ := writing_eq_error (hwrite.symm.trans h)
    exact ⟨target, fault, herror⟩
  · cases hfault.symm.trans h
    exact ⟨path, fault, rfl⟩

theorem compileFile_eq_ok_iff (disk : Disk) (source : Path) (code : String) :
    compileFile disk source = .ok code ↔
      ∃ text, disk.readText source = .ok text ∧ compile text = .ok code := by
  unfold compileFile
  cases disk.readText source with
  | error fault =>
    refine iff_of_false (fun h => by cases h) ?_
    rintro ⟨text, htext, -⟩
    cases htext
  | ok text =>
    show (compile text).mapError CommandError.compile = .ok code ↔ _
    rw [mapError_eq_ok_iff]
    simp

theorem run_compileOne (output : Output) (source : Path) (disk : Disk) :
    (compileOne output source).run disk =
      ((liftExcept (compileFile disk source) : BatchM String) >>= fun code =>
        save (source.output output.dir output.extension) code >>= fun _ =>
          pure (source.output output.dir output.extension)).run disk :=
  rfl

/-- The step of a batch: an output for a source, computed from the text of the source and
found on the disk after it. -/
structure Compiled (output : Output) (source : Path) (disk : Disk) (write : Written)
    (after : Disk) : Prop where
  origin : ∃ text, disk.readText source = .ok text ∧ compile text = .ok write.code
  changed : Changed [write.place] disk after
  located : after.locate (source.output output.dir output.extension) = .ok write.place
  ending : Disk.ending (source.output output.dir output.extension) = .name
  stored : after.entry? write.place = some (.file write.code.toUTF8)

theorem compileOne_eq_ok {output : Output} {source target : Path} {disk after : Disk}
    (h : (compileOne output source).run disk = (.ok target, after)) :
    target = source.output output.dir output.extension ∧
      ∃ write, Compiled output source disk write after := by
  rw [run_compileOne] at h
  obtain ⟨code, middle, hcode, h⟩ := run_bind_eq_ok h
  obtain ⟨⟨⟩, left, hsave, h⟩ := run_bind_eq_ok h
  cases h
  cases hfile : compileFile disk source with
  | error error =>
    rw [hfile] at hcode
    cases hcode
  | ok own =>
    rw [hfile] at hcode
    cases hcode
    obtain ⟨place, hchanged, hlocate, hending, hentry⟩ := save_eq_ok hsave
    exact ⟨rfl, ⟨place, code⟩, (compileFile_eq_ok_iff disk source code).1 hfile, hchanged,
      hlocate, hending, hentry⟩

theorem compileOne_eq_error {output : Output} {source : Path} {error : CommandError}
    {disk after : Disk} (h : (compileOne output source).run disk = (.error error, after)) :
    compileFile disk source = .error error ∧ after = disk ∨
      ∃ path fault, error = .write path fault := by
  rw [run_compileOne] at h
  cases hfile : compileFile disk source with
  | error own =>
    rw [hfile] at h
    cases h
    exact .inl ⟨rfl, rfl⟩
  | ok code =>
    rw [hfile, run_bind_ok (run_liftExcept (.ok code) disk)] at h
    obtain hsave | ⟨⟨⟩, middle, -, h⟩ := run_bind_eq_error h
    · exact .inr (save_eq_error hsave)
    · cases h

/-! ## All files -/

/-- The run of a batch, one step for each source. -/
inductive Ran (output : Output) : List Path → Disk → List Written → Disk → Prop
  | nil (disk : Disk) : Ran output [] disk [] disk
  | cons {source : Path} {sources : List Path} {write : Written} {writes : List Written}
      {disk middle after : Disk} :
      Compiled output source disk write middle → Ran output sources middle writes after →
        Ran output (source :: sources) disk (write :: writes) after

theorem compileAll_eq_ok {output : Output} {sources written : List Path} {disk after : Disk}
    (h : (compileAll output sources).run disk = (.ok written, after)) :
    written = sources.map (·.output output.dir output.extension) ∧
      ∃ writes, Ran output sources disk writes after := by
  induction sources generalizing disk written with
  | nil =>
    cases h
    exact ⟨rfl, [], .nil _⟩
  | cons source sources ih =>
    rw [compileAll] at h
    obtain ⟨target, middle, hone, h⟩ := run_bind_eq_ok h
    obtain ⟨targets, left, hall, h⟩ := run_bind_eq_ok h
    cases h
    obtain ⟨rfl, write, hwrite⟩ := compileOne_eq_ok hone
    obtain ⟨rfl, writes, hwrites⟩ := ih hall
    exact ⟨rfl, write :: writes, .cons hwrite hwrites⟩

/-- The text at a place where the given text stood before the outputs were written. -/
def latest (place : Place) : Option String → List Written → Option String
  | text, [] => text
  | text, write :: writes =>
    latest place (if write.place = place then some write.code else text) writes

theorem latest_append (place : Place) (text : Option String) (before behind : List Written) :
    latest place text (before ++ behind) = latest place (latest place text before) behind := by
  induction before generalizing text with
  | nil => rfl
  | cons write before ih => exact ih _

theorem latest_eq_self {place : Place} {writes : List Written}
    (h : ∀ write ∈ writes, write.place ≠ place) (text : Option String) :
    latest place text writes = text := by
  induction writes with
  | nil => rfl
  | cons write writes ih =>
    rw [latest, if_neg (h write List.mem_cons_self)]
    exact ih fun later hlater => h later (List.mem_cons_of_mem write hlater)

/-- An output stays if none after it goes to its place. -/
theorem latest_append_cons (text : Option String) (before : List Written) (write : Written)
    {behind : List Written} (h : ∀ later ∈ behind, later.place ≠ write.place) :
    latest write.place text (before ++ write :: behind) = some write.code := by
  rw [latest_append, latest, if_pos rfl, latest_eq_self h]

theorem Compiled.textAt {output : Output} {source : Path} {write : Written} {disk after : Disk}
    (h : Compiled output source disk write after) (place : Place) :
    after.textAt place = if write.place = place then some write.code else disk.textAt place := by
  split
  · rename_i hplace
    subst hplace
    rw [Disk.textAt_eq_some_iff]
    exact ⟨_, h.stored, Text.Utf8.decode?_toUTF8 write.code⟩
  · rename_i hplace
    exact h.changed.textAt_eq fun hmem => hplace (List.mem_singleton.1 hmem).symm

namespace Ran

variable {output : Output} {sources : List Path} {writes : List Written} {disk after : Disk}

theorem length_eq (h : Ran output sources disk writes after) :
    writes.length = sources.length := by
  induction h with
  | nil => rfl
  | cons _ _ ih => rw [List.length_cons, List.length_cons, ih]

theorem changed (h : Ran output sources disk writes after) :
    Changed (writes.map Written.place) disk after := by
  induction h with
  | nil disk => exact .refl disk
  | cons hwrite _ ih => exact hwrite.changed.trans ih

theorem textAt (h : Ran output sources disk writes after) (place : Place) :
    after.textAt place = latest place (disk.textAt place) writes := by
  induction h with
  | nil => rfl
  | cons hwrite _ ih => rw [ih, hwrite.textAt place, latest]

/-- Outputs stand where the names of their sources say, also after the whole run. -/
theorem exists_source (h : Ran output sources disk writes after) :
    ∀ write ∈ writes, ∃ source ∈ sources,
      after.locate (source.output output.dir output.extension) = .ok write.place := by
  induction h with
  | nil => simp
  | @cons source sources write writes disk middle after hwrite hrest ih =>
    intro later hlater
    rcases List.mem_cons.1 hlater with rfl | hlater
    · exact ⟨source, List.mem_cons_self, hrest.changed.locate_eq hwrite.located⟩
    · obtain ⟨earlier, hearlier, hlocate⟩ := ih later hlater
      exact ⟨earlier, List.mem_cons_of_mem source hearlier, hlocate⟩

/-- A run has a step for each source, between a run for those before and one for those
behind. -/
theorem split {earlier later : List Path} {source : Path}
    (h : Ran output (earlier ++ source :: later) disk writes after) :
    ∃ before write behind middle next, writes = before ++ write :: behind ∧
      Ran output earlier disk before middle ∧ Compiled output source middle write next ∧
      Ran output later next behind after := by
  induction earlier generalizing disk writes with
  | nil =>
    cases h with
    | cons hwrite hrest => exact ⟨[], _, _, disk, _, rfl, .nil disk, hwrite, hrest⟩
  | cons first earlier ih =>
    cases h with
    | @cons _ _ write writes _ middle _ hwrite hrest =>
      obtain ⟨before, own, behind, left, next, rfl, hbefore, hown, hbehind⟩ := ih hrest
      exact ⟨write :: before, own, behind, left, next, rfl, .cons hwrite hbefore, hown, hbehind⟩

end Ran

/-- The outputs of a batch.  Each is the code of the text that stands at the place of its
source when its turn comes, and at each place the last output stays.  So a source has its own
code on the disk if no output before it went to its place and none behind it went to the
place of its output. -/
theorem outputs_of_compileAll {output : Output} {sources written : List Path}
    {disk after : Disk} (h : (compileAll output sources).run disk = (.ok written, after)) :
    written = sources.map (·.output output.dir output.extension) ∧
      ∃ writes : List Written, writes.length = sources.length ∧
        (∀ place, after.textAt place = latest place (disk.textAt place) writes) ∧
        ∀ earlier source later, sources = earlier ++ source :: later →
          ∃ before write behind origin text, writes = before ++ write :: behind ∧
            before.length = earlier.length ∧
            after.locate source = .ok origin ∧
            latest origin (disk.textAt origin) before = some text ∧
            compile text = .ok write.code ∧
            after.locate (source.output output.dir output.extension) = .ok write.place ∧
            ((∀ other ∈ before, other.place ≠ origin) → disk.textAt origin = some text ∧
              ∀ initial, disk.readText source = .ok initial → initial = text) ∧
            ((∀ other ∈ behind, other.place ≠ write.place) →
              after.readText (source.output output.dir output.extension) = .ok write.code) := by
  obtain ⟨hwritten, writes, hran⟩ := compileAll_eq_ok h
  refine ⟨hwritten, writes, hran.length_eq, hran.textAt, ?_⟩
  rintro earlier source later rfl
  obtain ⟨before, write, behind, middle, next, rfl, hbefore, hwrite, hbehind⟩ := hran.split
  obtain ⟨text, hread, hcompile⟩ := hwrite.origin
  obtain ⟨origin, hlocate, -, htext⟩ := (Disk.readText_eq_ok_iff middle source text).1 hread
  have hsource := hbehind.changed.locate_eq (hwrite.changed.locate_eq hlocate)
  have htarget := hbehind.changed.locate_eq hwrite.located
  rw [hbefore.textAt] at htext
  refine ⟨before, write, behind, origin, text, rfl, hbefore.length_eq, hsource, htext, hcompile,
    htarget, ?_, ?_⟩
  · intro hother
    rw [latest_eq_self hother] at htext
    refine ⟨htext, fun initial hinitial => ?_⟩
    obtain ⟨place, hplace, -, hthere⟩ := (Disk.readText_eq_ok_iff disk source initial).1 hinitial
    cases hsource.symm.trans (hran.changed.locate_eq hplace)
    exact Option.some.inj (hthere.symm.trans htext)
  · intro hother
    rw [Disk.readText_eq_ok_iff]
    refine ⟨write.place, htarget, hwrite.ending, ?_⟩
    rw [hran.textAt, latest_append_cons _ before write hother]

/-- A working directory with texts in it. -/
def holding (texts : List (String × String)) : Disk :=
  { here := ["work"]
    entries := (["work"], .directory) ::
      texts.map fun (name, text) => (["work", name], .file text.toUTF8) }

/-- The second source is the first output. -/
theorem outputs_of_compileAll_chained :
    ∃ after, (compileAll ⟨"x.lisp", none⟩ [⟨"a.lisp"⟩, ⟨"a.x.lisp"⟩]).run
          (holding [("a.lisp", "first"), ("a.x.lisp", "second")]) =
        (.ok [⟨"a.x.lisp"⟩, ⟨"a.x.x.lisp"⟩], after) ∧
      ∃ before origin text code, before.length = 1 ∧
        after.locate ⟨"a.x.lisp"⟩ = .ok origin ∧
        latest origin ((holding [("a.lisp", "first"), ("a.x.lisp", "second")]).textAt origin)
          before = some text ∧
        compile text = .ok code ∧ after.readText ⟨"a.x.x.lisp"⟩ = .ok code := by
  have hrun : (compileAll ⟨"x.lisp", none⟩ [⟨"a.lisp"⟩, ⟨"a.x.lisp"⟩]).run
      (holding [("a.lisp", "first"), ("a.x.lisp", "second")]) =
      (.ok [⟨"a.x.lisp"⟩, ⟨"a.x.x.lisp"⟩], _) := Prod.ext (by decide +kernel) rfl
  have htarget : Path.output ⟨"a.x.lisp"⟩ none "x.lisp" = ⟨"a.x.x.lisp"⟩ := by decide +kernel
  obtain ⟨-, writes, hlength, -, hsource⟩ := outputs_of_compileAll hrun
  obtain ⟨before, write, behind, origin, text, rfl, hbefore, horigin, htext, hcompile, -, -,
    hstays⟩ := hsource [⟨"a.lisp"⟩] ⟨"a.x.lisp"⟩ [] rfl
  have hbehind : behind = [] := by
    simp only [List.length_append, List.length_cons, List.length_nil, hbefore] at hlength
    exact List.length_eq_zero_iff.1 (by omega)
  rw [htarget] at hstays
  exact ⟨_, hrun, before, origin, text, write.code, hbefore, horigin, htext, hcompile,
    hstays (by simp [hbehind])⟩

/-- An output may be computed from another output, and it may be lost to another. -/
theorem compileAll_crosses_outputs :
    (∃ after, (compileAll ⟨"x.lisp", none⟩ [⟨"a.lisp"⟩, ⟨"a.x.lisp"⟩]).run
          (holding [("a.lisp", "first"), ("a.x.lisp", "second")]) =
        (.ok [⟨"a.x.lisp"⟩, ⟨"a.x.x.lisp"⟩], after) ∧
      compile "second" = .ok "second" ∧ after.readText ⟨"a.x.x.lisp"⟩ = .ok "first") ∧
    ∃ after, (compileAll ⟨"js", none⟩ [⟨"a.lisp"⟩, ⟨"a.txt"⟩]).run
          (holding [("a.lisp", "first"), ("a.txt", "second")]) =
        (.ok [⟨"a.js"⟩, ⟨"a.js"⟩], after) ∧
      compile "first" = .ok "first" ∧ after.readText ⟨"a.js"⟩ = .ok "second" := by
  refine ⟨⟨_, Prod.ext ?_ rfl, ?_, ?_⟩, _, Prod.ext ?_ rfl, ?_, ?_⟩ <;> decide +kernel

theorem run_compileOne_error {disk : Disk} {source : Path} {error : CommandError}
    (h : compileFile disk source = .error error) (output : Output) :
    (compileOne output source).run disk = (.error error, disk) := by
  rw [run_compileOne, h]
  rfl

theorem run_compileAll_append {output : Output} {earlier written : List Path}
    {disk middle : Disk} (h : (compileAll output earlier).run disk = (.ok written, middle))
    {later : List Path} {error : CommandError} {after : Disk}
    (hlater : (compileAll output later).run middle = (.error error, after)) :
    (compileAll output (earlier ++ later)).run disk = (.error error, after) := by
  induction earlier generalizing disk written with
  | nil =>
    cases h
    exact hlater
  | cons source earlier ih =>
    rw [compileAll] at h
    obtain ⟨target, left, hone, h⟩ := run_bind_eq_ok h
    obtain ⟨targets, next, hall, h⟩ := run_bind_eq_ok h
    cases h
    rw [List.cons_append, compileAll, run_bind_ok hone]
    exact run_bind_error (ih hall) _

/-- A batch fails in writing, or at a source for which nothing has been done yet. -/
theorem exists_of_compileAll_error {output : Output} {sources : List Path}
    {error : CommandError} {disk after : Disk}
    (h : (compileAll output sources).run disk = (.error error, after)) :
    (∃ path fault, error = .write path fault) ∨
      ∃ earlier source later written, sources = earlier ++ source :: later ∧
        (compileAll output earlier).run disk = (.ok written, after) ∧
        compileFile after source = .error error := by
  induction sources generalizing disk with
  | nil => cases h
  | cons source sources ih =>
    rw [compileAll] at h
    obtain hone | ⟨target, middle, hone, h⟩ := run_bind_eq_error h
    · obtain ⟨hfile, rfl⟩ | hwrite := compileOne_eq_error hone
      · exact .inr ⟨[], source, sources, [], rfl, rfl, hfile⟩
      · exact .inl hwrite
    · obtain hall | ⟨targets, left, -, h⟩ := run_bind_eq_error h
      · obtain hwrite | ⟨earlier, failing, later, written, rfl, hearlier, hfile⟩ := ih hall
        · exact .inl hwrite
        · refine .inr ⟨source :: earlier, failing, later, target :: written, rfl, ?_, hfile⟩
          rw [compileAll, run_bind_ok hone, run_bind_ok hearlier]
          rfl
      · cases h

/-- A source that cannot be read or compiled ends the batch.  The sources before it form a
batch that succeeds, and the disk is as that batch leaves it: outputs of those sources, and
all other files as they were. -/
theorem compileAll_eq_error_iff (output : Output) (sources : List Path) (disk after : Disk)
    {error : CommandError}
    (hcause : (∃ path fault, error = .read path fault) ∨ ∃ cause, error = .compile cause) :
    (compileAll output sources).run disk = (.error error, after) ↔
      ∃ earlier source later written, sources = earlier ++ source :: later ∧
        (compileAll output earlier).run disk = (.ok written, after) ∧
        compileFile after source = .error error ∧
        ∀ place, (∀ other ∈ earlier,
            after.locate (other.output output.dir output.extension) ≠ .ok place) →
          ∀ content, after.entry? place = some (.file content) ↔
            disk.entry? place = some (.file content) := by
  constructor
  · intro h
    obtain ⟨path, fault, rfl⟩ | ⟨earlier, source, later, written, hsources, hearlier, hfile⟩ :=
      exists_of_compileAll_error h
    · obtain ⟨_, _, hread⟩ | ⟨_, hcompile⟩ := hcause
      · cases hread
      · cases hcompile
    · obtain ⟨-, writes, hran⟩ := compileAll_eq_ok hearlier
      refine ⟨earlier, source, later, written, hsources, hearlier, hfile, ?_⟩
      intro place hplace
      refine hran.changed.file place fun hmem => ?_
      obtain ⟨write, hwrite, rfl⟩ := List.mem_map.1 hmem
      obtain ⟨other, hother, hlocate⟩ := hran.exists_source write hwrite
      exact hplace other hother hlocate
  · rintro ⟨earlier, source, later, written, rfl, hearlier, hfile, -⟩
    refine run_compileAll_append hearlier ?_
    rw [compileAll]
    exact run_bind_error (run_compileOne_error hfile output) _

/-- The second of three sources lacks a quote. -/
theorem compileAll_eq_error_iff_quote :
    ∃ after, (compileAll ⟨"js", some ⟨"out"⟩⟩ [⟨"a.lisp"⟩, ⟨"b.lisp"⟩, ⟨"c.lisp"⟩]).run
          (holding [("a.lisp", "(add x y)"), ("b.lisp", "\"open"), ("c.lisp", "z")]) =
        (.error (.compile (.lex .unterminatedString)), after) ∧
      ∃ earlier source later written,
        [⟨"a.lisp"⟩, ⟨"b.lisp"⟩, ⟨"c.lisp"⟩] = earlier ++ source :: later ∧
        (compileAll ⟨"js", some ⟨"out"⟩⟩ earlier).run
          (holding [("a.lisp", "(add x y)"), ("b.lisp", "\"open"), ("c.lisp", "z")]) =
          (.ok written, after) ∧
        compileFile after source = .error (.compile (.lex .unterminatedString)) := by
  have hrun : (compileAll ⟨"js", some ⟨"out"⟩⟩ [⟨"a.lisp"⟩, ⟨"b.lisp"⟩, ⟨"c.lisp"⟩]).run
      (holding [("a.lisp", "(add x y)"), ("b.lisp", "\"open"), ("c.lisp", "z")]) =
      (.error (.compile (.lex .unterminatedString)), _) := Prod.ext (by decide +kernel) rfl
  obtain ⟨earlier, source, later, written, hsources, hearlier, hfile, -⟩ :=
    (compileAll_eq_error_iff _ _ _ _ (.inr ⟨_, rfl⟩)).1 hrun
  exact ⟨_, hrun, earlier, source, later, written, hsources, hearlier, hfile⟩

end Batch
end JsLisp
