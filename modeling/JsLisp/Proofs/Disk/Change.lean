/-
What operations leave as it was.

Disks only grow: a directory stays one, and a file is at most written over.  `Changed`
says so of two disks, together with the places whose files may differ between them.  A
path that leads to a place still leads there on every later disk, because the walk only
asks for directories.  Each operation comes with the change that it makes, and changes
compose.
-/
import JsLisp.Disk.Basic
import JsLisp.Proofs.Action

namespace JsLisp
namespace Disk

open JsLisp.Action

theorem lookup_filter_ne {place other : Place} (h : other ≠ place)
    (entries : List (Place × Entry)) :
    (entries.filter (·.1 ≠ place)).lookup other = entries.lookup other := by
  induction entries with
  | nil => rfl
  | cons entry entries ih =>
    by_cases hentry : entry.1 = place
    · have hne : (other == entry.1) = false := by simpa [hentry] using h
      rw [List.filter_cons_of_neg (by simpa using hentry), ih, List.lookup_cons, hne]
    · rw [List.filter_cons_of_pos (by simpa using hentry), List.lookup_cons, List.lookup_cons, ih]

theorem entry?_put_ne (disk : Disk) (entry : Entry) {place other : Place} (h : other ≠ place) :
    entry? (disk.put place entry) other = disk.entry? other := by
  unfold entry? put
  split
  · rfl
  · have hne : (other == place) = false := by simpa using h
    rw [List.lookup_cons, hne, lookup_filter_ne h]

theorem entry?_put_self (disk : Disk) (entry : Entry) {place : Place}
    (h : disk.entry? place ≠ some .directory) :
    entry? (disk.put place entry) place = some entry := by
  unfold entry? at h ⊢
  split
  · rename_i hroot
    rw [if_pos hroot] at h
    exact absurd rfl h
  · simp [put]

/-- Between the two disks directories stayed and files changed at most at the given
places. -/
structure Changed (places : List Place) (old new : Disk) : Prop where
  here_eq : new.here = old.here
  directory : ∀ place, old.entry? place = some .directory → new.entry? place = some .directory
  file : ∀ place, place ∉ places → ∀ content,
    new.entry? place = some (.file content) ↔ old.entry? place = some (.file content)

namespace Changed

variable {places others : List Place} {old middle new : Disk}

theorem refl (disk : Disk) : Changed [] disk disk where
  here_eq := rfl
  directory _ h := h
  file _ _ _ := Iff.rfl

theorem trans (h : Changed places old middle) (h' : Changed others middle new) :
    Changed (places ++ others) old new where
  here_eq := h'.here_eq.trans h.here_eq
  directory place hold := h'.directory place (h.directory place hold)
  file place hplace content := by
    rw [List.mem_append, not_or] at hplace
    exact (h'.file place hplace.2 content).trans (h.file place hplace.1 content)

/-- A file is put where no directory stands. -/
theorem put_file {disk : Disk} {place : Place} (h : disk.entry? place ≠ some .directory)
    (content : ByteArray) : Changed [place] disk (disk.put place (.file content)) where
  here_eq := rfl
  directory other hother := by
    have hne : other ≠ place := by
      rintro rfl
      exact h hother
    rw [entry?_put_ne disk _ hne, hother]
  file other hother content := by
    rw [entry?_put_ne disk _ fun heq => hother (List.mem_singleton.2 heq)]

/-- A directory is put where nothing stands. -/
theorem put_directory {disk : Disk} {place : Place} (h : disk.entry? place = none) :
    Changed [] disk (disk.put place .directory) where
  here_eq := rfl
  directory other hother := by
    by_cases heq : other = place
    · rw [heq, h] at hother
      cases hother
    · rw [entry?_put_ne disk _ heq, hother]
  file other _ content := by
    by_cases heq : other = place
    · rw [heq, h, entry?_put_self disk _ (by simp [h])]
      simp
    · rw [entry?_put_ne disk _ heq]

theorem walk_eq (h : Changed places old new) {place target : Place} {names : List String}
    (hwalk : old.walk place names = .ok target) : new.walk place names = .ok target := by
  induction names generalizing place with
  | nil => exact hwalk
  | cons name names ih =>
    rw [walk] at hwalk ⊢
    cases hentry : old.entry? place with
    | none =>
      rw [hentry] at hwalk
      cases hwalk
    | some entry =>
      cases entry with
      | file content =>
        rw [hentry] at hwalk
        cases hwalk
      | directory =>
        rw [hentry] at hwalk
        rw [h.directory place hentry]
        exact ih hwalk

/-- Paths that lead somewhere go on to lead there. -/
theorem locate_eq (h : Changed places old new) {path : Path} {place : Place}
    (hlocate : old.locate path = .ok place) : new.locate path = .ok place := by
  unfold locate at hlocate ⊢
  split at hlocate
  · cases hlocate
  · split at hlocate
    · cases hlocate
    · rename_i hnul hempty
      rw [if_neg hnul, if_neg hempty, h.here_eq]
      exact h.walk_eq hlocate

end Changed

/-- The text of the file at a place. -/
def textAt (disk : Disk) (place : Place) : Option String :=
  match disk.entry? place with
  | some (.file content) => Text.Utf8.decode? content
  | _ => none

theorem textAt_eq_some_iff (disk : Disk) (place : Place) (text : String) :
    disk.textAt place = some text ↔
      ∃ content, disk.entry? place = some (.file content) ∧
        Text.Utf8.decode? content = some text := by
  unfold textAt
  split
  · rename_i content hentry
    simp [hentry]
  · rename_i hnone
    refine iff_of_false (by simp) ?_
    rintro ⟨content, hentry, -⟩
    exact hnone content hentry

theorem Changed.textAt_eq {places : List Place} {old new : Disk} (h : Changed places old new)
    {place : Place} (hplace : place ∉ places) : new.textAt place = old.textAt place := by
  refine Option.ext fun text => ?_
  simp only [textAt_eq_some_iff, h.file place hplace]

theorem readText_eq_ok_iff (disk : Disk) (path : Path) (text : String) :
    disk.readText path = .ok text ↔
      ∃ place, disk.locate path = .ok place ∧ ending path = .name ∧
        disk.textAt place = some text := by
  cases hlocate : disk.locate path with
  | error fault => simp [readText, read, hlocate, bind, Except.bind]
  | ok place =>
    cases hentry : disk.entry? place with
    | none => simp [readText, read, hlocate, hentry, textAt, bind, Except.bind]
    | some entry =>
      cases entry with
      | directory => simp [readText, read, hlocate, hentry, textAt, bind, Except.bind]
      | file content =>
        by_cases hending : ending path = .name
        · cases hdecode : Text.Utf8.decode? content <;>
            simp [readText, read, hlocate, hentry, hending, hdecode, textAt, bind, Except.bind]
        · simp [readText, read, hlocate, hentry, hending, bind, Except.bind]

/-- The action makes directories at most. -/
def Calm {α : Type} (action : DiskM α) : Prop :=
  ∀ disk, Changed [] disk (action.run disk).2

namespace Calm

variable {α β : Type} {action : DiskM α}

theorem pure (a : α) : Calm (Pure.pure a) :=
  Changed.refl

theorem get : Calm (MonadState.get : DiskM Disk) :=
  Changed.refl

theorem throw (fault : Fault) : Calm (throw fault : DiskM α) :=
  Changed.refl

theorem bind (h : Calm action) {next : α → DiskM β} (hnext : ∀ a, Calm (next a)) :
    Calm (action >>= next) := by
  intro disk
  have hfirst := h disk
  cases hrun : action.run disk with
  | mk result after =>
    rw [hrun] at hfirst
    cases result with
    | ok a =>
      rw [run_bind_ok hrun]
      exact hfirst.trans (hnext a after)
    | error fault =>
      rw [run_bind_error hrun]
      exact hfirst

theorem tryCatch (h : Calm action) {handler : Fault → DiskM α}
    (hhandler : ∀ fault, Calm (handler fault)) : Calm (tryCatch action handler) := by
  intro disk
  have hfirst := h disk
  cases hrun : action.run disk with
  | mk result after =>
    rw [hrun] at hfirst
    cases result with
    | ok a =>
      rw [run_tryCatch_ok hrun]
      exact hfirst
    | error fault =>
      rw [run_tryCatch_error hrun]
      exact hfirst.trans (hhandler fault after)

end Calm

theorem calm_makeDirectory (path : Path) : Calm (makeDirectory path) := by
  intro disk
  rw [makeDirectory, run_bind_ok (run_get disk)]
  cases hlocate : disk.locate path with
  | error fault => exact .refl disk
  | ok place =>
    rw [run_bind_ok (run_liftExcept (.ok place) disk)]
    split
    · exact .refl disk
    · rename_i hentry
      exact .put_directory hentry

theorem calm_ensureDirectory (path : Path) : Calm (ensureDirectory path) := by
  refine (calm_makeDirectory path).tryCatch fun fault => ?_
  refine Calm.get.bind fun disk => ?_
  split
  · exact .pure ()
  · exact .throw fault

theorem calm_ensureChain (paths : List Path) : Calm (ensureChain paths) := by
  induction paths with
  | nil => exact .pure ()
  | cons path parents ih =>
    rw [ensureChain]
    split
    · exact .pure ()
    · refine (calm_ensureDirectory path).tryCatch fun fault => ?_
      split
      · exact ih.bind fun _ => calm_ensureDirectory path
      · exact .throw fault

/-- A file is written where its path leads and no directory stands.  Nothing else is
touched. -/
theorem write_eq_ok {path : Path} {content : ByteArray} {disk after : Disk}
    (h : (write path content).run disk = (.ok (), after)) :
    ∃ place, disk.locate path = .ok place ∧ ending path = .name ∧
      disk.entry? place ≠ some .directory ∧ after = disk.put place (.file content) := by
  rw [write, run_bind_ok (run_get disk)] at h
  cases hlocate : disk.locate path with
  | error fault =>
    rw [hlocate] at h
    cases h
  | ok place =>
    rw [hlocate, run_bind_ok (run_liftExcept (.ok place) disk)] at h
    refine ⟨place, rfl, ?_⟩
    split at h
    · cases h
    · cases h
    · cases h
    · cases h
    · rename_i hending hnot
      cases h
      exact ⟨hending, hnot, rfl⟩

end Disk
end JsLisp
