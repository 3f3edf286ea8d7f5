/-
Paths by their components.

The text of a path may have idle pieces, and the same way may be written in many texts.
Its components do not show them, and on components the operations are plain: a join
appends, and the parent drops the last.

An output is named for the stem of its source.  A stem is never empty and an extension
has no dot, so the dot that was put between them is the one that divides the name again.
Two outputs in one directory therefore coincide exactly if the stems of their sources do.
-/
import JsLisp.Disk.Path
import JsLisp.Proofs.Text.Word

namespace JsLisp
namespace Path

theorem pieces_ne_nil (path : Path) : path.pieces ≠ [] := by
  simp [pieces, List.splitOn_ne_nil]

theorem not_slash_mem_of_mem_pieces {path : Path} {piece : String} (h : piece ∈ path.pieces) :
    '/' ∉ piece.toList := by
  obtain ⟨cs, hcs, rfl⟩ := List.mem_map.1 h
  rw [String.toList_ofList]
  exact Text.not_mem_of_mem_splitOn hcs

theorem pieces_slash (front back : String) :
    pieces ⟨front ++ "/" ++ back⟩ = pieces ⟨front⟩ ++ pieces ⟨back⟩ := by
  simp [pieces, List.splitOn_append_cons_self]

theorem pieces_of_not_mem {text : String} (h : '/' ∉ text.toList) : pieces ⟨text⟩ = [text] := by
  simp [pieces, List.splitOn_eq_singleton h]

theorem pieces_intercalate {body : List String} (hne : body ≠ [])
    (h : ∀ piece ∈ body, '/' ∉ piece.toList) : pieces ⟨"/".intercalate body⟩ = body := by
  have hcut : ("/".intercalate body).toList.splitOn '/' = body.map String.toList := by
    have htext : ("/".intercalate body).toList = ['/'].intercalate (body.map String.toList) := by
      simp
    rw [htext]
    refine List.splitOn_intercalate '/' (fun cs hcs => ?_) (by simpa using hne)
    obtain ⟨piece, hpiece, rfl⟩ := List.mem_map.1 hcs
    exact h piece hpiece
  rw [pieces, hcut, List.map_map]
  simp

/-- A text starts with an empty piece if it starts with a slash, or has nothing at all. -/
theorem head?_pieces_eq_empty_iff (path : Path) :
    path.pieces.head? = some "" ↔ path.isAbsolute = true ∨ path.text = "" := by
  rw [pieces, isAbsolute, ← String.toList_eq_nil_iff]
  cases path.text.toList with
  | nil => simp
  | cons c cs =>
    rw [List.splitOn_cons_eq_if_modifyHead]
    by_cases hslash : c = '/'
    · simp [hslash]
    · obtain ⟨first, more, hpieces⟩ := List.exists_cons_of_ne_nil (List.splitOn_ne_nil '/' cs)
      have hnot : ¬ (c == '/') = true := by simpa using hslash
      rw [if_neg hnot, hpieces, List.modifyHead_cons]
      simp [hslash]

/-- The components that stand for an anchor. -/
def Component.ofAnchor : String → List Component
  | "/" => [.root]
  | "." => [.current]
  | _ => []

/-- The steps that pieces take. -/
def steps (pieces : List String) : List Component :=
  pieces.filterMap Component.ofPiece?

theorem components_eq (path : Path) :
    path.components = Component.ofAnchor path.anchor ++ steps path.body :=
  rfl

theorem steps_append (front back : List String) :
    steps (front ++ back) = steps front ++ steps back :=
  List.filterMap_append

theorem steps_idle {piece : String} (h : isIdle piece = true) : steps [piece] = [] := by
  simp [steps, Component.ofPiece?, h]

theorem steps_named {piece : String} (hidle : isIdle piece = false) (hparent : piece ≠ "..") :
    steps [piece] = [.named piece] := by
  simp [steps, Component.ofPiece?, hidle, hparent]

theorem exists_steps_eq {piece : String} (h : isIdle piece = false) :
    ∃ step, steps [piece] = [step] := by
  by_cases hparent : piece = ".."
  · subst hparent
    exact ⟨.parent, rfl⟩
  · exact ⟨.named piece, steps_named h hparent⟩

/-- Idle pieces at the end take no step. -/
theorem steps_reverse_dropWhile (pieces : List String) :
    steps (pieces.dropWhile isIdle).reverse = steps pieces.reverse := by
  induction pieces with
  | nil => rfl
  | cons piece pieces ih =>
    rw [List.dropWhile_cons]
    by_cases hidle : isIdle piece = true
    · rw [if_pos hidle, ih, List.reverse_cons, steps_append, steps_idle hidle, List.append_nil]
    · rw [if_neg hidle]

theorem steps_trimmed (pieces : List String) :
    steps (pieces.reverse.dropWhile isIdle).reverse = steps pieces := by
  rw [steps_reverse_dropWhile, List.reverse_reverse]

theorem anchor_cases (path : Path) :
    path.isAbsolute = true ∧ path.anchor = "/" ∨
      path.isAbsolute = false ∧ path.pieces.head? = some "." ∧ path.anchor = "." ∨
      path.isAbsolute = false ∧ path.pieces.head? ≠ some "." ∧ path.anchor = "" := by
  unfold anchor
  by_cases habsolute : path.isAbsolute = true
  · exact .inl ⟨habsolute, if_pos habsolute⟩
  · have hrelative : path.isAbsolute = false := by simpa using habsolute
    by_cases hdot : path.pieces.head? = some "."
    · exact .inr (.inl ⟨hrelative, hdot, by simp [hrelative, hdot]⟩)
    · exact .inr (.inr ⟨hrelative, hdot, by simp [hrelative, hdot]⟩)

theorem anchor_congr {path other : Path} (habsolute : path.isAbsolute = other.isAbsolute)
    (hhead : path.pieces.head? = other.pieces.head?) : path.anchor = other.anchor := by
  rw [anchor, anchor, habsolute, hhead]

/-- What an anchor is not taken from is kept. -/
theorem body_of_pieces {path : Path} {front back : List String} (hne : front ≠ [])
    (h : path.pieces = front ++ back) :
    path.body = (if path.anchor == "" then front else front.tail) ++ back := by
  unfold body
  split
  · exact h
  · rw [h, List.tail_append_of_ne_nil hne]

theorem mem_pieces_of_mem_body {path : Path} {piece : String} (h : piece ∈ path.body) :
    piece ∈ path.pieces := by
  unfold body at h
  split at h
  · exact h
  · exact List.mem_of_mem_tail h

section NoAnchor

variable {path : Path} (h : path.anchor = "")

include h

theorem relative_of_anchor : path.isAbsolute = false ∧ path.pieces.head? ≠ some "." := by
  rcases anchor_cases path with ⟨-, hroot⟩ | ⟨-, -, hdot⟩ | ⟨hrelative, hdot, -⟩
  · rw [h] at hroot
    exact absurd hroot (by decide)
  · rw [h] at hdot
    exact absurd hdot (by decide)
  · exact ⟨hrelative, hdot⟩

theorem components_of_anchor : path.components = steps path.pieces := by
  rw [components_eq, h, body, h]
  rfl

/-- Without an anchor a path starts with a step. -/
theorem isIdle_head_of_anchor (htext : path.text ≠ "") {piece : String}
    (hpiece : path.pieces.head? = some piece) : isIdle piece = false := by
  obtain ⟨hrelative, hdot⟩ := relative_of_anchor h
  have hempty : piece ≠ "" := by
    rintro rfl
    rcases (head?_pieces_eq_empty_iff path).1 hpiece with habsolute | hnone
    · rw [hrelative] at habsolute
      cases habsolute
    · exact htext hnone
  have hcurrent : piece ≠ "." := fun heq => hdot (by rw [hpiece, heq])
  simp [isIdle, hempty, hcurrent]

end NoAnchor

/-- Only the empty text has no components. -/
theorem text_eq_of_components {path : Path} (h : path.components = []) : path.text = "" := by
  rcases anchor_cases path with ⟨-, hroot⟩ | ⟨-, -, hdot⟩ | ⟨-, -, hempty⟩
  · rw [components_eq, hroot] at h
    cases h
  · rw [components_eq, hdot] at h
    cases h
  · refine Decidable.byContradiction fun htext => ?_
    obtain ⟨piece, more, hpieces⟩ := List.exists_cons_of_ne_nil path.pieces_ne_nil
    obtain ⟨step, hstep⟩ :=
      exists_steps_eq (isIdle_head_of_anchor hempty htext (by rw [hpieces]; rfl))
    rw [components_of_anchor hempty, hpieces, ← List.singleton_append, steps_append, hstep] at h
    cases h

/-! ## Joining -/

/-- A join puts the pieces behind each other.  A slash that ends the directory is not
doubled, so the idle piece behind it is lost. -/
theorem exists_pieces_join {dir file : Path} (hfile : file.isAbsolute = false)
    (hdir : dir.text ≠ "") :
    ∃ front idle, front ≠ [] ∧ dir.pieces = front ++ idle ∧ steps idle = [] ∧
      (dir.join file).pieces = front ++ file.pieces ∧
      (dir.join file).isAbsolute = dir.isAbsolute := by
  by_cases hslash : dir.text.toList.getLast? = some '/'
  · obtain ⟨front, hfront⟩ := List.getLast?_eq_some_iff.1 hslash
    have htext : dir.text = String.ofList front ++ "/" ++ "" := by
      rw [← String.toList_inj, hfront]
      simp
    have hjoin : dir.join file = ⟨String.ofList front ++ "/" ++ file.text⟩ := by
      simp [join, hfile, htext]
    refine ⟨pieces ⟨String.ofList front⟩, [""], pieces_ne_nil _, ?_, rfl, ?_, ?_⟩
    · show pieces ⟨dir.text⟩ = _
      rw [htext, pieces_slash]
      rfl
    · rw [hjoin, pieces_slash]
    · simp [isAbsolute, hjoin, htext]
  · have hjoin : dir.join file = ⟨dir.text ++ "/" ++ file.text⟩ := by
      simp [join, hfile, hdir, hslash]
    refine ⟨dir.pieces, [], pieces_ne_nil _, by simp, rfl, ?_, ?_⟩
    · rw [hjoin, pieces_slash]
    · obtain ⟨c, cs, htext⟩ := List.exists_cons_of_ne_nil (mt String.toList_eq_nil_iff.1 hdir)
      simp [isAbsolute, hjoin, htext]

theorem components_join {file : Path} (h : file.anchor = "") (dir : Path) :
    (dir.join file).components = dir.components ++ file.components := by
  by_cases hdir : dir.text = ""
  · have hnone : dir = ⟨""⟩ := by rw [← hdir]
    have hjoin : dir.join file = file := by simp [join, hdir]
    rw [hjoin, hnone]
    rfl
  · obtain ⟨front, idle, hne, hpieces, hidle, hjoin, habsolute⟩ :=
      exists_pieces_join (relative_of_anchor h).1 hdir
    have hanchor : (dir.join file).anchor = dir.anchor := by
      refine anchor_congr habsolute ?_
      obtain ⟨first, more, rfl⟩ := List.exists_cons_of_ne_nil hne
      rw [hjoin, hpieces]
      rfl
    rw [components_eq, components_eq dir, components_of_anchor h, body_of_pieces hne hjoin,
      body_of_pieces hne hpieces, hanchor, steps_append, steps_append, hidle, List.append_nil,
      List.append_assoc]

theorem steps_pieces_intercalate {body : List String} (h : ∀ piece ∈ body, '/' ∉ piece.toList) :
    steps (pieces ⟨"/".intercalate body⟩) = steps body := by
  cases body with
  | nil => rfl
  | cons piece body => rw [pieces_intercalate (List.cons_ne_nil piece body) h]

theorem components_of_front {front rest own : String} (hslash : '/' ∉ front.toList)
    (hanchor : anchor ⟨front ++ "/" ++ rest⟩ = own) (hown : own ≠ "") :
    components ⟨front ++ "/" ++ rest⟩ = Component.ofAnchor own ++ steps (pieces ⟨rest⟩) := by
  have hpieces : pieces ⟨front ++ "/" ++ rest⟩ = [front] ++ pieces ⟨rest⟩ := by
    rw [pieces_slash, pieces_of_not_mem hslash]
  have hnot : ¬ (own == "") = true := by simpa using hown
  rw [components_eq, body_of_pieces (List.cons_ne_nil front []) hpieces, hanchor, if_neg hnot]
  rfl

/-- A step at the front is no anchor. -/
theorem anchor_of_head {path : Path} {piece : String} (hpiece : path.pieces.head? = some piece)
    (hidle : isIdle piece = false) : path.anchor = "" := by
  rcases anchor_cases path with ⟨habsolute, -⟩ | ⟨-, hdot, -⟩ | ⟨-, -, hempty⟩
  · rw [(head?_pieces_eq_empty_iff path).2 (.inl habsolute)] at hpiece
    cases hpiece
    cases hidle
  · rw [hdot] at hpiece
    cases hpiece
    cases hidle
  · exact hempty

/-- Pieces that are put behind an anchor are the steps of the path behind it. -/
theorem components_ofBody {own : String} {body : List String}
    (hslash : ∀ piece ∈ body, '/' ∉ piece.toList)
    (hown : own = "/" ∨ own = "." ∨
      own = "" ∧ ∀ piece, body.head? = some piece → isIdle piece = false) :
    (ofBody own body).components = Component.ofAnchor own ++ steps body := by
  rw [← steps_pieces_intercalate hslash]
  rcases hown with rfl | rfl | ⟨rfl, hhead⟩
  · have hpath : ofBody "/" body = ⟨"" ++ "/" ++ "/".intercalate body⟩ := by
      simp [ofBody]
    have hanchor : anchor ⟨"" ++ "/" ++ "/".intercalate body⟩ = "/" := by
      simp [anchor, isAbsolute]
    rw [hpath, components_of_front (by decide) hanchor (by decide)]
  · cases body with
    | nil => rfl
    | cons piece body =>
      have hpath : ofBody "." (piece :: body) = ⟨"." ++ "/" ++ "/".intercalate (piece :: body)⟩ :=
        rfl
      have hanchor : anchor ⟨"." ++ "/" ++ "/".intercalate (piece :: body)⟩ = "." := by
        have hpieces : pieces ⟨"."⟩ = ["."] := rfl
        simp only [anchor, pieces_slash, hpieces]
        simp [isAbsolute]
      rw [hpath, components_of_front (by decide) hanchor (by decide)]
  · have hpath : ofBody "" body = ⟨"/".intercalate body⟩ := by
      simp [ofBody]
    rw [hpath]
    cases body with
    | nil => rfl
    | cons piece body =>
      have hpieces := pieces_intercalate (List.cons_ne_nil piece body) hslash
      have hanchor := anchor_of_head (by rw [hpieces]; rfl) (hhead piece rfl)
      rw [components_of_anchor hanchor]
      rfl

/-- The parent lacks the last component and no other. -/
theorem components_parent? {path parent : Path} (h : path.parent? = some parent) :
    parent.components = path.components.dropLast := by
  rw [components_eq path, ← steps_trimmed]
  unfold parent? at h
  split at h
  · rename_i hidle
    split at h
    · rename_i hdot
      cases h
      rw [hidle, eq_of_beq hdot]
      rfl
    · cases h
  · rename_i last before hlast
    cases h
    have hlastIdle : isIdle last = false := by
      have hnot := List.head?_dropWhile_not isIdle path.body.reverse
      rw [hlast] at hnot
      simpa using hnot
    obtain ⟨step, hstep⟩ := exists_steps_eq hlastIdle
    rw [hlast, List.reverse_cons, steps_append, hstep, ← List.append_assoc, List.dropLast_concat,
      ← steps_reverse_dropWhile before]
    have hkept : (before.dropWhile isIdle).reverse <+: path.body := by
      have hsuffix := (List.dropWhile_suffix isIdle).trans
        ((List.suffix_cons last before).trans (hlast ▸ List.dropWhile_suffix isIdle))
      have hreverse := List.reverse_prefix.2 hsuffix
      rwa [List.reverse_reverse] at hreverse
    refine components_ofBody (fun piece hpiece => ?_) ?_
    · exact not_slash_mem_of_mem_pieces (mem_pieces_of_mem_body (hkept.subset hpiece))
    · rcases anchor_cases path with ⟨-, hroot⟩ | ⟨-, -, hdot⟩ | ⟨-, -, hempty⟩
      · exact .inl hroot
      · exact .inr (.inl hdot)
      · refine .inr (.inr ⟨hempty, fun piece hpiece => isIdle_head_of_anchor hempty ?_ ?_⟩)
        · intro htext
          obtain ⟨text⟩ := path
          cases htext
          cases hlast
        · obtain ⟨more, hmore⟩ := List.head?_eq_some_iff.1 hpiece
          rw [hmore, body, hempty] at hkept
          obtain ⟨rest, hrest⟩ := hkept
          exact List.head?_eq_some_iff.2 ⟨more ++ rest, hrest.symm⟩

/-- A path that ends with a name has a parent. -/
theorem exists_parent? {path : Path} {name : String}
    (h : path.components.getLast? = some (.named name)) :
    ∃ parent, path.parent? = some parent := by
  unfold parent?
  split
  · rename_i hidle
    rw [components_eq, ← steps_trimmed, hidle] at h
    rcases anchor_cases path with ⟨-, hanchor⟩ | ⟨-, -, hanchor⟩ | ⟨-, -, hanchor⟩
    all_goals
      rw [hanchor] at h
      cases h
  · exact ⟨_, rfl⟩

/-- What a file name has behind its stem and the dot after it. -/
def nameExtension? (name : String) : Option String :=
  match name.toList.drop (stem name).toList.length with
  | [] => none
  | _ :: behind => some (String.ofList behind)

def extension? (path : Path) : Option String :=
  path.fileName?.bind nameExtension?

theorem stem_isPrefix (name : String) : (stem name).toList <+: name.toList := by
  unfold stem
  split
  · exact List.prefix_refl _
  · rename_i dot before hbefore
    split
    · exact List.prefix_refl _
    · have hsuffix := (List.suffix_cons dot before).trans
        (hbefore ▸ List.dropWhile_suffix (fun c => decide (c ≠ '.')))
      have hreverse := List.reverse_prefix.2 hsuffix
      rwa [List.reverse_reverse, ← String.toList_ofList (l := before.reverse)] at hreverse

theorem stem_ne_empty {name : String} (h : name ≠ "") : stem name ≠ "" := by
  unfold stem
  split
  · exact h
  · rename_i before _
    split
    · exact h
    · rename_i hsome
      simpa using hsome

theorem stem_of_dot {base extension : String} (hbase : base ≠ "")
    (hdot : '.' ∉ extension.toList) : stem (base ++ "." ++ extension) = base := by
  have hreverse : (base ++ "." ++ extension).toList.reverse =
      extension.toList.reverse ++ '.' :: base.toList.reverse := by
    simp
  have hall : ∀ c ∈ extension.toList.reverse, decide (c ≠ '.') = true :=
    Text.all_ne_of_not_mem fun hmem => hdot (List.mem_reverse.1 hmem)
  have hne : base.toList ≠ [] := mt String.toList_eq_nil_iff.1 hbase
  rw [stem, hreverse, Text.dropWhile_append hall (Text.ends_cons _ (by decide))]
  simp [hne]

theorem nameExtension?_of_dot {base extension : String} (hbase : base ≠ "")
    (hdot : '.' ∉ extension.toList) :
    nameExtension? (base ++ "." ++ extension) = some extension := by
  have hdrop : (base ++ "." ++ extension).toList.drop base.toList.length =
      '.' :: extension.toList := by
    simp
  rw [nameExtension?, stem_of_dot hbase hdot, hdrop]
  simp

/-! ## Outputs -/

theorem fileName?_eq_some_iff (path : Path) (name : String) :
    path.fileName? = some name ↔ path.components.getLast? = some (.named name) := by
  unfold fileName?
  split
  · rename_i own hlast
    rw [hlast]
    simp
  · rename_i hother
    exact iff_of_false (fun h => by cases h) (hother name)

/-- A name at the end of a path is one of its pieces. -/
theorem mem_pieces_of_getLast? {path : Path} {name : String}
    (h : path.components.getLast? = some (.named name)) :
    name ∈ path.pieces ∧ isIdle name = false := by
  have hmem := List.mem_of_getLast? h
  rw [components_eq, List.mem_append] at hmem
  rcases hmem with hanchor | hstep
  · rcases anchor_cases path with ⟨-, hown⟩ | ⟨-, -, hown⟩ | ⟨-, -, hown⟩
    all_goals
      rw [hown] at hanchor
      cases hanchor <;> contradiction
  · obtain ⟨piece, hpiece, hname⟩ := List.mem_filterMap.1 hstep
    unfold Component.ofPiece? at hname
    split at hname
    · cases hname
    · rename_i hidle
      split at hname
      · cases hname
      · cases hname
        exact ⟨mem_pieces_of_mem_body hpiece, by simpa using hidle⟩

/-- Text that is too long to be idle or to mean the parent is one name. -/
theorem components_of_length {text : String} (hslash : '/' ∉ text.toList)
    (hlength : 3 ≤ text.toList.length) :
    anchor ⟨text⟩ = "" ∧ components ⟨text⟩ = [.named text] := by
  have hne : ∀ other ∈ ["", ".", ".."], text ≠ other := by
    rintro other hother rfl
    simp only [List.mem_cons, List.not_mem_nil, or_false] at hother
    rcases hother with rfl | rfl | rfl <;> exact absurd hlength (by decide)
  have hidle : isIdle text = false := by
    simp [isIdle, hne "" (by decide), hne "." (by decide)]
  have hpieces := pieces_of_not_mem hslash
  have hanchor : anchor ⟨text⟩ = "" := anchor_of_head (by rw [hpieces]; rfl) hidle
  refine ⟨hanchor, ?_⟩
  rw [components_of_anchor hanchor, hpieces, steps_named hidle (hne ".." (by decide))]

section Output

variable {source other : Path} {name otherName extension : String}

theorem output_eq (h : source.fileStem? = some name) (dir : Option Path) :
    source.output dir extension =
      dir.elim ⟨name ++ "." ++ extension⟩ (·.join ⟨name ++ "." ++ extension⟩) := by
  unfold output
  rw [h]
  cases dir <;> rfl

theorem fileStem?_eq (h : source.components.getLast? = some (.named name)) :
    source.fileStem? = some (stem name) := by
  rw [fileStem?, (fileName?_eq_some_iff source name).2 h]
  rfl

theorem extension?_eq (h : source.components.getLast? = some (.named name)) :
    source.extension? = nameExtension? name := by
  rw [extension?, (fileName?_eq_some_iff source name).2 h, Option.bind_some]

theorem fileStem?_congr (h : source.components = other.components) :
    source.fileStem? = other.fileStem? := by
  have hname : source.fileName? = other.fileName? := by
    refine Option.ext fun name => ?_
    rw [fileName?_eq_some_iff, fileName?_eq_some_iff, h]
  rw [fileStem?, fileStem?, hname]

theorem stem_ne_empty_of_last (h : source.components.getLast? = some (.named name)) :
    stem name ≠ "" := by
  have hidle := (mem_pieces_of_getLast? h).2
  refine stem_ne_empty fun hempty => ?_
  rw [hempty] at hidle
  exact absurd hidle (by decide)

/-- An output has the components of its directory and one more. -/
theorem components_output (h : source.components.getLast? = some (.named name))
    (dir : Option Path) (hne : extension ≠ "") (hslash : '/' ∉ extension.toList) :
    (source.output dir extension).components =
      dir.elim [] components ++ [.named (stem name ++ "." ++ extension)] := by
  have hfree : '/' ∉ (stem name ++ "." ++ extension).toList := by
    have hown : '/' ∉ (stem name).toList :=
      fun hmem => not_slash_mem_of_mem_pieces (mem_pieces_of_getLast? h).1
        ((stem_isPrefix name).subset hmem)
    simp [hown, hslash]
  have hlength : 3 ≤ (stem name ++ "." ++ extension).toList.length := by
    have hleft := List.length_pos_iff.2 (mt String.toList_eq_nil_iff.1 (stem_ne_empty_of_last h))
    have hright := List.length_pos_iff.2 (mt String.toList_eq_nil_iff.1 hne)
    have hdot : ".".toList.length = 1 := rfl
    rw [String.toList_append, String.toList_append, List.length_append, List.length_append]
    omega
  obtain ⟨hanchor, hfile⟩ := components_of_length hfree hlength
  rw [output_eq (fileStem?_eq h)]
  cases dir with
  | none => rw [Option.elim_none, Option.elim_none, hfile, List.nil_append]
  | some dir => rw [Option.elim_some, Option.elim_some, components_join hanchor, hfile]

/-- The dot before the extension divides the name of an output. -/
theorem fileStem?_output (h : source.components.getLast? = some (.named name))
    (dir : Option Path) (hne : extension ≠ "") (hslash : '/' ∉ extension.toList)
    (hdot : '.' ∉ extension.toList) :
    (source.output dir extension).fileStem? = some (stem name) ∧
      (source.output dir extension).extension? = some extension := by
  have hlast : (source.output dir extension).components.getLast? =
      some (.named (stem name ++ "." ++ extension)) := by
    rw [components_output h dir hne hslash, List.getLast?_concat]
  have hbase := stem_ne_empty_of_last h
  refine ⟨?_, ?_⟩
  · rw [fileStem?_eq hlast, stem_of_dot hbase hdot]
  · rw [extension?_eq hlast, nameExtension?_of_dot hbase hdot]

/-- An output stands in its directory, with the stem of its source and the extension, and the
outputs of two sources coincide exactly if the sources have the same stem. -/
theorem output_in_directory (hsource : source.components.getLast? = some (.named name))
    (hother : other.components.getLast? = some (.named otherName)) (dir : Option Path)
    (hne : extension ≠ "") (hslash : '/' ∉ extension.toList) (hdot : '.' ∉ extension.toList) :
    (∃ parent, (source.output dir extension).parent? = some parent ∧
      parent.components = dir.elim [] components ∧ (dir = none → parent.text = "")) ∧
    source.fileStem? = some (stem name) ∧
    (source.output dir extension).fileStem? = source.fileStem? ∧
    (source.output dir extension).extension? = some extension ∧
    (source.output dir extension = other.output dir extension ↔
      source.fileStem? = other.fileStem?) ∧
    ((source.output dir extension).components = (other.output dir extension).components ↔
      source.fileStem? = other.fileStem?) := by
  have hcomponents := components_output hsource dir hne hslash
  obtain ⟨hstem, hextension⟩ := fileStem?_output hsource dir hne hslash hdot
  have hotherStem := (fileStem?_output hother dir hne hslash hdot).1
  rw [← fileStem?_eq hsource] at hstem
  rw [← fileStem?_eq hother] at hotherStem
  have hsame : source.fileStem? = other.fileStem? →
      source.output dir extension = other.output dir extension := by
    intro h
    rw [output_eq (fileStem?_eq hsource), output_eq (h ▸ fileStem?_eq hsource)]
  have hapart : (source.output dir extension).components =
      (other.output dir extension).components → source.fileStem? = other.fileStem? := by
    intro h
    rw [← hstem, ← hotherStem, fileStem?_congr h]
  refine ⟨?_, fileStem?_eq hsource, hstem, hextension, ⟨fun h => hapart (congrArg _ h), hsame⟩,
    ⟨hapart, fun h => congrArg _ (hsame h)⟩⟩
  have hlast : (source.output dir extension).components.getLast? =
      some (.named (stem name ++ "." ++ extension)) := by
    rw [hcomponents, List.getLast?_concat]
  obtain ⟨parent, hparent⟩ := exists_parent? hlast
  have hdir := components_parent? hparent
  rw [hcomponents, List.dropLast_concat] at hdir
  refine ⟨parent, hparent, hdir, fun hnone => text_eq_of_components ?_⟩
  rw [hdir, hnone]
  rfl

/-- A dot that starts a name is part of its stem, so the two sources share an output. -/
theorem output_in_directory_hidden :
    (∃ parent, (output ⟨"src/.a.lisp/."⟩ (some ⟨"./out/."⟩) "js").parent? = some parent ∧
      parent.components = [.current, .named "out"]) ∧
    (output ⟨"src/.a.lisp/."⟩ (some ⟨"./out/."⟩) "js").fileStem? = some ".a" ∧
    (output ⟨"src/.a.lisp/."⟩ (some ⟨"./out/."⟩) "js").extension? = some "js" ∧
    output ⟨"src/.a.lisp/."⟩ (some ⟨"./out/."⟩) "js" =
      output ⟨".a"⟩ (some ⟨"./out/."⟩) "js" := by
  have hsource : components ⟨"src/.a.lisp/."⟩ = [.named "src", .named ".a.lisp"] := by decide
  have hother : components ⟨".a"⟩ = [.named ".a"] := by decide
  have hdir : components ⟨"./out/."⟩ = [.current, .named "out"] := by decide
  have hstem : fileStem? ⟨"src/.a.lisp/."⟩ = some ".a" := by decide
  obtain ⟨⟨parent, hparent, hcomponents, -⟩, -, hown, hextension, hsame, -⟩ :=
    output_in_directory (by rw [hsource]; rfl) (by rw [hother]; rfl) (some ⟨"./out/."⟩)
      (by decide : "js" ≠ "") (by decide) (by decide)
  exact ⟨⟨parent, hparent, hcomponents.trans hdir⟩, hown.trans hstem, hextension,
    hsame.2 (hstem.trans (by decide))⟩

end Output

end Path
end JsLisp
