/-
The text of a dotted name.
-/
import JsLisp.Expr.Basic
import JsLisp.Proofs.Text.Word

namespace JsLisp
namespace Name

open Text (isWord)

/-- Every segment is a word, as in every name that is read from source. -/
def isPlain (name : Name) : Bool :=
  name.segments.all fun segment => isWord segment.toList

theorem toList_text (name : Name) :
    name.text.toList = ['.'].intercalate (name.segments.map String.toList) := by
  simp [text]

theorem text_lone (segment : String) : (Name.mk segment []).text = segment := by
  simp [text, segments]

theorem toList_text_cons (head segment : String) (members : List String) :
    (Name.mk head (segment :: members)).text.toList =
      head.toList ++ '.' :: (Name.mk segment members).text.toList := by
  simp [toList_text, segments, List.intercalate_cons_cons]

/-- Cutting the text at its dots gives the name back, if its segments have none. -/
theorem ofPath_text {name : Name} (h : ∀ segment ∈ name.segments, '.' ∉ segment.toList) :
    ofPath name.text = name := by
  have hcut : name.text.toList.splitOn '.' = name.segments.map String.toList := by
    rw [toList_text]
    refine List.splitOn_intercalate '.' (fun cs hcs => ?_) (by simp [segments_ne_nil])
    obtain ⟨segment, hsegment, rfl⟩ := List.mem_map.1 hcs
    exact h segment hsegment
  have hback : (name.text.toList.splitOn '.').map String.ofList = name.segments := by
    rw [hcut, List.map_map]
    simp
  rw [ofPath, hback]
  rfl

theorem segments_ofPath (path : String) :
    (ofPath path).segments = (path.toList.splitOn '.').map String.ofList := by
  unfold ofPath
  split
  · rename_i hnone
    exact absurd hnone (by simp [List.splitOn_ne_nil])
  · rename_i head members hpieces
    exact hpieces.symm

theorem text_ofPath (path : String) : (ofPath path).text = path := by
  rw [← String.toList_inj, toList_text, segments_ofPath, List.map_map]
  simp [Function.comp_def, List.intercalate_splitOn]

/-- The segments of a name survive exactly if none of them has a dot to be cut at. -/
theorem ofPath_text_eq_iff (name : Name) :
    ofPath name.text = name ↔ ∀ segment ∈ name.segments, '.' ∉ segment.toList := by
  refine ⟨fun h segment hsegment => ?_, ofPath_text⟩
  rw [← h, segments_ofPath] at hsegment
  obtain ⟨cs, hcs, rfl⟩ := List.mem_map.1 hsegment
  rw [String.toList_ofList]
  exact Text.not_mem_of_mem_splitOn hcs

theorem not_dot_mem_of_isWord {cs : List Char} (h : isWord cs = true) : '.' ∉ cs := by
  cases cs with
  | nil => exact List.not_mem_nil
  | cons c cs =>
    obtain ⟨halpha, hall⟩ := (Text.isWord_cons c cs).1 h
    intro hdot
    rcases List.mem_cons.1 hdot with rfl | hmem
    · exact absurd halpha (by decide)
    · exact absurd (hall '.' hmem) (by decide)

theorem ofPath_text_of_isPlain {name : Name} (h : name.isPlain = true) :
    ofPath name.text = name :=
  ofPath_text fun segment hsegment =>
    not_dot_mem_of_isWord (List.all_eq_true.1 h segment hsegment)

theorem ofPath_of_isPlain {name : Name} (h : name.isPlain = true) {cs : List Char}
    (htext : name.text.toList = cs) : ofPath (String.ofList cs) = name := by
  rw [← htext, String.ofList_toList, ofPath_text_of_isPlain h]

theorem eq_of_isPlain {name other : Name} (h : name.isPlain = true) (hother : other.isPlain = true)
    (htext : name.text = other.text) : name = other := by
  rw [← ofPath_text_of_isPlain h, htext, ofPath_text_of_isPlain hother]

/-- The characters of a name's text. -/
def isNameChar (c : Char) : Bool :=
  c.isAlphanum || c == '.'

/-- The text of a plain name is a letter, then letters, digits and dots. -/
theorem text_of_isPlain {name : Name} (h : name.isPlain = true) :
    ∃ c cs, name.text.toList = c :: cs ∧ c.isAlpha = true ∧ ∀ d ∈ cs, isNameChar d = true := by
  obtain ⟨head, members⟩ := name
  induction members generalizing head with
  | nil =>
    simp only [isPlain, segments, List.all_cons, List.all_nil, Bool.and_true] at h
    obtain ⟨c, cs, hhead, halpha, hall⟩ := Text.exists_cons_of_isWord h
    refine ⟨c, cs, by rw [text_lone, hhead], halpha, fun d hd => ?_⟩
    simp [isNameChar, hall d hd]
  | cons segment members ih =>
    have hparts : isWord head.toList = true ∧ (Name.mk segment members).isPlain = true := by
      simpa [isPlain, segments] using h
    obtain ⟨c, cs, hhead, halpha, hall⟩ := Text.exists_cons_of_isWord hparts.1
    obtain ⟨c', cs', htail, halpha', hall'⟩ := ih segment hparts.2
    refine ⟨c, cs ++ '.' :: c' :: cs', ?_, halpha, fun d hd => ?_⟩
    · rw [toList_text_cons, hhead, htail, List.cons_append]
    · simp only [List.mem_append, List.mem_cons] at hd
      rcases hd with hd | rfl | rfl | hd
      · simp [isNameChar, hall d hd]
      · rfl
      · simp [isNameChar, Char.isAlphanum, halpha']
      · exact hall' d hd

theorem isNameChar_text {name : Name} (h : name.isPlain = true) :
    ∀ c ∈ name.text.toList, isNameChar c = true := by
  obtain ⟨c, cs, htext, halpha, hcs⟩ := text_of_isPlain h
  rw [htext]
  refine List.forall_mem_cons.2 ⟨?_, hcs⟩
  simp [isNameChar, Char.isAlphanum, halpha]

theorem isNameChar_of_isNumeral {cs : List Char} (h : Text.isNumeral cs = true) :
    ∀ c ∈ cs, isNameChar c = true := by
  obtain ⟨c, more, rfl, hdigit, hmore⟩ := Text.exists_cons_of_isNumeral h
  refine List.forall_mem_cons.2 ⟨?_, fun d hd => ?_⟩
  · simp [isNameChar, Char.isAlphanum, hdigit]
  · rcases hmore d hd with hd | rfl
    · simp [isNameChar, Char.isAlphanum, hd]
    · rfl

end Name
end JsLisp
