import Mathlib.Data.List.TakeWhile
import Prefill.Marker

/-!
Markers are comments. A line that is read as a marker, or that opens or closes a generated region,
starts with two slashes after its indentation; a blank line is none of these, and no line both opens
and closes a region.
-/

namespace Prefill

open Text

namespace Text

/-- Trimming the end of a text takes something off its end. -/
theorem exists_trimEnd_append (text : Text) : ∃ tail, text = trimEnd text ++ tail := by
  have whole := congrArg List.reverse
    (List.takeWhile_append_dropWhile (p := isBlank) (l := text.reverse))
  rw [List.reverse_append, List.reverse_reverse] at whole
  exact ⟨_, whole.symm⟩

theorem trimEnd_of_blank {text : Text} (h : blank text = true) : trimEnd text = [] := by
  have all : ∀ c ∈ text.reverse, isBlank c = true := by simpa [blank] using h
  rw [trimEnd, List.dropWhile_eq_nil_iff.mpr all, List.reverse_nil]

theorem mem_dropWhile_isBlank {text : Text} {c : Char} (member : c ∈ text)
    (solid : isBlank c = false) : c ∈ text.dropWhile isBlank := by
  rw [← List.takeWhile_append_dropWhile (p := isBlank) (l := text), List.mem_append] at member
  obtain front | back := member
  · rw [List.mem_takeWhile_imp front] at solid
    cases solid
  · exact back

theorem mem_trimEnd {text : Text} {c : Char} (member : c ∈ text) (solid : isBlank c = false) :
    c ∈ trimEnd text := by
  rw [trimEnd, List.mem_reverse]
  exact mem_dropWhile_isBlank (List.mem_reverse.mpr member) solid

theorem mem_trim {text : Text} {c : Char} (member : c ∈ text) (solid : isBlank c = false) :
    c ∈ trim text :=
  mem_trimEnd (mem_dropWhile_isBlank member solid) solid

theorem exists_solid {text : Text} (h : blank text = false) : ∃ c ∈ text, isBlank c = false := by
  simpa [blank] using h

theorem trim_eq_nil_iff {text : Text} : trim text = [] ↔ blank text = true := by
  constructor
  · intro none
    by_contra someText
    obtain ⟨c, member, solid⟩ := exists_solid (Bool.eq_false_iff.mpr someText)
    have left := mem_trim member solid
    simp [none] at left
  · intro allBlank
    have none : trimStart text = [] :=
      List.dropWhile_eq_nil_iff.mpr (by simpa [blank] using allBlank)
    rw [trim, none]
    rfl

theorem isBlank_of_getLast?_trim {text : Text} {c : Char} (h : (trim text).getLast? = some c) :
    isBlank c = false := by
  rw [trim, trimEnd, List.getLast?_reverse] at h
  have left := List.head?_dropWhile_not isBlank (trimStart text).reverse
  rwa [h] at left

/-- Where something is left of a text without its leading blanks, what follows it is left too. -/
theorem trimStart_append {text : Text} (h : trimStart text ≠ []) (tail : Text) :
    trimStart (text ++ tail) = trimStart text ++ tail := by
  unfold trimStart at h ⊢
  rw [List.dropWhile_append, if_neg (by simpa using h)]

theorem trimEnd_append_blank {tail : Text} (h : blank tail = true) (text : Text) :
    trimEnd (text ++ tail) = trimEnd text := by
  have all : ∀ c ∈ tail.reverse, isBlank c = true := by simpa [blank] using h
  rw [trimEnd, List.reverse_append, List.dropWhile_append_of_pos all, trimEnd]

theorem trim_append_blank {text tail : Text} (h : blank tail = true) :
    trim (text ++ tail) = trim text := by
  by_cases noneLeft : trimStart text = []
  · have front : ∀ c ∈ text, isBlank c = true := List.dropWhile_eq_nil_iff.mp noneLeft
    rw [trim, trim, trimStart, List.dropWhile_append_of_pos front, noneLeft]
    have gone : tail.dropWhile isBlank = [] :=
      List.dropWhile_eq_nil_iff.mpr (by simpa [blank] using h)
    rw [gone]
  · rw [trim, trimStart_append noneLeft, trimEnd_append_blank h, trim]

theorem startsWith_iff {lead : String} {text : Text} :
    startsWith lead text = true ↔ ∃ tail, text = lead.toList ++ tail := by
  rw [startsWith, Option.isSome_iff_exists]
  simp only [after?, strip?_eq_some_iff]

end Text

namespace Marker

/-- An identifier of ASCII characters. -/
def IsWord (word : Text) : Prop :=
  ∃ c body, word = c :: body ∧ isAsciiWordStart c = true ∧ ∀ d ∈ body, isAsciiWordPart d = true

theorem isWord_of_word? {text word rest : Text} (h : word? text = some (word, rest)) :
    IsWord word := by
  cases text with
  | nil => cases h
  | cons c text =>
    rw [word?] at h
    split at h
    · rename_i start
      obtain ⟨rfl, -⟩ := Prod.mk.inj (Option.some.inj h)
      exact ⟨c, _, rfl, start, fun d member => List.mem_takeWhile_imp member⟩
    · cases h

theorem IsWord.parts {word : Text} (h : IsWord word) :
    word ≠ [] ∧ ∀ c ∈ word, isAsciiWordPart c = true := by
  obtain ⟨c, body, rfl, start, parts⟩ := h
  refine ⟨by simp, List.forall_mem_cons.mpr ⟨?_, parts⟩⟩
  simp only [isAsciiWordStart, Bool.or_eq_true] at start
  simp only [isAsciiWordPart, Bool.or_eq_true]
  exact start.imp .inl id

/-- A line that holds nothing but a line comment. -/
def IsComment (line : Text) : Prop := startsWith "//" (trimStart line) = true

theorem isComment_iff {line : Text} :
    IsComment line ↔ ∃ tail, trimStart line = '/' :: '/' :: tail := by
  have slashes : "//".toList = ['/', '/'] := by decide
  rw [IsComment, startsWith_iff, slashes]
  rfl

theorem isComment_of_comment? {line comment : Text}
    (h : comment? (trimEnd line) = some comment) : IsComment line := by
  obtain ⟨rest, found, -⟩ := Option.map_eq_some_iff.mp h
  have shown : trimStart (trimEnd line) = "//".toList ++ rest := strip?_eq_some_iff.mp found
  obtain ⟨tail, whole⟩ := exists_trimEnd_append line
  have left : trimStart (trimEnd line) ≠ [] := by simp [shown]
  refine startsWith_iff.mpr ⟨rest ++ tail, ?_⟩
  rw [whole, trimStart_append left, shown, List.append_assoc]

theorem isComment_of_classify? {line : Text} (h : classify? line ≠ none) : IsComment line := by
  obtain ⟨marker, found⟩ := Option.ne_none_iff_exists'.mp h
  obtain ⟨comment, isComment, -⟩ := Option.bind_eq_some_iff.mp found
  exact isComment_of_comment? isComment

theorem isComment_of_regionBegin? {line : Text} (h : (regionBegin? line).isSome = true) :
    IsComment line := by
  obtain ⟨name, found⟩ := Option.isSome_iff_exists.mp h
  obtain ⟨rest, opens, -⟩ := Option.bind_eq_some_iff.mp found
  have shown : trim line = regionBegin.toList ++ rest := strip?_eq_some_iff.mp opens
  obtain ⟨tail, whole⟩ := exists_trimEnd_append (trimStart line)
  refine startsWith_iff.mpr ⟨" goahead:inject-begin".toList ++ rest ++ tail, ?_⟩
  rw [whole, ← trim, shown]
  simp [regionBegin]

theorem classify?_of_blank {line : Text} (h : blank line = true) : classify? line = none := by
  unfold classify?
  rw [trimEnd_of_blank h]
  rfl

/-- A line that is code: neither blank nor a marker, and it opens no region. -/
structure Plain (line : Text) : Prop where
  notBlank : blank line = false
  noMarker : classify? line = none
  noBegin : regionBegin? line = none

theorem plain_of_not_isComment {line : Text} (notBlank : blank line = false)
    (h : ¬ IsComment line) : Plain line := by
  refine ⟨notBlank, ?_, ?_⟩
  · by_contra isMarker
    exact h (isComment_of_classify? isMarker)
  · by_contra begins
    exact h (isComment_of_regionBegin? (Option.isSome_iff_ne_none.mpr begins))

/-- No line both opens and closes a region. -/
theorem regionBegin?_of_isRegionEnd {line : Text} (h : isRegionEnd line = true) :
    regionBegin? line = none := by
  have closing : trim line = regionEnd.toList := by simpa [isRegionEnd] using h
  unfold regionBegin?
  rw [closing]
  decide

end Marker

end Prefill
