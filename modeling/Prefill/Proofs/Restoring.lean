import Prefill.Proofs.Splicing

/-!
Regions in and out again. Taking out regions that were put in gives the lines back, with one blank
line in place of the blank lines after each line that got regions (`spaced`), and putting the same
regions in after the same lines writes the same file (`restored`). This holds of regions as they are
written around parts that have no line like the end of a region (`isRegion_linesOf`).
-/

namespace Prefill

open Text

namespace Text

/-! ### Trimming and whole lines -/

theorem trimEnd_append_solid {tail : Text} (h : blank tail = false) (front : Text) :
    trimEnd (front ++ tail) = front ++ trimEnd tail := by
  obtain ⟨c, member, solid⟩ := exists_solid h
  have left := mem_dropWhile_isBlank (List.mem_reverse.mpr member) solid
  rw [trimEnd, List.reverse_append, List.dropWhile_append, if_neg, List.reverse_append,
    List.reverse_reverse, trimEnd]
  rw [List.isEmpty_iff]
  exact List.ne_nil_of_mem left

theorem Lined.ended_of_flatten {lines : List Text} (h : Lined lines)
    (last : lines.flatten = [] ∨ lines.flatten.getLast? = some '\n') :
    ∀ line ∈ lines, Ended line := by
  induction lines with
  | nil => simp
  | cons line rest ih =>
    rw [List.forall_mem_cons]
    cases rest with
    | nil =>
      have feeds : line.getLast? = some '\n' := by
        obtain empty | last := last
        · exact absurd (by simpa using empty) h.ne_nil
        · simpa using last
      exact ⟨h.ended_of_getLast? (List.mem_cons_self ..) feeds, by simp⟩
    | cons next more =>
      refine ⟨h.1, ih h.2 ?_⟩
      have someText : (next :: more).flatten ≠ [] := by simp [h.2.ne_nil]
      obtain empty | last := last
      · exact absurd (List.append_eq_nil_iff.mp empty).2 someText
      · obtain ⟨c, isLast⟩ := Option.isSome_iff_exists.mp (List.getLast?_isSome.mpr someText)
        rw [List.flatten_cons, List.getLast?_append, isLast] at last
        exact .inr (isLast.trans last)

/-- The lines of two texts with a line feed between them: those of the texts, of which the first may
be short of that line feed, and perhaps an empty line. -/
theorem mem_rawLines_append_feed {text rest line : Text}
    (h : line ∈ rawLines (text ++ '\n' :: rest)) :
    line ∈ rawLines rest ∨ line ∈ rawLines text ∨
      ∃ short, (short = [] ∨ short ∈ rawLines text) ∧ line = short ++ ['\n'] := by
  induction size : text.length using Nat.strongRecOn generalizing text with
  | ind n ih =>
    subst size
    by_cases feeds : '\n' ∈ text
    · obtain ⟨front, back, rfl, noBreak⟩ := List.eq_append_cons_of_mem feeds
      rw [List.append_assoc, List.cons_append, rawLines_append_feed noBreak] at h
      rw [rawLines_append_feed noBreak]
      obtain rfl | later := List.mem_cons.mp h
      · exact .inr (.inl (List.mem_cons_self ..))
      · have shorter : back.length < (front ++ '\n' :: back).length := by
          rw [List.length_append, List.length_cons]
          omega
        obtain below | there | ⟨short, whence, rfl⟩ := ih back.length shorter later rfl
        · exact .inl below
        · exact .inr (.inl (List.mem_cons_of_mem _ there))
        · exact .inr (.inr ⟨short, whence.imp_right (List.mem_cons_of_mem _), rfl⟩)
    · rw [rawLines_append_feed feeds] at h
      obtain rfl | below := List.mem_cons.mp h
      · refine .inr (.inr ⟨text, ?_, rfl⟩)
        by_cases empty : text = []
        · exact .inl empty
        · rw [rawLines_of_noBreak feeds empty]
          exact .inr (List.mem_singleton_self text)
      · exact .inl below

end Text

namespace Marker

/-- The line that opens a region reads as one. -/
theorem regionBegin?_written {method : Text} (notBlank : blank method = false) :
    (regionBegin? (regionBegin.toList ++ ' ' :: method ++ ['\n'])).isSome = true := by
  have starts (rest : Text) : trimStart (regionBegin.toList ++ rest) = regionBegin.toList ++ rest :=
    List.dropWhile_cons_of_neg (by decide)
  have line : trim (regionBegin.toList ++ ' ' :: method ++ ['\n']) =
      regionBegin.toList ++ ' ' :: trimEnd method := by
    have ends := trimEnd_append_solid notBlank (regionBegin.toList ++ [' '])
    rw [trim_append_blank Region.blank_feed, trim, starts]
    simpa using ends
  have found : after? regionBegin (regionBegin.toList ++ ' ' :: trimEnd method) =
      some (' ' :: trimEnd method) := strip?_eq_some_iff.mpr rfl
  obtain ⟨c, member, solid⟩ := exists_solid notBlank
  have named : trim (' ' :: trimEnd method) ≠ [] :=
    List.ne_nil_of_mem (mem_trim (List.mem_cons_of_mem _ (mem_trimEnd member solid)) solid)
  rw [regionBegin?, line, found]
  simp [named]

theorem isRegionEnd_line : isRegionEnd (regionEnd.toList ++ ['\n']) = true := by decide

theorem isRegionEnd_append_feed (line : Text) :
    isRegionEnd (line ++ ['\n']) = isRegionEnd line := by
  simp only [isRegionEnd, trim_append_blank Region.blank_feed]

end Marker

namespace Region

/-! ### Regions as they are written -/

/-- What stands between the first and the last line of a region. -/
def bodyOf (parts : List Text) : Text :=
  if parts.isEmpty then [] else joinWith "\n\n" parts ++ ['\n']

theorem ended_bodyOf (parts : List Text) : ∀ line ∈ rawLines (bodyOf parts), Ended line := by
  apply (lined_rawLines _).ended_of_flatten
  rw [rawLines_flatten, bodyOf]
  split
  · exact .inl rfl
  · exact .inr (by simp)

theorem linesOf_eq {method : Text} (oneLine : '\n' ∉ method) (parts : List Text) :
    linesOf method parts = (Marker.regionBegin.toList ++ ' ' :: method ++ ['\n']) ::
      (rawLines (bodyOf parts) ++ [Marker.regionEnd.toList ++ ['\n']]) := by
  have lead : '\n' ∉ Marker.regionBegin.toList ++ ' ' :: method := by
    have outside : '\n' ∉ Marker.regionBegin.toList := by decide
    simp [outside, oneLine]
  have closing : Lined [Marker.regionEnd.toList ++ ['\n']] := .inl ⟨_, by decide, rfl⟩
  have lined := Lined.cons ⟨_, lead, rfl⟩ (Lined.append (ended_bodyOf parts) closing)
  rw [← rawLines_of_lined lined]
  simp only [linesOf, List.flatten_cons, List.flatten_append, List.flatten_nil, rawLines_flatten,
    List.append_assoc, List.cons_append, List.nil_append, List.append_nil]
  rfl

theorem ended_linesOf (method : Text) (parts : List Text) :
    ∀ line ∈ linesOf method parts, Ended line := by
  apply (lined_rawLines _).ended_of_flatten
  rw [rawLines_flatten]
  exact .inr List.getLast?_concat

/-- **What is written as a region is one**, if no line between its first and its last closes it. -/
theorem isRegion_linesOf {method : Text} {parts : List Text} (notBlank : blank method = false)
    (oneLine : '\n' ∉ method)
    (inner : ∀ line ∈ rawLines (bodyOf parts), Marker.isRegionEnd line = false) :
    IsRegion (linesOf method parts) := by
  rw [linesOf_eq oneLine]
  exact .mk (Marker.regionBegin?_written notBlank) inner Marker.isRegionEnd_line

/-- Parts without a line that closes a region, written one after the other, have none. -/
theorem not_isRegionEnd_joined {parts : List Text}
    (open_ : ∀ part ∈ parts, ∀ line ∈ rawLines part, Marker.isRegionEnd line = false) :
    ∀ line ∈ rawLines (joinWith "\n\n" parts ++ ['\n']), Marker.isRegionEnd line = false := by
  have empty : Marker.isRegionEnd [] = false := by decide
  have after {part rest : Text} (inner : ∀ line ∈ rawLines part, Marker.isRegionEnd line = false)
      (below : ∀ line ∈ rawLines rest, Marker.isRegionEnd line = false) :
      ∀ line ∈ rawLines (part ++ '\n' :: rest), Marker.isRegionEnd line = false := by
    intro line member
    obtain there | here | ⟨short, rfl | here, rfl⟩ := mem_rawLines_append_feed member
    · exact below line there
    · exact inner line here
    · rw [Marker.isRegionEnd_append_feed, empty]
    · rw [Marker.isRegionEnd_append_feed, inner short here]
  induction parts with
  | nil => exact after (by simp [joinWith, rawLines]) (by simp [rawLines])
  | cons part rest ih =>
    rw [List.forall_mem_cons] at open_
    cases rest with
    | nil =>
      rw [joinWith, List.intercalate_singleton]
      exact after open_.1 (by simp [rawLines])
    | cons next rest =>
      have split : joinWith "\n\n" (part :: next :: rest) ++ ['\n'] =
          part ++ '\n' :: ([] ++ '\n' :: (joinWith "\n\n" (next :: rest) ++ ['\n'])) := by
        have mark : "\n\n".toList = ['\n', '\n'] := by decide
        simp [joinWith, List.intercalate_cons_cons, mark]
      rw [split]
      exact after open_.1 (after (by simp [rawLines]) (ih open_.2))

theorem not_isRegionEnd_bodyOf {parts : List Text}
    (open_ : ∀ part ∈ parts, ∀ line ∈ rawLines part, Marker.isRegionEnd line = false) :
    ∀ line ∈ rawLines (bodyOf parts), Marker.isRegionEnd line = false := by
  unfold bodyOf
  split
  · simp [rawLines]
  · exact not_isRegionEnd_joined open_

/-- The lines of an insertion are a region for a method, whose parts do not close it. -/
def Insertion.Written (insertion : Insertion) : Prop :=
  ∃ method parts, insertion.lines = linesOf method parts ∧ blank method = false ∧ '\n' ∉ method ∧
    ∀ part ∈ parts, ∀ line ∈ rawLines part, Marker.isRegionEnd line = false

theorem Insertion.Written.isRegion {insertion : Insertion} (h : insertion.Written) :
    IsRegion insertion.lines := by
  obtain ⟨method, parts, lines, notBlank, oneLine, open_⟩ := h
  rw [lines]
  exact isRegion_linesOf notBlank oneLine (not_isRegionEnd_bodyOf open_)

theorem Insertion.Written.ended {insertion : Insertion} (h : insertion.Written) :
    ∀ line ∈ insertion.lines, Ended line := by
  obtain ⟨method, parts, lines, -⟩ := h
  rw [lines]
  exact ended_linesOf method parts

/-! ### The lines that are left -/

/-- Lines with one blank line in place of the blank lines after each line at one of the given
indices; such a line gets a line feed if it has none. The first line has the given index, and
`behind` says whether it follows such a line with nothing but blank lines between. -/
def spaced (after : List Nat) : (behind : Bool) → (index : Nat) → List Text → List Text
  | _, _, [] => []
  | behind, index, line :: rest =>
    if behind && blank line then spaced after true (index + 1) rest
    else if index ∈ after then terminated line :: ['\n'] :: spaced after true (index + 1) rest
    else line :: spaced after false (index + 1) rest

/-- The lines of a file after regions went in and came out again. -/
def left (after : List Nat) (lines : List Text) : List Text := spaced after false 0 lines

/-- The index there of the line at an index: the number of lines that are left of those above it. -/
def leftIndex (after : List Nat) (lines : List Text) (i : Nat) : Nat :=
  (left after (lines.take i)).length

theorem map_line_tidy {slots : List Slot} {after : List Nat} {index : Nat} (behind : Bool)
    (tagged : ∀ i slot, slots[i]? = some slot → (slot.regions ≠ [] ↔ index + i ∈ after))
    (notBlank : ∀ slot ∈ slots, slot.regions ≠ [] → blank slot.line = false) :
    (tidy behind slots).map Slot.line = spaced after behind index (slots.map Slot.line) := by
  induction slots generalizing behind index with
  | nil => cases behind <;> rfl
  | cons slot rest ih =>
    rw [List.forall_mem_cons] at notBlank
    have here := tagged 0 slot rfl
    rw [Nat.add_zero] at here
    have below (behind : Bool) : (tidy behind rest).map Slot.line =
        spaced after behind (index + 1) (rest.map Slot.line) := by
      apply ih behind _ notBlank.2
      intro i other there
      have tag := tagged (i + 1) other (by simpa using there)
      rwa [Nat.add_comm i, ← Nat.add_assoc] at tag
    rw [tidy, List.map_cons, spaced]
    by_cases bare : slot.regions = []
    · have gone : index ∉ after := fun member => here.mpr member bare
      by_cases gap : (behind && blank slot.line) = true
      · rw [if_pos (by simpa [Slot.isGap, bare] using gap), if_pos gap, below]
      · rw [if_neg (by simpa [Slot.isGap, bare] using gap), if_neg gap, if_neg gone]
        simp [bare, below]
    · have solid := notBlank.1 bare
      rw [if_neg (by simp [Slot.isGap, bare]), if_neg (by simp [bare]), if_neg (by simp [solid]),
        if_pos (here.mp bare)]
      simp [below]

theorem tidyIndex_eq_length {slots : List Slot} {i : Nat} (behind : Bool) (le : i ≤ slots.length) :
    tidyIndex behind slots i = (tidy behind (slots.take i)).length := by
  induction slots generalizing behind i with
  | nil =>
    obtain rfl : i = 0 := by simpa using le
    cases behind <;> rfl
  | cons slot rest ih =>
    cases i with
    | zero => cases behind <;> rfl
    | succ i =>
      have below (behind : Bool) := ih behind (Nat.le_of_succ_le_succ le)
      rw [tidyIndex, List.take_succ_cons, tidy, below, below]
      split
      · rfl
      · split <;> rfl

theorem take_slotsFrom (regions : Nat → List (List Text)) (lines : List Text) (i : Nat) :
    (slotsFrom regions 0 lines).take i = slotsFrom regions 0 (lines.take i) := by
  apply List.ext_getElem?
  intro k
  rw [List.getElem?_take, getElem?_slotsFrom, getElem?_slotsFrom, List.getElem?_take]
  split <;> rfl

theorem regionsAt_ne_nil_iff {insertions : List Insertion} {i : Nat} :
    regionsAt insertions i ≠ [] ↔ i ∈ insertions.map (·.after) := by
  simp [regionsAt, List.filter_eq_nil_iff]

section

variable {lines : List Text} {insertions : List Insertion} (ordered : Ordered lines insertions)
include ordered

theorem left_eq_tidy (i : Nat) : left (insertions.map (·.after)) (lines.take i) =
    (tidy false ((slotsFrom (regionsAt insertions) 0 lines).take i)).map Slot.line := by
  have tagged : ∀ k slot, ((slotsFrom (regionsAt insertions) 0 lines).take i)[k]? = some slot →
      (slot.regions ≠ [] ↔ 0 + k ∈ insertions.map (·.after)) := by
    intro k slot here
    rw [take_slotsFrom, getElem?_slotsFrom] at here
    obtain ⟨line, -, rfl⟩ := Option.map_eq_some_iff.mp here
    exact regionsAt_ne_nil_iff
  rw [map_line_tidy false tagged, take_slotsFrom, slotsFrom_lines, left]
  intro slot member
  exact ordered.notBlank_slot slot (List.mem_of_mem_take member)

theorem left_eq : left (insertions.map (·.after)) lines =
    (tidy false (slotsFrom (regionsAt insertions) 0 lines)).map Slot.line := by
  have whole := left_eq_tidy ordered lines.length
  rwa [List.take_length, List.take_of_length_le (by rw [slotsFrom_length])] at whole

theorem leftIndex_eq {insertion : Insertion} (member : insertion ∈ insertions) :
    leftIndex (insertions.map (·.after)) lines insertion.after =
      tidyIndex false (slotsFrom (regionsAt insertions) 0 lines) insertion.after := by
  obtain ⟨line, here, -⟩ := ordered.after insertion member
  have inLines := (List.getElem?_eq_some_iff.mp here).1
  rw [leftIndex, left_eq_tidy ordered, List.length_map, tidyIndex_eq_length false]
  rw [slotsFrom_length]
  exact Nat.le_of_lt inLines

theorem getElem?_left {insertion : Insertion} (member : insertion ∈ insertions) :
    (left (insertions.map (·.after)) lines)[leftIndex (insertions.map (·.after)) lines
      insertion.after]? = lines[insertion.after]?.map terminated := by
  obtain ⟨line, here, -⟩ := ordered.after insertion member
  have slot : (slotsFrom (regionsAt insertions) 0 lines)[insertion.after]? =
      some ⟨line, regionsAt insertions insertion.after⟩ := by
    rw [getElem?_slotsFrom, here, Nat.zero_add]
    rfl
  have tagged : regionsAt insertions insertion.after ≠ [] :=
    regionsAt_ne_nil_iff.mpr (List.mem_map_of_mem member)
  rw [leftIndex_eq ordered member, left_eq ordered, List.getElem?_map,
    getElem?_tidyIndex slot (by simp [Slot.isGap, tagged]), here]
  simp [Slot.tidied, tagged]

end

/-- **Regions in and out again.** Let lines that open no region get regions after some that are not
blank, in their order, each region written around parts that do not close it. Taking the regions out
of the resulting text leaves the lines, with one blank line in place of the blank lines after each
line that got regions, and that line with its line feed. Putting the same regions in after the same
lines of these gives the same text again. -/
theorem restored {lines : List Text} {insertions : List Insertion} (lined : Lined lines)
    (noBegin : ∀ line ∈ lines, Marker.regionBegin? line = none)
    (sorted : insertions.Pairwise fun a b => a.after ≤ b.after)
    (placed : ∀ insertion ∈ insertions,
      ∃ line, lines[insertion.after]? = some line ∧ blank line = false)
    (written : ∀ insertion ∈ insertions, insertion.Written) :
    let after := insertions.map (·.after)
    let index := leftIndex after lines
    strip (spliceAll lines insertions).flatten = .ok (left after lines).flatten ∧
    rawLines (left after lines).flatten = left after lines ∧
    (∀ insertion ∈ insertions,
      (left after lines)[index insertion.after]? = lines[insertion.after]?.map terminated) ∧
    spliceAll (left after lines) (insertions.map (Insertion.moved index)) =
      spliceAll lines insertions := by
  intro after index
  have ordered : Ordered lines insertions :=
    ⟨sorted, placed, fun insertion member => (written insertion member).isRegion⟩
  have ended : ∀ insertion ∈ insertions, ∀ line ∈ insertion.lines, Ended line :=
    fun insertion member => (written insertion member).ended
  have isLeft : left after lines = _ := left_eq ordered
  refine ⟨?_, ?_, fun insertion member => getElem?_left ordered member, ?_⟩
  · have strips : strip ([] ++ spliceAll lines insertions).flatten = _ :=
      strip_spliceAll ordered (by simp) lined (by simpa using noBegin) ended
    rwa [List.nil_append, List.nil_append, ← isLeft] at strips
  · apply rawLines_of_lined
    rw [isLeft]
    apply lined_tidy
    rwa [slotsFrom_lines]
  · have moved : insertions.map (Insertion.moved index) = insertions.map
        (Insertion.moved (tidyIndex false (slotsFrom (regionsAt insertions) 0 lines))) := by
      apply List.map_congr_left
      intro insertion member
      rw [Insertion.moved, Insertion.moved, ← leftIndex_eq ordered member]
    rw [moved, isLeft]
    exact spliceAll_tidy ordered

/-- Two regions after one line and one after the last line, which has no line feed. -/
def threeRegions : List Insertion :=
  [⟨0, linesOf "F".toList ["func F() int".toList]⟩, ⟨0, linesOf "G".toList []⟩,
    ⟨4, linesOf "H".toList ["// H is last.\nfunc H()".toList, "const h = 1".toList]⟩]

theorem threeRegions_written : ∀ insertion ∈ threeRegions, insertion.Written := by
  simp only [threeRegions, List.forall_mem_cons]
  refine ⟨⟨"F".toList, _, rfl, ?_⟩, ⟨"G".toList, _, rfl, ?_⟩, ⟨"H".toList, _, rfl, ?_⟩, nofun⟩ <;>
    decide +kernel

/-- The three blank lines become one, and the last line gets a line feed and a blank line. -/
theorem threeRegions_restored :
    let lines := rawLines "type F interface\n\n\n\nvar f F".toList
    let spliced := spliceAll lines threeRegions
    strip spliced.flatten = .ok "type F interface\n\nvar f F\n\n".toList ∧
      spliceAll (rawLines "type F interface\n\nvar f F\n\n".toList)
        (threeRegions.map (Insertion.moved fun i => if i = 4 then 2 else i)) = spliced := by
  intro lines spliced
  have placed : ∀ insertion ∈ threeRegions,
      ∃ line, lines[insertion.after]? = some line ∧ blank line = false := by
    simp only [threeRegions, List.forall_mem_cons]
    exact ⟨⟨_, rfl, by decide⟩, ⟨_, rfl, by decide⟩, ⟨_, rfl, by decide⟩, nofun⟩
  obtain ⟨strips, linesLeft, -, again⟩ := restored (lined_rawLines _) (by decide +kernel)
    (by decide +kernel) placed threeRegions_written
  have text : (left (threeRegions.map (·.after)) lines).flatten =
      "type F interface\n\nvar f F\n\n".toList := by decide +kernel
  have moved : threeRegions.map (Insertion.moved (leftIndex (threeRegions.map (·.after)) lines)) =
      threeRegions.map (Insertion.moved fun i => if i = 4 then 2 else i) := by decide +kernel
  rw [text] at strips linesLeft
  rw [moved, ← linesLeft] at again
  exact ⟨strips, again⟩

end Region

end Prefill
