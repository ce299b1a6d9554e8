import Prefill.Text.Line

/-!
A text is its lines. Reading a text into lines and writing the lines one after the other are
inverse to each other, between all texts and the lists of lines that can stand in a file
(`Stacked`): no line holds a line feed, and only the last one may be without an ending.
-/

namespace Prefill

open Text

namespace Line

/-- A line that reading a text can give. A carriage return before a line feed belongs to the
ending. -/
structure WellFormed (line : Line) : Prop where
  noBreak : '\n' ∉ line.body
  ending : line.ending = [] ∨ line.ending = ['\n'] ∨ line.ending = ['\r', '\n']
  noReturn : line.ending = ['\n'] → line.body.getLast? ≠ some '\r'

theorem ofRaw_cons {c : Char} {rest : Text} (notFeed : c :: rest ≠ ['\n'])
    (notReturn : c :: rest ≠ ['\r', '\n']) :
    ofRaw (c :: rest) = ⟨c :: (ofRaw rest).body, (ofRaw rest).ending⟩ := by
  rw [ofRaw]
  · rintro rfl rfl; exact notFeed rfl
  · rintro rfl rfl; exact notReturn rfl

@[simp] theorem raw_ofRaw (text : Text) : (ofRaw text).raw = text := by
  fun_induction ofRaw text with
  | case1 => rfl
  | case2 => rfl
  | case3 => rfl
  | case4 c rest _ _ line ih => simpa [raw, line] using ih

theorem ofRaw_raw {line : Line} (h : line.WellFormed) : ofRaw line.raw = line := by
  obtain ⟨body, ending⟩ := line
  obtain ⟨noBreak, shape, noReturn⟩ := h
  simp only [raw] at *
  induction body with
  | nil => obtain rfl | rfl | rfl := shape <;> rfl
  | cons c body ih =>
    have notFeed : c :: (body ++ ending) ≠ ['\n'] := by
      intro eq
      obtain ⟨rfl, -⟩ := List.cons.inj eq
      simp at noBreak
    -- A carriage return at the end of the body would have been read as part of the ending.
    have notReturn : c :: (body ++ ending) ≠ ['\r', '\n'] := by
      intro eq
      obtain ⟨rfl, tail⟩ := List.cons.inj eq
      cases body with
      | nil => exact noReturn tail rfl
      | cons d body =>
        obtain ⟨rfl, -⟩ := List.cons.inj tail
        simp at noBreak
    have inner := ih (by simp_all) (by
      intro feed last
      apply noReturn feed
      cases body <;> simp_all)
    rw [List.cons_append, ofRaw_cons notFeed notReturn, inner]

end Line

namespace Text

/-- Lines that can stand one after the other in a file. -/
def Stacked : List Line → Prop
  | [] => True
  | [line] => line.WellFormed ∧ line.raw ≠ []
  | line :: rest => line.WellFormed ∧ line.ending ≠ [] ∧ Stacked rest

theorem Stacked.cons {line : Line} {rest : List Line} (formed : line.WellFormed)
    (ended : line.ending ≠ []) (h : Stacked rest) : Stacked (line :: rest) := by
  cases rest with
  | nil => exact ⟨formed, by simp [Line.raw, ended]⟩
  | cons next rest => exact ⟨formed, ended, h⟩

theorem Stacked.tail {line : Line} {rest : List Line} (h : Stacked (line :: rest)) :
    Stacked rest := by
  cases rest with
  | nil => trivial
  | cons next rest => exact h.2.2

theorem Stacked.formed {ls : List Line} (h : Stacked ls) :
    ∀ line ∈ ls, line.WellFormed ∧ line.raw ≠ [] := by
  induction ls with
  | nil => exact nofun
  | cons line rest ih =>
    cases rest with
    | nil =>
      intro other member
      obtain rfl := List.mem_singleton.mp member
      exact h
    | cons next rest =>
      rw [List.forall_mem_cons]
      exact ⟨⟨h.1, by simp [Line.raw, h.2.1]⟩, ih h.2.2⟩

/-- Other lines with the same endings can stand in a file as well. -/
theorem Stacked.of_endings {ls others : List Line} (h : Stacked ls)
    (endings : others.map Line.ending = ls.map Line.ending)
    (formed : ∀ line ∈ others, line.WellFormed ∧ line.raw ≠ []) : Stacked others := by
  induction ls generalizing others with
  | nil =>
    obtain rfl := List.map_eq_nil_iff.mp endings
    trivial
  | cons line rest ih =>
    obtain ⟨other, more, rfl, same, endings⟩ := List.map_eq_cons_iff.mp endings
    rw [List.forall_mem_cons] at formed
    cases rest with
    | nil =>
      obtain rfl := List.map_eq_nil_iff.mp endings
      exact formed.1
    | cons next rest => exact .cons formed.1.1 (same ▸ h.2.1) (ih h.2.2 endings formed.2)

theorem rawLines_flatten (text : Text) : (rawLines text).flatten = text := by
  fun_induction rawLines text with
  | case1 => rfl
  | case2 rest ih => simp [ih]
  | case3 c rest _ none ih => simp_all
  | case4 c rest _ line more found ih => simp_all

theorem lines_map_raw (text : Text) : (lines text).map Line.raw = rawLines text := by
  simp [lines, Function.comp_def]

@[simp] theorem lines_flatMap_raw (text : Text) : (lines text).flatMap Line.raw = text := by
  rw [List.flatMap_def, lines_map_raw, rawLines_flatten]

/-- Up to its first line feed a text is one line. -/
theorem rawLines_append_feed {front : Text} (noBreak : '\n' ∉ front) (rest : Text) :
    rawLines (front ++ '\n' :: rest) = (front ++ ['\n']) :: rawLines rest := by
  induction front with
  | nil => simp [rawLines]
  | cons c front ih =>
    simp only [List.mem_cons, not_or] at noBreak
    simp [rawLines, ih noBreak.2, Ne.symm noBreak.1]

theorem rawLines_of_noBreak {text : Text} (noBreak : '\n' ∉ text) (someText : text ≠ []) :
    rawLines text = [text] := by
  induction text with
  | nil => exact absurd rfl someText
  | cons c text ih =>
    simp only [List.mem_cons, not_or] at noBreak
    cases text with
    | nil => simp [rawLines, Ne.symm noBreak.1]
    | cons d text =>
      have inner := ih noBreak.2 (by simp)
      rw [rawLines, if_neg (Ne.symm noBreak.1), inner]

/-- A line that is ended comes off the front of a text. -/
theorem lines_append {line : Line} (formed : line.WellFormed) (ended : line.ending ≠ [])
    (rest : Text) : lines (line.raw ++ rest) = line :: lines rest := by
  have again := Line.ofRaw_raw formed
  obtain ⟨body, ending⟩ := line
  have inner := formed.noBreak
  simp only [Line.raw] at again ended inner ⊢
  obtain rfl | rfl | rfl := formed.ending
  · exact absurd rfl ended
  · simp [lines, rawLines_append_feed inner, again]
  · have split : body ++ ['\r', '\n'] ++ rest = (body ++ ['\r']) ++ '\n' :: rest := by simp
    have first : (body ++ ['\r']) ++ ['\n'] = body ++ ['\r', '\n'] := by simp
    rw [split, lines, rawLines_append_feed (by simpa using inner), first]
    simp [again, lines]

theorem lines_single {line : Line} (formed : line.WellFormed) (someText : line.raw ≠ []) :
    lines line.raw = [line] := by
  by_cases ended : line.ending = []
  · have noBreak : '\n' ∉ line.raw := by simpa [Line.raw, ended] using formed.noBreak
    simp [lines, rawLines_of_noBreak noBreak someText, Line.ofRaw_raw formed]
  · simpa [lines, rawLines] using lines_append formed ended []

/-- **Writing and reading lines.** Lines that can stand in a file are read back as they are. -/
theorem lines_of_stacked {ls : List Line} (h : Stacked ls) : lines (ls.flatMap Line.raw) = ls := by
  fun_induction Stacked ls with
  | case1 => rfl
  | case2 line => simpa using lines_single h.1 h.2
  | case3 line rest _ ih =>
    rw [List.flatMap_cons, lines_append h.1 h.2.1, ih h.2.2]

/-- The line that ends at the first line feed. -/
theorem exists_line_of_feed {front : Text} (noBreak : '\n' ∉ front) :
    ∃ line : Line, line.WellFormed ∧ line.ending ≠ [] ∧ line.raw = front ++ ['\n'] := by
  by_cases returns : front.getLast? = some '\r'
  · obtain ⟨body, rfl⟩ := List.getLast?_eq_some_iff.mp returns
    have inner : '\n' ∉ body := by simpa using noBreak
    exact ⟨⟨body, ['\r', '\n']⟩, ⟨inner, by simp, by simp⟩, by simp, by simp [Line.raw]⟩
  · exact ⟨⟨front, ['\n']⟩, ⟨noBreak, by simp, fun _ => returns⟩, by simp, rfl⟩

/-- **Reading and writing lines.** The lines of a text can stand in a file. -/
theorem stacked_lines (text : Text) : Stacked (lines text) := by
  induction measured : text.length using Nat.strongRecOn generalizing text with
  | ind size ih =>
    by_cases feeds : '\n' ∈ text
    · obtain ⟨front, rest, rfl, noBreak⟩ := List.eq_append_cons_of_mem feeds
      obtain ⟨line, formed, ended, raw⟩ := exists_line_of_feed noBreak
      have first : front ++ '\n' :: rest = line.raw ++ rest := by simp [raw]
      have shorter : rest.length < size := by
        rw [← measured, List.length_append, List.length_cons]
        omega
      rw [first, lines_append formed ended]
      exact Stacked.cons formed ended (ih _ shorter rest rfl)
    · by_cases empty : text = []
      · subst empty
        trivial
      · have formed : Line.WellFormed ⟨text, []⟩ := ⟨feeds, by simp, by simp⟩
        have whole : text = Line.raw ⟨text, []⟩ := by simp [Line.raw]
        rw [whole, lines_single formed (by simpa [Line.raw] using empty)]
        exact ⟨formed, by simpa [Line.raw] using empty⟩

/-! ### Raw lines -/

/-- A raw line with its line feed. -/
def Ended (line : Text) : Prop := ∃ body, '\n' ∉ body ∧ line = body ++ ['\n']

/-- Raw lines that can stand one after the other in a file. -/
def Lined : List Text → Prop
  | [] => True
  | [line] => Ended line ∨ (line ≠ [] ∧ '\n' ∉ line)
  | line :: rest => Ended line ∧ Lined rest

theorem Lined.cons {line : Text} {rest : List Text} (ended : Ended line) (h : Lined rest) :
    Lined (line :: rest) := by
  cases rest with
  | nil => exact .inl ended
  | cons next rest => exact ⟨ended, h⟩

theorem Lined.tail {line : Text} {rest : List Text} (h : Lined (line :: rest)) : Lined rest := by
  cases rest with
  | nil => trivial
  | cons next rest => exact h.2

theorem Lined.ended {line : Text} {rest : List Text} (h : Lined (line :: rest))
    (more : rest ≠ []) : Ended line := by
  cases rest with
  | nil => exact absurd rfl more
  | cons next rest => exact h.1

theorem Lined.of_append {front back : List Text} (h : Lined (front ++ back)) : Lined back := by
  induction front with
  | nil => exact h
  | cons line front ih => exact ih (Lined.tail h)

theorem Ended.of_append {front line : Text} (h : Ended (front ++ line)) (noBreak : '\n' ∉ front) :
    Ended line := by
  obtain ⟨body, inner, whole⟩ := h
  obtain ⟨more, rfl⟩ | ⟨more, rfl⟩ := List.prefix_or_prefix_of_prefix (List.prefix_append front line)
    (whole ▸ List.prefix_append body ['\n'])
  · rw [List.append_assoc] at whole
    exact ⟨more, fun feeds => inner (List.mem_append_right _ feeds), List.append_cancel_left whole⟩
  · rw [List.append_assoc] at whole
    cases more with
    | nil => exact ⟨[], by simp, by simpa using whole⟩
    | cons c more =>
      obtain ⟨rfl, -⟩ := List.cons.inj (List.append_cancel_left whole)
      exact absurd (List.mem_append_right body (List.mem_cons_self ..)) noBreak

/-- A line without its start. -/
theorem Lined.of_append_cons {front line : Text} {rest : List Text}
    (h : Lined ((front ++ line) :: rest)) (noBreak : '\n' ∉ front) (someLine : line ≠ []) :
    Lined (line :: rest) := by
  cases rest with
  | nil =>
    obtain ended | ⟨-, inner⟩ := h
    · exact .inl (ended.of_append noBreak)
    · exact .inr ⟨someLine, fun feeds => inner (List.mem_append_right _ feeds)⟩
  | cons next rest => exact ⟨h.1.of_append noBreak, h.2⟩

theorem Lined.ne_nil {line : Text} {rest : List Text} (h : Lined (line :: rest)) : line ≠ [] := by
  by_cases ended : Ended line
  · obtain ⟨body, -, rfl⟩ := ended
    simp
  · cases rest with
    | nil => exact (Or.resolve_left h ended).1
    | cons next rest => exact absurd h.1 ended

theorem lined_rawLines (text : Text) : Lined (rawLines text) := by
  induction size : text.length using Nat.strongRecOn generalizing text with
  | ind n ih =>
    subst size
    by_cases feeds : '\n' ∈ text
    · obtain ⟨front, rest, rfl, noBreak⟩ := List.eq_append_cons_of_mem feeds
      rw [rawLines_append_feed noBreak]
      refine Lined.cons ⟨front, noBreak, rfl⟩ (ih rest.length ?_ rest rfl)
      simp only [List.length_append, List.length_cons]
      omega
    · by_cases empty : text = []
      · subst empty
        trivial
      · rw [rawLines_of_noBreak feeds empty]
        exact .inr ⟨empty, feeds⟩

theorem Ended.count {line : Text} (h : Ended line) : line.count '\n' = 1 := by
  obtain ⟨body, noBreak, rfl⟩ := h
  simp [List.count_append, List.count_eq_zero_of_not_mem noBreak]

theorem Ended.getLast? {line : Text} (h : Ended line) (front : Text) :
    (front ++ line).getLast? = some '\n' := by
  obtain ⟨body, -, rfl⟩ := h
  simp

theorem count_flatten {lines : List Text} (h : ∀ line ∈ lines, Ended line) :
    lines.flatten.count '\n' = lines.length := by
  induction lines with
  | nil => rfl
  | cons line rest ih =>
    rw [List.forall_mem_cons] at h
    rw [List.flatten_cons, List.count_append, h.1.count, ih h.2, List.length_cons, Nat.add_comm]

theorem getLast?_flatten {lines : List Text} (h : ∀ line ∈ lines, Ended line)
    (someLine : lines ≠ []) : lines.flatten.getLast? = some '\n' := by
  obtain ⟨front, line, rfl⟩ : ∃ front line, lines = front ++ [line] :=
    ⟨_, _, (List.dropLast_concat_getLast someLine).symm⟩
  rw [List.flatten_append, List.flatten_singleton]
  exact (h line (by simp)).getLast? _

/-- Only the last line may be without a line feed. -/
theorem Lined.ended_take {lines : List Text} (h : Lined lines) {count : Nat}
    (fewer : count < lines.length) : ∀ line ∈ lines.take count, Ended line := by
  induction lines generalizing count with
  | nil => simp
  | cons line rest ih =>
    cases count with
    | zero => simp
    | succ count =>
      rw [List.take_succ_cons, List.forall_mem_cons]
      have fewer : count < rest.length := by simpa using fewer
      refine ⟨h.ended ?_, ih h.tail fewer⟩
      exact List.ne_nil_of_length_pos (Nat.lt_of_le_of_lt (Nat.zero_le count) fewer)

theorem Lined.ended_of_getLast? {lines : List Text} (h : Lined lines) {line : Text}
    (member : line ∈ lines) (last : line.getLast? = some '\n') : Ended line := by
  induction lines with
  | nil => cases member
  | cons first rest ih =>
    obtain rfl | below := List.mem_cons.mp member
    · cases rest with
      | nil => exact h.resolve_right fun unended => unended.2 (List.mem_of_getLast? last)
      | cons next rest => exact h.1
    · exact ih h.tail below

/-- The line of a character is found by counting the line feeds before it. -/
theorem exists_line_at (before : Text) (c : Char) (rest : Text) :
    ∃ line, (rawLines (before ++ c :: rest))[before.count '\n']? = some line ∧ c ∈ line := by
  induction before with
  | nil =>
    rw [List.nil_append, rawLines]
    split
    · exact ⟨[c], rfl, by simp⟩
    · split
      · exact ⟨[c], rfl, by simp⟩
      · exact ⟨_, rfl, List.mem_cons_self ..⟩
  | cons d before ih =>
    obtain ⟨line, found, inside⟩ := ih
    rw [List.cons_append, rawLines, List.count_cons]
    by_cases feed : d = '\n'
    · rw [if_pos feed]
      exact ⟨line, by simpa [feed] using found, inside⟩
    · rw [if_neg feed]
      cases more : rawLines (before ++ c :: rest) with
      | nil => simp [more] at found
      | cons first others =>
        rw [more] at found
        have same : (d == '\n') = false := by simpa using feed
        simp only [same, Bool.false_eq_true, if_false, Nat.add_zero]
        cases atLine : before.count '\n' with
        | zero =>
          rw [atLine] at found
          obtain rfl : first = line := by simpa using found
          exact ⟨d :: first, rfl, List.mem_cons_of_mem _ inside⟩
        | succ count =>
          rw [atLine] at found
          exact ⟨line, by simpa using found, inside⟩

theorem rawLines_of_lined {lines : List Text} (h : Lined lines) : rawLines lines.flatten = lines := by
  induction lines with
  | nil => rfl
  | cons line rest ih =>
    by_cases ended : Ended line
    · obtain ⟨body, noBreak, rfl⟩ := ended
      rw [List.flatten_cons, List.append_assoc, List.singleton_append,
        rawLines_append_feed noBreak, ih h.tail]
    · cases rest with
      | nil =>
        obtain ⟨notEmpty, noBreak⟩ := Or.resolve_left h ended
        rw [List.flatten_cons, List.flatten_nil, List.append_nil,
          rawLines_of_noBreak noBreak notEmpty]
      | cons next rest => exact absurd h.1 ended

end Text

end Prefill
