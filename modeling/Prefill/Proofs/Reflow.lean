import Prefill.Proofs.Placing
import Prefill.Proofs.Tidying

/-!
Reading a tidy file. Where no lexeme and no comment runs across the end of a line with regions, the
file and the tidy file have the same lexemes; these only stand elsewhere (`exists_shift`). A lexeme
moves with its line, and the text between two lexemes with no such line end between them stays.
-/

namespace Prefill

open Text

namespace Region

open Go Go.Lexeme

/-- The text of the lines of some slots. -/
def textOf (slots : List Slot) : Text := (slots.map Slot.line).flatten

theorem textOf_cons (slot : Slot) (rest : List Slot) :
    textOf (slot :: rest) = slot.line ++ textOf rest := rfl

theorem textOf_append (front back : List Slot) :
    textOf (front ++ back) = textOf front ++ textOf back := by
  simp [textOf]

/-! ### Lines without regions -/

section

variable {front : List Slot} {behind : Bool} (bare : ∀ slot ∈ front, slot.regions = [])
  (noGap : ∀ slot, front.head? = some slot → (behind && slot.isGap) = false) (rest : List Slot)
include bare noGap

theorem tidy_bare :
    tidy behind (front ++ rest) = front ++ tidy (behind && front.isEmpty) rest := by
  induction front generalizing behind with
  | nil => simp
  | cons slot front ih =>
    rw [List.forall_mem_cons] at bare
    rw [List.cons_append, tidy, if_neg (by simp [noGap slot rfl]), if_pos (by simp [bare.1]),
      ih bare.2 fun _ _ => rfl]
    simp

theorem tidyIndex_bare (rest : List Slot) (i : Nat) :
    tidyIndex behind (front ++ rest) (front.length + i) =
      front.length + tidyIndex (behind && front.isEmpty) rest i := by
  induction front generalizing behind with
  | nil => simp
  | cons slot front ih =>
    rw [List.forall_mem_cons] at bare
    have size : (slot :: front).length + i = front.length + i + 1 := by
      simp only [List.length_cons]
      omega
    rw [size, List.cons_append, tidyIndex, if_neg (by simp [noGap slot rfl]),
      if_pos (by simp [bare.1]), ih bare.2 fun _ _ => rfl]
    simp only [Bool.false_and, List.isEmpty_cons, Bool.and_false, List.length_cons]
    omega

theorem tidyIndex_within {i : Nat} (within : i < front.length) :
    tidyIndex behind (front ++ rest) i = i := by
  induction front generalizing behind i with
  | nil => simp at within
  | cons slot front ih =>
    rw [List.forall_mem_cons] at bare
    cases i with
    | zero => rfl
    | succ i =>
      rw [List.cons_append, tidyIndex, if_neg (by simp [noGap slot rfl]),
        if_pos (by simp [bare.1]), ih bare.2 (fun _ _ => rfl) (by simpa using within)]

theorem tidyIndex_all_bare (i : Nat) : tidyIndex behind front i = i := by
  by_cases within : i < front.length
  · have index := tidyIndex_within bare noGap [] within
    rwa [List.append_nil] at index
  · obtain ⟨j, rfl⟩ := Nat.exists_eq_add_of_le (Nat.le_of_not_lt within)
    have index := tidyIndex_bare bare noGap [] j
    rwa [List.append_nil, tidyIndex] at index

/-! ### Lines up to the next one with regions -/

theorem tidyIndex_chunk_within {slot : Slot} {i : Nat} (within : i ≤ front.length) :
    tidyIndex behind (front ++ slot :: rest) i = i := by
  obtain rfl | before := Nat.eq_or_lt_of_le within
  · exact tidyIndex_bare bare noGap (slot :: rest) 0
  · exact tidyIndex_within bare noGap (slot :: rest) before

variable {slot : Slot} (tagged : slot.regions ≠ [])
include tagged

theorem tidy_chunk (ended : Ended slot.line) : tidy behind (front ++ slot :: rest) =
    front ++ slot :: ⟨['\n'], []⟩ :: tidy true rest := by
  rw [tidy_bare bare noGap, tidy, if_neg (by simp [Slot.isGap, tagged]), if_neg (by simpa using tagged),
    terminated_of_ended ended]

theorem tidyIndex_chunk (i : Nat) : tidyIndex behind (front ++ slot :: rest) (front.length + 1 + i) =
    front.length + 2 + tidyIndex true rest i := by
  rw [Nat.add_assoc, tidyIndex_bare bare noGap, Nat.add_comm 1, tidyIndex,
    if_neg (by simp [Slot.isGap, tagged]), if_neg (by simpa using tagged)]
  omega

end

/-! ### Reading blank lines and whole lines -/

theorem readsAs_of_blank {text : Text} (h : blank text = true) (p : Position) :
    ReadsAs p true text [] [] true := by
  induction text generalizing p with
  | nil => exact fun _ => rfl
  | cons c rest ih =>
    simp only [blank, List.all_cons, Bool.and_eq_true] at h
    have first := readsAs_blank h.1 p true
    have joined := first.append (ih h.2 (p.past [c]))
    simpa using joined

theorem column_of_ended {line : Text} (h : Ended line) (p : Position) : (p.past line).column = 1 := by
  obtain ⟨body, -, rfl⟩ := h
  rw [Position.past_append]
  simp [Position.past, Position.next]

/-- Lines with line feeds lead down one line each. -/
theorem past_textOf {slots : List Slot} (ended : ∀ slot ∈ slots, Ended slot.line) (p : Position) :
    (p.past (textOf slots)).line = p.line + slots.length := by
  induction slots generalizing p with
  | nil => rfl
  | cons slot rest ih =>
    rw [List.forall_mem_cons] at ended
    rw [textOf_cons, Position.past_append, ih ended.2, Position.past_line,
      ended.1.count, List.length_cons]
    omega

/-! ### Lexemes of a tidy file -/

/-- Where a lexeme starts or stops. -/
def Marks (ts : List Lexeme) (x : Position) : Prop :=
  ∃ t ∈ ts, x = t.span.start ∨ x = t.span.stop

theorem Marks.mono {ts us : List Lexeme} {x : Position} (h : Marks ts x)
    (all : ∀ t ∈ ts, t ∈ us) : Marks us x := by
  obtain ⟨t, member, here⟩ := h
  exact ⟨t, all t member, here⟩

theorem Marks.append {ts us : List Lexeme} {x : Position} (h : Marks (ts ++ us) x) :
    Marks ts x ∨ Marks us x := by
  obtain ⟨t, member, here⟩ := h
  exact (List.mem_append.mp member).imp (fun first => ⟨t, first, here⟩) fun second =>
    ⟨t, second, here⟩

/-- Lexemes of a text mark points of it. -/
theorem Marks.exists_prefix {p x : Position} {newline : Bool} {text : Text}
    (h : Marks (readFrom p newline text).lexemes x) :
    ∃ before, before <+: text ∧ x = p.past before := by
  obtain ⟨t, member, here⟩ := h
  obtain ⟨before, piece, after, rfl, span⟩ := standsIn_of_mem member
  rw [span] at here
  obtain rfl | rfl := here
  · exact ⟨before, ⟨piece ++ after, by simp⟩, rfl⟩
  · exact ⟨before ++ piece, List.prefix_append .., rfl⟩

theorem Marks.line_le {p x : Position} {newline : Bool} {text : Text}
    (h : Marks (readFrom p newline text).lexemes x) : p.line ≤ x.line := by
  obtain ⟨before, -, rfl⟩ := h.exists_prefix
  exact Position.line_le_past _ _

theorem Marks.byte_sub {p x : Position} {newline : Bool} {front text : Text}
    (h : Marks (readFrom (p.past front) newline text).lexemes x) :
    x.byte - p.byte = byteLength front + (x.byte - (p.past front).byte) := by
  obtain ⟨before, -, rfl⟩ := h.exists_prefix
  simp only [Position.past_byte]
  omega

/-- Lexemes move as the points do that they mark. -/
theorem map_moved_congr {ts : List Lexeme} {move move' : Position → Position}
    (same : ∀ x, Marks ts x → move x = move' x) :
    ts.map (Lexeme.moved move) = ts.map (Lexeme.moved move') := by
  refine List.map_congr_left fun t member => ?_
  have start := same t.span.start ⟨t, member, .inl rfl⟩
  have stop := same t.span.stop ⟨t, member, .inr rfl⟩
  simp only [Lexeme.moved, Span.moved, start, stop]

section

variable {p p' x y : Position} {newline newline' : Bool} {part : Text} {ts : List Lexeme}
  {comments : List Comment} (reads : ReadsAs p newline part ts comments newline')
include reads

/-- Lexemes of a text that is read on its own mark points of it. -/
theorem exists_prefix_of_readsAs (marks : Marks ts x) :
    ∃ before, before <+: part ∧ x = p.past before := by
  have whole := reads.lexemes []
  rw [List.append_nil] at whole
  have inText : Marks (readFrom p newline part).lexemes x := by
    rw [whole]
    exact marks.mono fun t member => List.mem_append_left _ member
  exact inText.exists_prefix

/-- Between two points of a text that is read on its own stands the same, wherever the text goes and
whatever follows it. -/
theorem slice_rebased (marks : Marks ts x) (marks' : Marks ts y) (after after' : Text) :
    slice ((Position.rebased p p' x).byte - p'.byte) ((Position.rebased p p' y).byte - p'.byte)
        (part ++ after') =
      slice (x.byte - p.byte) (y.byte - p.byte) (part ++ after) := by
  obtain ⟨a, first, rfl⟩ := exists_prefix_of_readsAs reads marks
  obtain ⟨b, second, rfl⟩ := exists_prefix_of_readsAs reads marks'
  simp only [Position.rebased, Position.past_byte, Nat.add_sub_cancel_left]
  exact slice_congr first second ..

end

/-- The lexemes of a file from a position on, and of its tidy form from another: they are the same,
moved. A lexeme keeps its line, and two lexemes with no regions between them keep the text between
them. -/
structure Shift (p p' : Position) (newline behind : Bool) (slots : List Slot)
    (move : Position → Position) : Prop where
  lexemes : (readFrom p' newline (textOf (tidy behind slots))).lexemes =
    (readFrom p newline (textOf slots)).lexemes.map (Lexeme.moved move)
  byte : ∀ x, Marks (readFrom p newline (textOf slots)).lexemes x → p'.byte ≤ (move x).byte
  line : ∀ x, Marks (readFrom p newline (textOf slots)).lexemes x →
    (move x).line = p'.line + tidyIndex behind slots (x.line - p.line)
  text : ∀ x y, Marks (readFrom p newline (textOf slots)).lexemes x →
    Marks (readFrom p newline (textOf slots)).lexemes y →
    (∀ i slot, slots[i]? = some slot → slot.regions ≠ [] →
      (x.line - p.line ≤ i ↔ y.line - p.line ≤ i)) →
    slice ((move x).byte - p'.byte) ((move y).byte - p'.byte) (textOf (tidy behind slots)) =
      slice (x.byte - p.byte) (y.byte - p.byte) (textOf slots)

section

variable {p p' : Position} {newline : Bool}

/-- The text between two lexemes stays also when it is told from a point further up, with other text
in between. -/
theorem Shift.slice_below {behind : Bool} {slots : List Slot} {move : Position → Position}
    {part part' : Text} (h : Shift (p.past part) (p'.past part') newline behind slots move)
    {x y : Position} (marks : Marks (readFrom (p.past part) newline (textOf slots)).lexemes x)
    (marks' : Marks (readFrom (p.past part) newline (textOf slots)).lexemes y)
    (same : ∀ i slot, slots[i]? = some slot → slot.regions ≠ [] →
      (x.line - (p.past part).line ≤ i ↔ y.line - (p.past part).line ≤ i)) :
    slice ((move x).byte - p'.byte) ((move y).byte - p'.byte)
        (part' ++ textOf (tidy behind slots)) =
      slice (x.byte - p.byte) (y.byte - p.byte) (part ++ textOf slots) := by
  have moved {z : Position}
      (marks : Marks (readFrom (p.past part) newline (textOf slots)).lexemes z) :
      (move z).byte - p'.byte = byteLength part' + ((move z).byte - (p'.past part').byte) := by
    have later := h.byte z marks
    rw [Position.past_byte] at later ⊢
    omega
  rw [moved marks, moved marks', marks.byte_sub, marks'.byte_sub, slice_append, slice_append]
  exact h.text x y marks marks' same

theorem shift_nil (behind : Bool) : Shift p p' newline behind [] fun _ => p' := by
  have only {x : Position} (h : Marks (readFrom p newline (textOf [])).lexemes x) : x = p := by
    obtain ⟨before, whole, rfl⟩ := h.exists_prefix
    rw [List.prefix_nil.mp whole]
    rfl
  refine ⟨rfl, fun _ _ => Nat.le_refl _, fun x marks => ?_, fun x y marks marks' _ => ?_⟩
  · rw [only marks]
    simp [tidyIndex]
  · rw [only marks, only marks', Nat.sub_self, Nat.sub_self]
    rfl

/-- A gap goes. -/
theorem Shift.gap {slot : Slot} {rest : List Slot} {move : Position → Position}
    (isGap : slot.isGap = true) (lined : Lined ((slot :: rest).map Slot.line))
    (h : Shift (p.past slot.line) p' true true rest move) :
    Shift p p' true true (slot :: rest) move := by
  obtain ⟨bare, isBlank⟩ : slot.regions = [] ∧ blank slot.line = true := by
    simpa [Slot.isGap] using isGap
  have read : (readFrom p true (textOf (slot :: rest))).lexemes =
      (readFrom (p.past slot.line) true (textOf rest)).lexemes :=
    (readsAs_of_blank isBlank p).lexemes (textOf rest)
  have tidied : tidy true (slot :: rest) = tidy true rest := by rw [tidy, if_pos (by simp [isGap])]
  have below := Position.past_line p slot.line
  have behind := Position.past_byte p slot.line
  -- Either the line is ended, or it is the last one.
  have feeds : slot.line.count '\n' = 1 ∨ slot.line.count '\n' = 0 ∧ rest = [] := by
    cases rest with
    | nil =>
      obtain ended | ⟨-, noBreak⟩ := lined
      · exact .inl ended.count
      · exact .inr ⟨List.count_eq_zero_of_not_mem noBreak, rfl⟩
    | cons next rest => exact .inl (lined.ended (by simp)).count
  refine ⟨?_, ?_, ?_, ?_⟩
  · rw [read, tidied]
    exact h.lexemes
  · rw [read]
    exact h.byte
  · rw [read]
    intro x marks
    obtain ⟨before, whole, rfl⟩ := marks.exists_prefix
    have above := Position.line_le_past (p.past slot.line) before
    rw [h.line _ marks]
    obtain one | ⟨noneThere, rfl⟩ := feeds
    · have index : ((p.past slot.line).past before).line - p.line =
          ((p.past slot.line).past before).line - (p.past slot.line).line + 1 := by omega
      rw [index, tidyIndex, if_pos (by simp [isGap])]
    · obtain rfl := List.prefix_nil.mp whole
      have index : ((p.past slot.line).past []).line - p.line = 0 := by
        show (p.past slot.line).line - p.line = 0
        omega
      rw [index]
      show p'.line + tidyIndex true [] ((p.past slot.line).line - (p.past slot.line).line) = p'.line
      rw [Nat.sub_self]
      rfl
  · rw [read, tidied]
    intro x y marks marks' same
    rw [textOf_cons, marks.byte_sub, marks'.byte_sub, slice_append]
    refine h.text x y marks marks' fun i other here tagged => ?_
    obtain one | ⟨-, rfl⟩ := feeds
    · have same := same (i + 1) other here tagged
      have above := marks.line_le
      have above' := marks'.line_le
      omega
    · simp at here

/-- Lines without regions stay. -/
theorem shift_bare {behind : Bool} {slots : List Slot} (bare : ∀ slot ∈ slots, slot.regions = [])
    (noGap : ∀ slot, slots.head? = some slot → (behind && slot.isGap) = false)
    (column : p.column = p'.column) :
    Shift p p' newline behind slots (Position.rebased p p') := by
  have tidied : tidy behind slots = slots := by
    have whole := tidy_bare bare noGap []
    rwa [List.append_nil, tidy, List.append_nil] at whole
  refine ⟨?_, ?_, ?_, ?_⟩
  · rw [tidied]
    exact lexemes_moved (fun piece => Position.rebased_past column piece) newline (textOf slots)
  · intro x _
    exact Nat.le_add_right ..
  · intro x marks
    rw [tidyIndex_all_bare bare noGap]
    rfl
  · intro x y marks marks' _
    rw [tidied]
    simp [Position.rebased]

/-- Lines up to one that nothing runs out of are read on their own. -/
theorem exists_readsAs_part {front : List Slot} {slot : Slot}
    (ended : ∀ other ∈ front ++ [slot], Ended other.line) {after : Text}
    (breaks : (readFrom p newline (textOf (front ++ [slot]) ++ after)).BreaksAfter
      (p.line + front.length)) :
    ∃ ts comments, ReadsAs p newline (textOf (front ++ [slot])) ts comments true ∧
      ∀ x, Marks ts x → x.line < (p.past (textOf (front ++ [slot]))).line := by
  have lines := past_textOf ended p
  have last : (textOf (front ++ [slot])).getLast? = some '\n' := by
    rw [textOf_append]
    exact Ended.getLast? (by simpa [textOf] using ended slot (by simp)) _
  have stopLine : (p.past (textOf (front ++ [slot]))).line - 1 = p.line + front.length := by
    rw [List.length_append, List.length_singleton] at lines
    omega
  obtain ⟨ts, comments, reads, bounds⟩ := exists_readsAs last (by rwa [stopLine])
  refine ⟨ts, comments, reads, ?_⟩
  rintro x ⟨t, member, rfl | rfl⟩
  · exact (bounds t member).1
  · exact (bounds t member).2

/-- Lines up to one with regions stay, and one empty line comes behind them. -/
theorem Shift.chunk {behind : Bool} {front rest : List Slot} {slot : Slot}
    {move : Position → Position} (bare : ∀ slot ∈ front, slot.regions = [])
    (noGap : ∀ slot, front.head? = some slot → (behind && slot.isGap) = false)
    (tagged : slot.regions ≠ []) (ended : ∀ other ∈ front ++ [slot], Ended other.line)
    (column : p.column = p'.column)
    (breaks : (readFrom p newline (textOf (front ++ slot :: rest))).BreaksAfter
      (p.line + front.length))
    (h : Shift (p.past (textOf (front ++ [slot]))) (p'.past (textOf (front ++ [slot]) ++ ['\n'])) true
      true rest move) :
    Shift p p' newline behind (front ++ slot :: rest) fun x =>
      if x.line < (p.past (textOf (front ++ [slot]))).line then Position.rebased p p' x
      else move x := by
  have text : textOf (front ++ slot :: rest) = textOf (front ++ [slot]) ++ textOf rest := by
    simp [textOf]
  have tidied : textOf (tidy behind (front ++ slot :: rest)) =
      textOf (front ++ [slot]) ++ (['\n'] ++ textOf (tidy true rest)) := by
    rw [tidy_chunk bare noGap rest tagged (ended slot (by simp))]
    simp [textOf]
  have lines := past_textOf ended p
  rw [List.length_append, List.length_singleton] at lines
  rw [text] at breaks
  obtain ⟨ts, comments, reads, above⟩ := exists_readsAs_part ended breaks
  generalize textOf (front ++ [slot]) = part at *
  have before : (readFrom p newline (textOf (front ++ slot :: rest))).lexemes =
      ts ++ (readFrom (p.past part) true (textOf rest)).lexemes := by
    rw [text, reads.lexemes]
  have feed := readsAs_blank (by decide : isBlank '\n' = true) (p'.past part) true
  have after : (readFrom p' newline (textOf (tidy behind (front ++ slot :: rest)))).lexemes =
      ts.map (Lexeme.moved (Position.rebased p p')) ++
        (readFrom (p'.past (part ++ ['\n'])) true (textOf (tidy true rest))).lexemes := by
    rw [tidied, reads.lexemes_rebased column, feed.lexemes, Position.past_append]
    simp
  have below : (p'.past (part ++ ['\n'])).line = p'.line + front.length + 2 := by
    have feeds := Position.past_line p part
    rw [Position.past_line, List.count_append]
    simp only [List.count_singleton_self]
    omega
  refine ⟨?_, ?_, ?_, ?_⟩
  · rw [before, after, h.lexemes, List.map_append]
    congr 1
    · exact map_moved_congr fun x marks => (if_pos (above x marks)).symm
    · exact map_moved_congr fun x marks => (if_neg (Nat.not_lt.mpr marks.line_le)).symm
  · rw [before]
    intro x marks
    have start := Position.past_byte p' (part ++ ['\n'])
    obtain here | there := marks.append
    · rw [if_pos (above x here)]
      exact Nat.le_add_right ..
    · have later := h.byte x there
      rw [if_neg (Nat.not_lt.mpr there.line_le)]
      omega
  · rw [before]
    intro x marks
    obtain here | there := marks.append
    · have inside := above x here
      rw [if_pos inside, tidyIndex_chunk_within bare noGap rest (by omega)]
      rfl
    · have outside := there.line_le
      have index : x.line - p.line = front.length + 1 + (x.line - (p.past part).line) := by omega
      rw [if_neg (Nat.not_lt.mpr outside), h.line x there, below, index,
        tidyIndex_chunk bare noGap rest tagged]
      omega
  · rw [before]
    intro x y marks marks' same
    have together := same front.length slot (by simp) tagged
    rw [tidied, text]
    -- The line with regions is between a point above its end and one below.
    obtain here | there := marks.append <;> obtain here' | there' := marks'.append
    · rw [if_pos (above x here), if_pos (above y here')]
      exact slice_rebased reads here here' ..
    · have inside := above x here
      have outside := there'.line_le
      omega
    · have outside := there.line_le
      have inside := above y here'
      omega
    · have outside := there.line_le
      have outside' := there'.line_le
      rw [if_neg (Nat.not_lt.mpr outside), if_neg (Nat.not_lt.mpr outside'), ← List.append_assoc]
      refine h.slice_below there there' fun i other found isTagged => ?_
      have same := same (front.length + 1 + i) other (by
        rw [Nat.add_assoc, List.getElem?_append_right (Nat.le_add_right ..), Nat.add_sub_cancel_left,
          Nat.add_comm 1, List.getElem?_cons_succ, found]) isTagged
      omega

theorem exists_first_tagged {slots : List Slot} (h : ¬ ∀ slot ∈ slots, slot.regions = []) :
    ∃ front slot rest, slots = front ++ slot :: rest ∧ (∀ other ∈ front, other.regions = []) ∧
      slot.regions ≠ [] := by
  induction slots with
  | nil => simp at h
  | cons first rest ih =>
    by_cases bare : first.regions = []
    · obtain ⟨front, slot, rest, rfl, bares, tagged⟩ := ih (by simpa [bare] using h)
      exact ⟨first :: front, slot, rest, rfl, List.forall_mem_cons.mpr ⟨bare, bares⟩, tagged⟩
    · exact ⟨[], first, rest, rfl, by simp, bare⟩

/-- Lines before another one have line feeds. -/
theorem ended_part {front rest : List Slot} {slot : Slot}
    (lined : Lined ((front ++ slot :: rest).map Slot.line)) (ended : Ended slot.line) :
    ∀ other ∈ front ++ [slot], Ended other.line := by
  intro other member
  obtain before | only := List.mem_append.mp member
  · have fewer : front.length < ((front ++ slot :: rest).map Slot.line).length := by simp
    apply lined.ended_take fewer
    rw [List.map_append, List.take_left' (by simp)]
    exact List.mem_map_of_mem before
  · rw [List.mem_singleton.mp only]
    exact ended

/-- The lines of a file up to one with regions, with the rest of the file shifted. -/
theorem exists_shift_chunk {behind : Bool} {front tail : List Slot} {slot : Slot}
    (lined : Lined ((front ++ slot :: tail).map Slot.line))
    (ended : ∀ other ∈ front ++ slot :: tail, other.regions ≠ [] → Ended other.line)
    (breaks : ∀ i other, (front ++ slot :: tail)[i]? = some other → other.regions ≠ [] →
      (readFrom p newline (textOf (front ++ slot :: tail))).BreaksAfter (p.line + i))
    (column : p.column = p'.column) (bare : ∀ other ∈ front, other.regions = [])
    (noGap : ∀ first, front.head? = some first → (behind && first.isGap) = false)
    (tagged : slot.regions ≠ [])
    (rest : ∀ q q' : Position, q.column = 1 → q'.column = 1 → Lined (tail.map Slot.line) →
      (∀ i other, tail[i]? = some other → other.regions ≠ [] →
        (readFrom q true (textOf tail)).BreaksAfter (q.line + i)) →
      ∃ move, Shift q q' true true tail move) :
    ∃ move, Shift p p' newline behind (front ++ slot :: tail) move := by
  have endedPart := ended_part lined (ended slot (by simp) tagged)
  have here := breaks front.length slot (by simp) tagged
  have text : textOf (front ++ slot :: tail) = textOf (front ++ [slot]) ++ textOf tail := by
    simp [textOf]
  obtain ⟨ts, comments, reads, -⟩ := exists_readsAs_part endedPart (by rwa [← text])
  have lines := past_textOf endedPart p
  rw [List.length_append, List.length_singleton] at lines
  have start : (p.past (textOf (front ++ [slot]))).column = 1 := by
    have last : Ended (textOf [slot]) := by
      simpa [textOf] using endedPart slot (by simp)
    rw [textOf_append, Position.past_append]
    exact column_of_ended last _
  have start' : (p'.past (textOf (front ++ [slot]) ++ ['\n'])).column = 1 := by
    rw [Position.past_append]
    rfl
  have linedTail : Lined (tail.map Slot.line) := by
    rw [List.map_append] at lined
    exact Lined.tail lined.of_append
  obtain ⟨move, shift⟩ := rest _ _ start start' linedTail fun i other found tagged => by
    have index : (front ++ slot :: tail)[front.length + (i + 1)]? = some other := by
      rw [List.getElem?_append_right (Nat.le_add_right ..), Nat.add_sub_cancel_left,
        List.getElem?_cons_succ, found]
    have stays := breaks _ other index tagged
    rw [text, reads (textOf tail)] at stays
    rw [lines, Nat.add_assoc, Nat.add_assoc, Nat.add_comm 1]
    exact stays.mono (fun t => List.mem_append_right _) fun t => List.mem_append_right _
  exact ⟨_, shift.chunk bare noGap tagged endedPart column here⟩

/-- **The lexemes of a tidy file** are the lexemes of the file, moved. -/
theorem exists_shift {behind : Bool} {slots : List Slot} (lined : Lined (slots.map Slot.line))
    (ended : ∀ slot ∈ slots, slot.regions ≠ [] → Ended slot.line)
    (breaks : ∀ i slot, slots[i]? = some slot → slot.regions ≠ [] →
      (readFrom p newline (textOf slots)).BreaksAfter (p.line + i))
    (start : behind = true → newline = true ∧ p'.column = 1)
    (column : slots ≠ [] → p.column = p'.column) :
    ∃ move, Shift p p' newline behind slots move := by
  induction size : slots.length using Nat.strongRecOn generalizing slots p p' newline behind with
  | ind n ih =>
    subst size
    cases slots with
    | nil => exact ⟨_, shift_nil behind⟩
    | cons slot rest =>
      by_cases gap : (behind && slot.isGap) = true
      · obtain ⟨rfl, isGap⟩ : behind = true ∧ slot.isGap = true := by simpa using gap
        obtain ⟨rfl, first⟩ := start rfl
        obtain ⟨-, isBlank⟩ : slot.regions = [] ∧ blank slot.line = true := by
          simpa [Slot.isGap] using isGap
        have read := readsAs_of_blank isBlank p (textOf rest)
        have endedHere (more : rest ≠ []) : Ended slot.line := lined.ended (by simpa using more)
        obtain ⟨move, shift⟩ := ih rest.length (Nat.lt_succ_self _) (Lined.tail lined)
          (fun other member => ended other (List.mem_cons_of_mem _ member))
          (fun i other found tagged => by
            have line := (endedHere (List.ne_nil_of_mem (List.mem_of_getElem? found))).count
            have stays := breaks (i + 1) other found tagged
            rw [textOf_cons, read] at stays
            rw [Position.past_line, line, Nat.add_assoc, Nat.add_comm 1]
            exact stays)
          (fun _ => ⟨rfl, first⟩)
          (fun more => by rw [column_of_ended (endedHere more), first]) rfl
        exact ⟨move, shift.gap isGap lined⟩
      · have same := column (List.cons_ne_nil _ _)
        have noGap {front back : List Slot} (whole : slot :: rest = front ++ back) (first : Slot)
            (isFirst : front.head? = some first) : (behind && first.isGap) = false := by
          obtain ⟨more, rfl⟩ := List.head?_eq_some_iff.mp isFirst
          obtain ⟨rfl, -⟩ := List.cons.inj whole
          simpa using gap
        by_cases bare : ∀ other ∈ slot :: rest, other.regions = []
        · exact ⟨_, shift_bare bare (noGap (List.append_nil _).symm) same⟩
        · obtain ⟨front, other, tail, whole, bare, tagged⟩ := exists_first_tagged bare
          have noGap := noGap whole
          have shorter : tail.length < (slot :: rest).length := by
            rw [whole, List.length_append, List.length_cons]
            omega
          rw [whole] at lined ended breaks ⊢
          refine exists_shift_chunk lined ended breaks same bare noGap tagged ?_
          intro q q' start start' lined breaks
          exact ih tail.length shorter lined (fun slot member => ended slot (by simp [member])) breaks
            (fun _ => ⟨rfl, start'⟩) (fun _ => start.trans start'.symm) rfl

end

/-! ### Whole files -/

/-- The lexemes of a file and of its tidy form are the same, moved. A lexeme keeps its line, and two
lexemes with no regions between them keep the text between them. -/
structure TidyMove (slots : List Slot) (move : Position → Position) : Prop where
  lexemes : (scan (textOf (tidy false slots))).lexemes =
    (scan (textOf slots)).lexemes.map (Lexeme.moved move)
  line : ∀ x, Marks (scan (textOf slots)).lexemes x →
    (move x).line = tidyIndex false slots (x.line - 1) + 1
  text : ∀ x y, Marks (scan (textOf slots)).lexemes x → Marks (scan (textOf slots)).lexemes y →
    (∀ i slot, slots[i]? = some slot → slot.regions ≠ [] → (x.line ≤ i + 1 ↔ y.line ≤ i + 1)) →
    slice (move x).byte (move y).byte (textOf (tidy false slots)) =
      slice x.byte y.byte (textOf slots)

theorem Marks.one_le_line {text : Text} {x : Position} (h : Marks (scan text).lexemes x) :
    1 ≤ x.line := by
  obtain ⟨mark, body, -, -, read⟩ := exists_scan text
  rw [read] at h
  exact Nat.le_trans (Position.line_le_past Position.origin mark) h.line_le

theorem tidyMove_bare {slots : List Slot} (bare : ∀ slot ∈ slots, slot.regions = []) :
    TidyMove slots id := by
  have noGap (slot : Slot) (_ : slots.head? = some slot) : (false && slot.isGap) = false := rfl
  have tidied : tidy false slots = slots := by
    have whole := tidy_bare bare noGap []
    rwa [List.append_nil, tidy, List.append_nil] at whole
  refine ⟨?_, fun x marks => ?_, fun x y _ _ _ => ?_⟩
  · rw [tidied, Lexeme.moved_id, List.map_id]
  · have positive := marks.one_le_line
    rw [tidyIndex_all_bare bare noGap, Nat.sub_add_cancel positive]
    rfl
  · rw [tidied]
    rfl

/-- The start of a first line without regions before it stays. -/
theorem textOf_tidy_cons (slot : Slot) (ended : slot.regions ≠ [] → Ended slot.line)
    (rest : List Slot) : textOf (tidy false (slot :: rest)) = slot.line ++
      textOf (if slot.regions.isEmpty then tidy false rest else ⟨['\n'], []⟩ :: tidy true rest) := by
  rw [tidy, if_neg (by simp)]
  split
  · rfl
  · rename_i tagged
    rw [terminated_of_ended (ended (by simpa using tagged))]
    rfl

/-! ### A byte-order mark -/

section

variable {mark body : Text} {regions : List (List Text)} {rest : List Slot}

theorem exists_slot_with_mark {i : Nat} {slot : Slot}
    (found : (⟨body, regions⟩ :: rest)[i]? = some slot) :
    ∃ other, (⟨mark ++ body, regions⟩ :: rest)[i]? = some other ∧ slot.regions = other.regions := by
  cases i with
  | zero =>
    obtain rfl : (⟨body, regions⟩ : Slot) = slot := by simpa using found
    exact ⟨_, rfl, rfl⟩
  | succ i => exact ⟨slot, found, rfl⟩

theorem line_past_mark (noFeed : '\n' ∉ mark) : (Position.origin.past mark).line = 1 := by
  rw [Position.past_line, List.count_eq_zero_of_not_mem noFeed]
  rfl

/-- A file that is nothing but a byte-order mark has no regions. -/
theorem bare_of_mark (noFeed : '\n' ∉ mark)
    (lined : Lined ((⟨mark, regions⟩ :: rest : List Slot).map Slot.line))
    (ended : regions ≠ [] → Ended mark) :
    ∀ slot ∈ (⟨mark, regions⟩ :: rest : List Slot), slot.regions = [] := by
  have notEnded : ¬ Ended mark := by
    rintro ⟨_, -, rfl⟩
    simp at noFeed
  have last : rest = [] := by
    by_contra more
    exact notEnded (lined.ended (by simpa using more))
  have bare : regions = [] := by
    by_contra tagged
    exact notEnded (ended tagged)
  simp [last, bare]

variable (noFeed : '\n' ∉ mark) (ended : regions ≠ [] → Ended (mark ++ body))
  (read : ∀ after, scan (mark ++ body ++ after) =
    readFrom (Position.origin.past mark) false (body ++ after))
include noFeed ended read

/-- A file behind a byte-order mark is read from there. -/
theorem tidyMove_of_shift {move : Position → Position}
    (shift : Shift (Position.origin.past mark) (Position.origin.past mark) false false
      (⟨body, regions⟩ :: rest) move) :
    TidyMove (⟨mark ++ body, regions⟩ :: rest) move := by
  have text : textOf (⟨mark ++ body, regions⟩ :: rest) =
      mark ++ textOf (⟨body, regions⟩ :: rest) := by
    simp [textOf]
  have scanned : scan (textOf (⟨mark ++ body, regions⟩ :: rest)) =
      readFrom (Position.origin.past mark) false (textOf (⟨body, regions⟩ :: rest)) := read _
  have first := textOf_tidy_cons ⟨mark ++ body, regions⟩ ended rest
  have firstBody := textOf_tidy_cons ⟨body, regions⟩
    (fun tagged => (ended tagged).of_append noFeed) rest
  have tidied : textOf (tidy false (⟨mark ++ body, regions⟩ :: rest)) =
      mark ++ textOf (tidy false (⟨body, regions⟩ :: rest)) := by
    rw [first, firstBody, List.append_assoc]
  have scanned' : scan (textOf (tidy false (⟨mark ++ body, regions⟩ :: rest))) =
      readFrom (Position.origin.past mark) false
        (textOf (tidy false (⟨body, regions⟩ :: rest))) := by
    rw [first, firstBody]
    exact read _
  refine ⟨?_, ?_, ?_⟩
  · rw [scanned, scanned']
    exact shift.lexemes
  · rw [scanned]
    intro x marks
    have index : tidyIndex false (⟨mark ++ body, regions⟩ :: rest) (x.line - 1) =
        tidyIndex false (⟨body, regions⟩ :: rest) (x.line - 1) := by
      cases x.line - 1 <;> rfl
    rw [shift.line x marks, line_past_mark noFeed, index, Nat.add_comm]
  · rw [scanned, tidied, text]
    intro x y marks marks' same
    refine shift.slice_below marks marks' fun i slot found tagged => ?_
    obtain ⟨other, here, eq⟩ := exists_slot_with_mark found
    have same := same i other here (eq ▸ tagged)
    rw [line_past_mark noFeed]
    omega

end

/-- **A tidy file** is read as the file is, with its lexemes moved. -/
theorem exists_tidyMove {slots : List Slot} (lined : Lined (slots.map Slot.line))
    (ended : ∀ slot ∈ slots, slot.regions ≠ [] → Ended slot.line)
    (breaks : ∀ i slot, slots[i]? = some slot → slot.regions ≠ [] →
      (scan (textOf slots)).BreaksAfter (i + 1)) :
    ∃ move, TidyMove slots move := by
  cases slots with
  | nil => exact ⟨id, tidyMove_bare (by simp)⟩
  | cons slot rest =>
    obtain ⟨line, regions⟩ := slot
    obtain ⟨mark, body, rfl, noFeed, read⟩ := scan_append lined.ne_nil
    by_cases empty : body = []
    · subst empty
      rw [List.append_nil] at lined ended ⊢
      exact ⟨id, tidyMove_bare (bare_of_mark noFeed lined (ended _ (List.mem_cons_self ..)))⟩
    · rw [List.forall_mem_cons] at ended
      obtain ⟨move, shift⟩ : ∃ move, Shift (Position.origin.past mark) (Position.origin.past mark)
          false false (⟨body, regions⟩ :: rest) move := by
        apply exists_shift
        · exact Lined.of_append_cons lined noFeed empty
        · exact List.forall_mem_cons.mpr
            ⟨fun tagged => (ended.1 tagged).of_append noFeed, ended.2⟩
        · intro i slot found tagged
          obtain ⟨other, here, same⟩ := exists_slot_with_mark found
          have stays := breaks i other here (same ▸ tagged)
          rw [textOf_cons, read] at stays
          rw [line_past_mark noFeed, Nat.add_comm]
          exact stays
        · nofun
        · exact fun _ => rfl
      exact ⟨move, tidyMove_of_shift noFeed ended.1 read shift⟩

end Region

end Prefill
