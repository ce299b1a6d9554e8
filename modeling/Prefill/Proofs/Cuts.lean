import Prefill.Text.Basic

/-!
Where a text is cut: at the first place of a mark, and at a byte. What is cut off the front of a
text does not depend on what follows the place of the cut.
-/

namespace Prefill

open Text

namespace Text

/-! ## At a mark -/

theorem strip?_append {lead part : Text} (within : lead.length ≤ part.length) (after : Text) :
    strip? lead (part ++ after) = (strip? lead part).map (· ++ after) := by
  induction lead generalizing part with
  | nil => rfl
  | cons c lead ih =>
    cases part with
    | nil => simp at within
    | cons d part =>
      simp only [List.cons_append, strip?]
      split
      · exact ih (by simpa using within)
      · rfl

/-- A cut within the first part of a text does not depend on the second. -/
theorem cutAt?_congr {needle part after before tail : Text} (after' : Text)
    (cut : cutAt? needle (part ++ after) = some (before, tail)) (notEmpty : needle ≠ [])
    (within : before.length + needle.length ≤ part.length) :
    ∃ left, cutAt? needle (part ++ after') = some (before, left) := by
  induction part generalizing before with
  | nil =>
    have positive := List.length_pos_iff.mpr notEmpty
    simp only [List.length_nil] at within
    omega
  | cons c part ih =>
    have fits : needle.length ≤ (c :: part).length := by omega
    have here (rest : Text) : strip? needle (c :: (part ++ rest)) =
        (strip? needle (c :: part)).map (· ++ rest) := strip?_append fits rest
    simp only [List.cons_append, cutAt?, here] at cut ⊢
    cases found : strip? needle (c :: part) with
    | some left =>
      obtain ⟨rfl, -⟩ := by simpa [found] using cut
      exact ⟨_, rfl⟩
    | none =>
      simp only [found, Option.map_none, Option.map_eq_some_iff] at cut
      obtain ⟨⟨before', tail'⟩, inner, eq⟩ := cut
      obtain ⟨rfl, rfl⟩ := by simpa using eq
      simp only [List.length_cons] at within
      obtain ⟨left, again⟩ := ih inner (by omega)
      exact ⟨left, by simp [again]⟩

/-- A text is cut at the first mark. -/
theorem not_mem_of_cutAt? {mark : Char} {text front tail : Text}
    (h : cutAt? [mark] text = some (front, tail)) : mark ∉ front := by
  fun_induction cutAt? [mark] text generalizing front tail with
  | case1 => simp_all
  | case2 => simp_all
  | case3 c rest left found =>
    obtain ⟨rfl, rfl⟩ := by simpa using h
    exact List.not_mem_nil
  | case4 c rest missed ih =>
    obtain ⟨⟨front', tail'⟩, found, eq⟩ := Option.map_eq_some_iff.1 h
    obtain ⟨rfl, rfl⟩ := by simpa using eq
    have differ : mark ≠ c := by
      rintro rfl
      simp [strip?] at missed
    simpa [differ] using ih found

/-- A text is cut at its first mark, and nowhere else. -/
theorem cutAt?_eq_some_iff {mark : Char} {text front tail : Text} :
    cutAt? [mark] text = some (front, tail) ↔ text = front ++ mark :: tail ∧ mark ∉ front := by
  constructor
  · intro cut
    exact ⟨by simpa using cutAt?_append cut, not_mem_of_cutAt? cut⟩
  · rintro ⟨rfl, unmarked⟩
    induction front with
    | nil => simp [cutAt?, strip?]
    | cons c front ih =>
      rw [List.mem_cons, not_or] at unmarked
      simp [cutAt?, strip?, unmarked.1, ih unmarked.2]

/-! ## At a byte -/

theorem byteLength_append (front back : Text) :
    byteLength (front ++ back) = byteLength front + byteLength back := by
  induction front with
  | nil => simp [byteLength]
  | cons c front ih => simp [byteLength, ih, Nat.add_assoc]

theorem splitAtByte_append (front back : Text) (offset : Nat) :
    splitAtByte (byteLength front + offset) (front ++ back) =
      (front ++ (splitAtByte offset back).1, (splitAtByte offset back).2) := by
  induction front with
  | nil => simp [byteLength]
  | cons c front ih =>
    have rest : c.utf8Size + byteLength front + offset - c.utf8Size =
        byteLength front + offset := by omega
    rw [List.cons_append, splitAtByte, byteLength, if_pos (by omega), rest, ih]
    rfl

theorem splitAtByte_zero (text : Text) : splitAtByte 0 text = ([], text) := by
  cases text with
  | nil => rfl
  | cons c rest =>
    have positive := c.utf8Size_pos
    rw [splitAtByte, if_neg (by omega)]

theorem dropBytes_append (front back : Text) (offset : Nat) :
    dropBytes (byteLength front + offset) (front ++ back) = dropBytes offset back := by
  rw [dropBytes, splitAtByte_append, dropBytes]

theorem takeBytes_front (front back : Text) :
    takeBytes (byteLength front) (front ++ back) = front := by
  have split := splitAtByte_append front back 0
  rw [Nat.add_zero, splitAtByte_zero, List.append_nil] at split
  rw [takeBytes, split]

theorem takeBytes_append_dropBytes (offset : Nat) (text : Text) :
    takeBytes offset text ++ dropBytes offset text = text := by
  unfold takeBytes dropBytes
  fun_induction splitAtByte offset text with
  | case1 => rfl
  | case2 offset c rest _ front back found ih => simpa [found] using ih
  | case3 => rfl

theorem slice_append (front back : Text) (start stop : Nat) :
    slice (byteLength front + start) (byteLength front + stop) (front ++ back) =
      slice start stop back := by
  rw [slice, slice, dropBytes_append, Nat.add_sub_add_left]

/-- What stands between two points of a text does not depend on what follows it. -/
theorem slice_congr {text before before' : Text} (start : before <+: text) (stop : before' <+: text)
    (after after' : Text) :
    slice (byteLength before) (byteLength before') (text ++ after) =
      slice (byteLength before) (byteLength before') (text ++ after') := by
  have drop (rest : Text) (more : Text) :
      dropBytes (byteLength before) (before ++ rest ++ more) = rest ++ more := by
    have dropped := dropBytes_append before (rest ++ more) 0
    rw [Nat.add_zero] at dropped
    rw [List.append_assoc, dropped, dropBytes, splitAtByte_zero]
  obtain ⟨rest, rfl⟩ := start
  rw [slice, slice, drop, drop]
  obtain ⟨piece, rfl⟩ | back :=
    List.prefix_or_prefix_of_prefix (List.prefix_append before rest) stop
  · have inner : piece <+: rest := by
      obtain ⟨tail, whole⟩ := stop
      exact ⟨tail, by simpa using whole⟩
    obtain ⟨tail, rfl⟩ := inner
    rw [byteLength_append, Nat.add_sub_cancel_left, List.append_assoc, List.append_assoc,
      takeBytes_front, takeBytes_front]
  · obtain ⟨tail, rfl⟩ := back
    rw [byteLength_append, Nat.sub_eq_zero_of_le (Nat.le_add_right ..), takeBytes, takeBytes,
      splitAtByte_zero, splitAtByte_zero]

end Text

end Prefill
