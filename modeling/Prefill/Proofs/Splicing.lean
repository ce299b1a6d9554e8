import Prefill.Proofs.Tidying

/-!
Regions that go in twice. The lines that taking regions out of a file leaves hold the regions' places
still: putting the regions in again there writes the same file (`spliceAll_tidy`). Lines above the
first region have no part in this (`spliceAll_below`, `stripFrom_below`).
-/

namespace Prefill

open Text

namespace Text

/-! ### Lines out of and between lines -/

theorem Lined.append {front back : List Text} (ended : ∀ line ∈ front, Ended line) (h : Lined back) :
    Lined (front ++ back) := by
  induction front with
  | nil => exact h
  | cons line front ih =>
    rw [List.forall_mem_cons] at ended
    exact Lined.cons ended.1 (ih ended.2)

/-- Other lines below a line that was not the last. -/
theorem Lined.replace {line : Text} {rest rest' : List Text} (h : Lined (line :: rest))
    (h' : Lined rest') (last : rest = [] → rest' = []) : Lined (line :: rest') := by
  by_cases more : rest = []
  · rw [last more]
    rwa [more] at h
  · exact Lined.cons (h.ended more) h'

theorem Lined.sublist {lines part : List Text} (h : Lined lines) (sub : part.Sublist lines) :
    Lined part := by
  induction sub with
  | slnil => exact h
  | cons line sub ih => exact ih h.tail
  | cons_cons line sub ih =>
    refine h.replace (ih h.tail) ?_
    rintro rfl
    exact List.sublist_nil.mp sub

end Text

namespace Region

/-! ### Regions below other lines -/

theorem terminateLast_append_of_ne_nil (front : List Text) {back : List Text} (more : back ≠ []) :
    terminateLast (front ++ back) = front ++ terminateLast back := by
  obtain ⟨init, last, rfl⟩ : ∃ init last, back = init ++ [last] :=
    ⟨_, _, (List.dropLast_concat_getLast more).symm⟩
  rw [← List.append_assoc, terminateLast_append, terminateLast_append, List.append_assoc]

/-- The insertion of the same lines elsewhere. -/
def Insertion.moved (index : Nat → Nat) (insertion : Insertion) : Insertion :=
  ⟨index insertion.after, insertion.lines⟩

theorem splice_ne_nil (lines : List Text) (insertion : Insertion) : splice lines insertion ≠ [] := by
  simp [splice]

theorem splice_below (front : List Text) {lines : List Text} (someLine : lines ≠ [])
    (insertion : Insertion) :
    splice (front ++ lines) (insertion.moved (front.length + ·)) = front ++ splice lines insertion := by
  have positive := List.length_pos_iff.mpr someLine
  have count : min (front.length + insertion.after) ((front ++ lines).length - 1) + 1 =
      front.length + (min insertion.after (lines.length - 1) + 1) := by
    rw [List.length_append]
    omega
  have taken : lines.take (min insertion.after (lines.length - 1) + 1) ≠ [] := by
    apply List.ne_nil_of_length_pos
    rw [List.length_take]
    omega
  simp only [splice, Insertion.moved, count, List.take_length_add_append,
    List.drop_length_add_append, terminateLast_append_of_ne_nil front taken, List.append_assoc]

theorem spliceAll_ne_nil {lines : List Text} (someLine : lines ≠ []) (insertions : List Insertion) :
    spliceAll lines insertions ≠ [] := by
  cases insertions with
  | nil => exact someLine
  | cons insertion rest => exact splice_ne_nil _ _

/-- **Lines above** all regions have no part in putting these in. -/
theorem spliceAll_below {front lines : List Text} {insertions : List Insertion}
    (someLine : insertions ≠ [] → lines ≠ [])
    (below : ∀ insertion ∈ insertions, front.length ≤ insertion.after) :
    spliceAll (front ++ lines) insertions =
      front ++ spliceAll lines (insertions.map (Insertion.moved (· - front.length))) := by
  induction insertions with
  | nil => rfl
  | cons insertion rest ih =>
    rw [List.forall_mem_cons] at below
    have place : (insertion.moved (· - front.length)).moved (front.length + ·) = insertion := by
      simp only [Insertion.moved, Nat.add_sub_cancel' below.1]
    have someLine := someLine (by simp)
    have step := splice_below front
      (spliceAll_ne_nil someLine (rest.map (Insertion.moved (· - front.length))))
      (insertion.moved (· - front.length))
    rw [place, ← ih (fun _ => someLine) below.2] at step
    exact step

theorem stripFrom_below {front : List Text}
    (noBegin : ∀ line ∈ front, Marker.regionBegin? line = none) (number : Nat) (lines : List Text) :
    stripFrom .outside number (front ++ lines) =
      (stripFrom .outside (number + front.length) lines).map (front ++ ·) := by
  induction front generalizing number with
  | nil => cases kept : stripFrom .outside number lines <;> simp [kept, Except.map]
  | cons line front ih =>
    rw [List.forall_mem_cons] at noBegin
    rw [List.cons_append, stripFrom_keep (.inl rfl) noBegin.1, ih noBegin.2, List.length_cons,
      Nat.add_assoc, Nat.add_comm 1]
    cases stripFrom .outside (number + (front.length + 1)) lines <;> rfl

/-! ### What is left of a text -/

theorem stripFrom_sublist {place : Place} {number : Nat} {lines kept : List Text}
    (h : stripFrom place number lines = .ok kept) :
    kept.Sublist lines ∧ ∀ line ∈ kept, Marker.regionBegin? line = none := by
  induction lines generalizing place number kept with
  | nil =>
    cases place with
    | inside opened => cases h
    | outside =>
      obtain rfl := Except.ok.inj h
      exact ⟨List.Sublist.refl _, by simp⟩
    | behind =>
      obtain rfl := Except.ok.inj h
      exact ⟨List.Sublist.refl _, by simp⟩
  | cons line rest ih =>
    have gone {place : Place} (h : stripFrom place (number + 1) rest = .ok kept) :
        kept.Sublist (line :: rest) ∧ ∀ line ∈ kept, Marker.regionBegin? line = none :=
      ⟨(ih h).1.cons line, (ih h).2⟩
    have outer (h : stripFrom .outside number (line :: rest) = .ok kept) :
        kept.Sublist (line :: rest) ∧ ∀ line ∈ kept, Marker.regionBegin? line = none := by
      cases begins : Marker.regionBegin? line with
      | some method =>
        simp only [stripFrom, begins, reduceCtorEq, decide_false, Bool.false_and] at h
        exact gone h
      | none =>
        rw [stripFrom_keep (.inl rfl) begins] at h
        cases below : stripFrom .outside (number + 1) rest with
        | error e =>
          rw [below] at h
          cases h
        | ok more =>
          rw [below] at h
          obtain rfl := Except.ok.inj h
          exact ⟨(ih below).1.cons_cons line, List.forall_mem_cons.mpr ⟨begins, (ih below).2⟩⟩
    cases place with
    | inside opened => exact gone h
    | outside => exact outer h
    | behind =>
      by_cases isBlank : blank line = true
      · exact gone (by simpa [stripFrom, isBlank] using h)
      · exact outer (by simpa [stripFrom, isBlank] using h)

/-- **A text without its regions** has no line that opens one. -/
theorem noBegin_of_strip {content stripped : Text} (h : strip content = .ok stripped) :
    ∀ line ∈ rawLines stripped, Marker.regionBegin? line = none := by
  unfold strip at h
  cases kept : stripFrom .outside 1 (rawLines content) with
  | error e =>
    rw [kept] at h
    cases h
  | ok lines =>
    rw [kept] at h
    obtain rfl := Except.ok.inj h
    obtain ⟨sub, noBegin⟩ := stripFrom_sublist kept
    rwa [rawLines_of_lined ((lined_rawLines content).sublist sub)]

/-! ### Lines of woven and of tidy files -/

theorem ended_terminated {line : Text} {rest : List Text} (h : Lined (line :: rest)) :
    Ended (terminated line) := by
  by_cases ended : Ended line
  · rwa [terminated_of_ended ended]
  · cases rest with
    | nil =>
      obtain ⟨-, noBreak⟩ := Or.resolve_left h ended
      have last : line.getLast? ≠ some '\n' := fun feeds => noBreak (List.mem_of_getLast? feeds)
      rw [terminated, if_neg last]
      exact ⟨line, noBreak, rfl⟩
    | cons next rest => exact absurd h.1 ended

theorem ended_feed : Ended ['\n'] := ⟨[], by simp, rfl⟩

theorem lined_weave {slots : List Slot} (lined : Lined (slots.map Slot.line))
    (ended : ∀ slot ∈ slots, ∀ region ∈ slot.regions, ∀ line ∈ region, Ended line) (behind : Bool) :
    Lined (weave behind slots) := by
  induction slots generalizing behind with
  | nil => cases behind <;> trivial
  | cons slot rest ih =>
    rw [List.forall_mem_cons] at ended
    have below := ih lined.tail ended.2
    rw [weave]
    split
    · exact below true
    · have feeds : ∀ line ∈ if behind then [['\n']] else [], Ended line := by
        cases behind with
        | true => simpa using ended_feed
        | false => simp
      apply Lined.append feeds
      by_cases bare : slot.regions = []
      · simp only [Slot.lines, bare, List.isEmpty_nil, if_true, List.cons_append, List.nil_append,
          Bool.not_true]
        apply Lined.replace lined (below false)
        intro last
        rw [List.map_eq_nil_iff.mp last]
        rfl
      · apply Lined.append _ (below _)
        simp only [Slot.lines, List.isEmpty_iff, if_neg bare, List.forall_mem_cons]
        refine ⟨ended_terminated lined, ?_⟩
        intro line member
        obtain ⟨region, inSlot, member⟩ := List.mem_flatMap.mp member
        obtain rfl | member := List.mem_cons.mp member
        · exact ended_feed
        · exact ended.1 region inSlot line member

theorem lined_tidy {slots : List Slot} (lined : Lined (slots.map Slot.line)) (behind : Bool) :
    Lined ((tidy behind slots).map Slot.line) := by
  induction slots generalizing behind with
  | nil => cases behind <;> trivial
  | cons slot rest ih =>
    have below := ih lined.tail
    rw [tidy]
    split
    · exact below true
    · split
      · rw [List.map_cons]
        apply Lined.replace lined (below false)
        intro last
        rw [List.map_eq_nil_iff.mp last]
        rfl
      · exact Lined.cons (ended_terminated lined) (Lined.cons ended_feed (below true))

/-! ### Putting regions in again -/

theorem tidyIndex_inj {slots : List Slot} {behind : Bool} {i j : Nat} {slot slot' : Slot}
    (here : slots[i]? = some slot) (noGap : slot.isGap = false) (there : slots[j]? = some slot')
    (noGap' : slot'.isGap = false) (eq : tidyIndex behind slots i = tidyIndex behind slots j) :
    i = j := by
  obtain lt | rfl | gt := Nat.lt_trichotomy i j
  · exact absurd eq (Nat.ne_of_lt (tidyIndex_lt lt here noGap))
  · rfl
  · exact absurd eq (Nat.ne_of_gt (tidyIndex_lt gt there noGap'))

theorem regionsAt_moved {insertions : List Insertion} (index : Nat → Nat) (i : Nat)
    (apart : ∀ insertion ∈ insertions, index insertion.after = index i → insertion.after = i) :
    regionsAt (insertions.map (Insertion.moved index)) (index i) = regionsAt insertions i := by
  unfold regionsAt
  rw [List.filter_map, List.map_map]
  congr 1
  refine List.filter_congr fun insertion member => ?_
  have same : index insertion.after = index i ↔ insertion.after = i :=
    ⟨apart insertion member, congrArg index⟩
  simp only [Function.comp_apply, Insertion.moved, same]

theorem blank_tidied (slot : Slot) : blank slot.tidied.line = blank slot.line := by
  unfold Slot.tidied
  split
  · rfl
  · exact blank_terminated slot.line

theorem regions_tidied (slot : Slot) : slot.tidied.regions = slot.regions := by
  unfold Slot.tidied
  split <;> rfl

/-- In a tidy file no regions follow a blank line. -/
theorem regions_of_blank_tidy {slots : List Slot} {behind : Bool}
    (notBlank : ∀ slot ∈ slots, slot.regions ≠ [] → blank slot.line = false) {slot : Slot}
    (member : slot ∈ tidy behind slots) (isBlank : blank slot.line = true) : slot.regions = [] := by
  induction slots generalizing behind with
  | nil => cases member
  | cons first rest ih =>
    rw [List.forall_mem_cons] at notBlank
    rw [tidy] at member
    split at member
    · exact ih notBlank.2 member
    · split at member
      · rename_i bare
        obtain rfl | member := List.mem_cons.mp member
        · simpa using bare
        · exact ih notBlank.2 member
      · rename_i tagged
        obtain rfl | member := List.mem_cons.mp member
        · rw [blank_terminated, notBlank.1 (by simpa using tagged)] at isBlank
          cases isBlank
        · obtain rfl | member := List.mem_cons.mp member
          · rfl
          · exact ih notBlank.2 member

section

variable {lines : List Text} {insertions : List Insertion} (ordered : Ordered lines insertions)
include ordered

theorem Ordered.exists_slot {insertion : Insertion} (member : insertion ∈ insertions) :
    ∃ slot, (slotsFrom (regionsAt insertions) 0 lines)[insertion.after]? = some slot ∧
      blank slot.line = false ∧ slot.isGap = false := by
  obtain ⟨line, found, notBlank⟩ := ordered.after insertion member
  refine ⟨⟨line, regionsAt insertions (0 + insertion.after)⟩, ?_, notBlank, ?_⟩
  · rw [getElem?_slotsFrom, found]
    rfl
  · simp [Slot.isGap, notBlank]

theorem Ordered.notBlank_slot : ∀ slot ∈ slotsFrom (regionsAt insertions) 0 lines,
    slot.regions ≠ [] → blank slot.line = false := by
  intro slot member tagged
  obtain ⟨i, found, regions⟩ := exists_of_mem_slotsFrom member
  rw [regions, Nat.zero_add] at tagged
  exact ordered.notBlank found tagged

/-- The regions go after the same lines. -/
theorem slotsFrom_tidy :
    let slots := slotsFrom (regionsAt insertions) 0 lines
    slotsFrom (regionsAt (insertions.map (Insertion.moved (tidyIndex false slots)))) 0
      ((tidy false slots).map Slot.line) = tidy false slots := by
  intro slots
  apply List.ext_getElem?
  intro k
  rw [getElem?_slotsFrom, Nat.zero_add, List.getElem?_map]
  cases found : (tidy false slots)[k]? with
  | none => rfl
  | some slot' =>
    have regions : regionsAt (insertions.map (Insertion.moved (tidyIndex false slots))) k =
        slot'.regions := by
      by_cases isBlank : blank slot'.line = true
      · rw [regions_of_blank_tidy ordered.notBlank_slot (List.mem_of_getElem? found) isBlank]
        by_contra someThere
        obtain ⟨_, member, rfl⟩ := exists_of_regionsAt someThere
        obtain ⟨insertion, inside, rfl⟩ := List.mem_map.mp member
        obtain ⟨slot, here, notBlank, noGap⟩ := ordered.exists_slot inside
        have kept : (tidy false slots)[tidyIndex false slots insertion.after]? = some slot.tidied :=
          getElem?_tidyIndex here noGap
        rw [Insertion.moved, kept] at found
        rw [← Option.some.inj found, blank_tidied, notBlank] at isBlank
        cases isBlank
      · obtain ⟨i, slot, here, noGap, rfl, rfl⟩ := exists_of_tidy found (by simpa using isBlank)
        rw [regions_tidied, regionsAt_moved]
        · have whole := getElem?_slotsFrom (regionsAt insertions) 0 lines i
          rw [here] at whole
          obtain ⟨line, -, eq⟩ := Option.map_eq_some_iff.mp whole.symm
          rw [← eq, Nat.zero_add]
        · intro insertion member eq
          obtain ⟨other, there, -, noGap'⟩ := ordered.exists_slot member
          exact tidyIndex_inj there noGap' here noGap eq
    rw [regions]
    rfl

theorem Ordered.tidied :
    let slots := slotsFrom (regionsAt insertions) 0 lines
    Ordered ((tidy false slots).map Slot.line)
      (insertions.map (Insertion.moved (tidyIndex false slots))) := by
  intro slots
  refine ⟨?_, ?_, ?_⟩
  · rw [List.pairwise_map]
    refine ordered.sorted.imp_of_mem fun {a b} inA inB le => ?_
    obtain ⟨slot, here, -, noGap⟩ := ordered.exists_slot inA
    obtain eq | lt := Nat.eq_or_lt_of_le le
    · exact Nat.le_of_eq (congrArg (tidyIndex false slots) eq)
    · exact Nat.le_of_lt (tidyIndex_lt lt here noGap)
  · intro insertion member
    obtain ⟨before, inside, rfl⟩ := List.mem_map.mp member
    obtain ⟨slot, here, notBlank, noGap⟩ := ordered.exists_slot inside
    refine ⟨slot.tidied.line, ?_, by rw [blank_tidied, notBlank]⟩
    rw [List.getElem?_map, Insertion.moved, getElem?_tidyIndex here noGap]
    rfl
  · intro insertion member
    obtain ⟨before, inside, rfl⟩ := List.mem_map.mp member
    exact ordered.regions before inside

/-- **Putting regions in again** where they have been taken out gives the same lines. -/
theorem spliceAll_tidy :
    let slots := slotsFrom (regionsAt insertions) 0 lines
    spliceAll ((tidy false slots).map Slot.line)
      (insertions.map (Insertion.moved (tidyIndex false slots))) = spliceAll lines insertions := by
  intro slots
  rw [spliceAll_eq_weave ordered.tidied, slotsFrom_tidy ordered, weave_tidy,
    ← spliceAll_eq_weave ordered]

end

/-- **Taking out regions that have been put in** below some lines. -/
theorem strip_spliceAll {front lines : List Text} {insertions : List Insertion}
    (ordered : Ordered lines insertions) (ended : ∀ line ∈ front, Ended line) (lined : Lined lines)
    (noBegin : ∀ line ∈ front ++ lines, Marker.regionBegin? line = none)
    (endedRegions : ∀ insertion ∈ insertions, ∀ line ∈ insertion.lines, Ended line) :
    strip (front ++ spliceAll lines insertions).flatten =
      .ok (front ++ (tidy false (slotsFrom (regionsAt insertions) 0 lines)).map Slot.line).flatten := by
  have regionOf {slot : Slot} (member : slot ∈ slotsFrom (regionsAt insertions) 0 lines)
      {region : List Text} (inSlot : region ∈ slot.regions) :
      ∃ insertion ∈ insertions, region = insertion.lines := by
    obtain ⟨i, -, regions⟩ := exists_of_mem_slotsFrom member
    rw [regions] at inSlot
    obtain ⟨insertion, found, rfl⟩ := List.mem_map.mp inSlot
    exact ⟨insertion, (List.mem_filter.mp found).1, rfl⟩
  have sound : ∀ slot ∈ slotsFrom (regionsAt insertions) 0 lines, slot.Sound := by
    intro slot member
    refine ⟨?_, ?_, ordered.notBlank_slot slot member⟩
    · obtain ⟨i, found, -⟩ := exists_of_mem_slotsFrom member
      exact noBegin _ (List.mem_append_right _ (List.mem_of_getElem? found))
    · intro region inSlot
      obtain ⟨insertion, inside, rfl⟩ := regionOf member inSlot
      exact ordered.regions insertion inside
  have linedWeave : Lined (weave false (slotsFrom (regionsAt insertions) 0 lines)) := by
    apply lined_weave
    · rwa [slotsFrom_lines]
    · intro slot member region inSlot
      obtain ⟨insertion, inside, rfl⟩ := regionOf member inSlot
      exact endedRegions insertion inside
  have stripped := stripFrom_weave sound false (1 + front.length)
  simp only [Bool.false_eq_true, if_false] at stripped
  rw [strip, spliceAll_eq_weave ordered, rawLines_of_lined (Lined.append ended linedWeave),
    stripFrom_below (fun line member => noBegin line (List.mem_append_left _ member)), stripped]
  rfl

/-! ### Slots below other lines -/

theorem slotsFrom_shift (regions : Nat → List (List Text)) (n index : Nat) (lines : List Text) :
    slotsFrom regions (n + index) lines = slotsFrom (fun i => regions (n + i)) index lines := by
  induction lines generalizing index with
  | nil => rfl
  | cons line rest ih => rw [slotsFrom, slotsFrom, Nat.add_assoc, ih]

section

variable {front rest : List Text} {insertions : List Insertion}
  (below : ∀ insertion ∈ insertions, front.length ≤ insertion.after)
include below

theorem slotsFrom_front_bare : ∀ slot ∈ slotsFrom (regionsAt insertions) 0 front,
    slot.regions = [] := by
  refine slotsFrom_bare fun i _ inside => ?_
  by_contra someThere
  obtain ⟨insertion, member, rfl⟩ := exists_of_regionsAt someThere
  have outside := below insertion member
  omega

theorem slotsFrom_below (rest : List Text) :
    slotsFrom (regionsAt insertions) 0 (front ++ rest) =
      slotsFrom (regionsAt insertions) 0 front ++
        slotsFrom (regionsAt (insertions.map (Insertion.moved (· - front.length)))) 0 rest := by
  rw [slotsFrom_append, Nat.add_comm, slotsFrom_shift]
  congr 2
  funext i
  have apart : ∀ insertion ∈ insertions,
      insertion.after - front.length = front.length + i - front.length →
        insertion.after = front.length + i := by
    intro insertion member eq
    have outside := below insertion member
    omega
  have same := regionsAt_moved (· - front.length) (front.length + i) apart
  rw [← same, Nat.add_sub_cancel_left]

theorem Ordered.of_append (ordered : Ordered (front ++ rest) insertions) :
    Ordered rest (insertions.map (Insertion.moved (· - front.length))) := by
  refine ⟨?_, ?_, ?_⟩
  · rw [List.pairwise_map]
    exact ordered.sorted.imp fun le => Nat.sub_le_sub_right le _
  · intro insertion member
    obtain ⟨before, inside, rfl⟩ := List.mem_map.mp member
    obtain ⟨line, found, notBlank⟩ := ordered.after before inside
    rw [List.getElem?_append_right (below before inside)] at found
    exact ⟨line, found, notBlank⟩
  · intro insertion member
    obtain ⟨before, inside, rfl⟩ := List.mem_map.mp member
    exact ordered.regions before inside

end

end Region

end Prefill
