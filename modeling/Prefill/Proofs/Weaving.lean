import Prefill.Proofs.Comments
import Prefill.Region

/-!
Regions between the lines of a file. A file with regions is its lines, each with the regions that
stand after it (`Slot`), written from the front to the end (`weave`). Putting regions in one at a
time, from the last to the first, writes the same file (`spliceAll_eq_weave`); taking them out of it
leaves the lines with one blank line after each that had regions (`stripFrom_weave`); and writing
these again with the same regions gives the same file (`weave_tidy`).
-/

namespace Prefill.Region

open Text

/-- Lines from one that opens a region to the next one that closes it. -/
inductive IsRegion : List Text → Prop where
  | mk {first last : Text} {body : List Text}
      (opens : (Marker.regionBegin? first).isSome = true)
      (inner : ∀ line ∈ body, Marker.isRegionEnd line = false)
      (closes : Marker.isRegionEnd last = true) :
      IsRegion (first :: (body ++ [last]))

/-- A line of a file, and the regions after it. -/
structure Slot where
  line : Text
  regions : List (List Text)

namespace Slot

/-- A blank line that no region follows. -/
def isGap (slot : Slot) : Bool := slot.regions.isEmpty && blank slot.line

/-- The line and its regions, a blank line before each of these. -/
def lines (slot : Slot) : List Text :=
  if slot.regions.isEmpty then [slot.line]
  else terminated slot.line :: slot.regions.flatMap (['\n'] :: ·)

/-- The line opens no region, and where regions follow it is not blank. -/
structure Sound (slot : Slot) : Prop where
  noBegin : Marker.regionBegin? slot.line = none
  regions : ∀ region ∈ slot.regions, IsRegion region
  notBlank : slot.regions ≠ [] → blank slot.line = false

end Slot

/-- The lines of a file with its regions. Behind regions the gaps give way to one blank line before
whatever comes next. -/
def weave : (behind : Bool) → List Slot → List Text
  | _, [] => []
  | behind, slot :: rest =>
    if behind && slot.isGap then weave true rest
    else (if behind then [['\n']] else []) ++ (slot.lines ++ weave (!slot.regions.isEmpty) rest)

/-- The slots that are left of a file when its regions are taken out, each with the regions that go
in again. -/
def tidy : (behind : Bool) → List Slot → List Slot
  | _, [] => []
  | behind, slot :: rest =>
    if behind && slot.isGap then tidy true rest
    else if slot.regions.isEmpty then slot :: tidy false rest
    else ⟨terminated slot.line, slot.regions⟩ :: ⟨['\n'], []⟩ :: tidy true rest

/-! ### Blank lines and line feeds at the end -/

theorem blank_feed : blank ['\n'] = true := by decide

theorem terminated_terminated (line : Text) : terminated (terminated line) = terminated line := by
  unfold terminated
  split <;> simp_all

theorem trim_terminated (line : Text) : trim (terminated line) = trim line := by
  unfold terminated
  split
  · rfl
  · exact trim_append_blank blank_feed

theorem regionBegin?_terminated (line : Text) :
    Marker.regionBegin? (terminated line) = Marker.regionBegin? line := by
  simp only [Marker.regionBegin?, trim_terminated]

theorem blank_terminated (line : Text) : blank (terminated line) = blank line := by
  unfold terminated
  split
  · rfl
  · simp [blank, show isBlank '\n' = true by decide]

theorem regionBegin?_of_blank {line : Text} (h : blank line = true) :
    Marker.regionBegin? line = none := by
  have gone : trimStart line = [] := List.dropWhile_eq_nil_iff.mpr (by simpa [blank] using h)
  rw [Marker.regionBegin?, trim, gone]
  decide

theorem not_blank_of_regionBegin? {line : Text} (h : (Marker.regionBegin? line).isSome = true) :
    blank line = false := by
  by_contra isBlank
  rw [regionBegin?_of_blank (by simpa using isBlank)] at h
  cases h

/-! ### Taking regions out -/

theorem stripFrom_gap {line : Text} (h : blank line = true) (number : Nat) (rest : List Text) :
    stripFrom .behind number (line :: rest) = stripFrom .behind (number + 1) rest := by
  simp [stripFrom, h]

theorem stripFrom_keep {line : Text} {place : Place} (outer : place = .outside ∨
      place = .behind ∧ blank line = false) (noBegin : Marker.regionBegin? line = none)
    (number : Nat) (rest : List Text) :
    stripFrom place number (line :: rest) =
      (stripFrom .outside (number + 1) rest).map (line :: ·) := by
  obtain rfl | ⟨rfl, notBlank⟩ := outer
  · simp [stripFrom, noBegin]
  · simp [stripFrom, noBegin, notBlank]

theorem stripFrom_inside {body : List Text} (inner : ∀ line ∈ body, Marker.isRegionEnd line = false)
    (opened : Unterminated) (number : Nat) (rest : List Text) :
    stripFrom (.inside opened) number (body ++ rest) =
      stripFrom (.inside opened) (number + body.length) rest := by
  induction body generalizing number with
  | nil => rfl
  | cons line body ih =>
    rw [List.forall_mem_cons] at inner
    simp only [List.cons_append, stripFrom, inner.1, Bool.false_eq_true, if_false]
    rw [ih inner.2, List.length_cons, Nat.add_assoc, Nat.add_comm 1]

/-- A region goes whole. -/
theorem stripFrom_region {region : List Text} (h : IsRegion region) {place : Place}
    (outer : place = .outside ∨ place = .behind) (number : Nat) (rest : List Text) :
    stripFrom place number (region ++ rest) =
      stripFrom .behind (number + region.length) rest := by
  obtain ⟨opens, inner, closes⟩ := h
  rename_i first last body
  obtain ⟨method, found⟩ := Option.isSome_iff_exists.mp opens
  have notBlank := not_blank_of_regionBegin? opens
  have enter : stripFrom place number (first :: (body ++ [last]) ++ rest) =
      stripFrom (.inside ⟨number, method⟩) (number + 1) (body ++ last :: rest) := by
    obtain rfl | rfl := outer <;> simp [stripFrom, found, notBlank]
  rw [enter, stripFrom_inside inner]
  simp only [stripFrom, closes, if_true, List.length_cons, List.length_append, List.length_nil]
  congr 1
  omega

/-- Behind a region, further ones go with the blank lines before them. -/
theorem stripFrom_regions {regions : List (List Text)} (h : ∀ region ∈ regions, IsRegion region)
    (number : Nat) (rest : List Text) :
    stripFrom .behind number (regions.flatMap (['\n'] :: ·) ++ rest) =
      stripFrom .behind (number + (regions.flatMap (['\n'] :: ·)).length) rest := by
  induction regions generalizing number with
  | nil => rfl
  | cons region regions ih =>
    rw [List.forall_mem_cons] at h
    simp only [List.flatMap_cons, List.append_assoc, List.cons_append]
    rw [stripFrom_gap blank_feed, stripFrom_region h.1 (.inr rfl), ih h.2]
    congr 1
    simp only [List.length_cons, List.length_append]
    omega

/-- **Taking regions out.** What is left are the lines, with one blank line after each that had
regions. -/
theorem stripFrom_weave {slots : List Slot} (sound : ∀ slot ∈ slots, slot.Sound) (behind : Bool)
    (number : Nat) :
    stripFrom (if behind then .behind else .outside) number (weave behind slots) =
      .ok ((tidy behind slots).map Slot.line) := by
  induction slots generalizing behind number with
  | nil => cases behind <;> rfl
  | cons slot rest ih =>
    rw [List.forall_mem_cons] at sound
    obtain ⟨⟨noBegin, regions, notBlank⟩, below⟩ := sound
    by_cases gap : (behind && slot.isGap) = true
    · rw [weave, tidy, if_pos gap, if_pos gap]
      obtain ⟨rfl, -⟩ := by simpa using gap
      exact ih below true number
    · rw [weave, tidy, if_neg gap, if_neg gap]
      -- The blank line before what comes next is the last of the gap.
      have past (number : Nat) (lines : List Text) :
          ∃ later, stripFrom (if behind then .behind else .outside) number
            ((if behind then [['\n']] else []) ++ lines) =
              stripFrom (if behind then .behind else .outside) later lines := by
        cases behind with
        | false => exact ⟨number, rfl⟩
        | true => exact ⟨number + 1, stripFrom_gap blank_feed number lines⟩
      obtain ⟨later, skipped⟩ := past number
        (slot.lines ++ weave (!slot.regions.isEmpty) rest)
      rw [skipped]
      by_cases noneAfter : slot.regions = []
      · have outer : (if behind then Place.behind else .outside) = .outside ∨
            (if behind then Place.behind else .outside) = .behind ∧ blank slot.line = false := by
          cases behind <;> simp_all [Slot.isGap]
        have kept := ih below false (later + 1)
        simp only [Bool.false_eq_true, if_false] at kept
        simp only [Slot.lines, noneAfter, List.isEmpty_nil, if_true, List.cons_append,
          List.nil_append, Bool.not_true]
        rw [stripFrom_keep outer noBegin, kept]
        rfl
      · obtain ⟨first, more, found⟩ := List.exists_cons_of_ne_nil noneAfter
        have outer : (if behind then Place.behind else .outside) = .outside ∨
            (if behind then Place.behind else .outside) = .behind ∧
              blank (terminated slot.line) = false := by
          cases behind <;> simp [blank_terminated, notBlank noneAfter]
        rw [found, List.forall_mem_cons] at regions
        simp only [Slot.lines, found, List.isEmpty_cons, Bool.false_eq_true, if_false,
          List.flatMap_cons, List.cons_append, List.append_assoc, Bool.not_false, List.map_cons]
        rw [stripFrom_keep outer (by rw [regionBegin?_terminated, noBegin]),
          stripFrom_keep (.inl rfl) (regionBegin?_of_blank blank_feed),
          stripFrom_region regions.1 (.inl rfl), stripFrom_regions regions.2]
        have kept := fun number => ih below true number
        simp only [if_true] at kept
        rw [kept]
        rfl

/-- **Putting regions in again** where they were gives the same lines. -/
theorem weave_tidy (slots : List Slot) (behind : Bool) :
    weave behind (tidy behind slots) = weave behind slots := by
  induction slots generalizing behind with
  | nil => cases behind <;> rfl
  | cons slot rest ih =>
    by_cases gap : (behind && slot.isGap) = true
    · rw [weave, tidy, if_pos gap, if_pos gap]
      obtain ⟨rfl, -⟩ := by simpa using gap
      exact ih true
    · by_cases noneAfter : slot.regions.isEmpty = true
      · rw [weave, tidy, if_neg gap, if_neg gap, if_pos noneAfter, weave, if_neg gap, noneAfter,
          Bool.not_true, ih false]
      · have blankNext : weave true (⟨['\n'], []⟩ :: tidy true rest) = weave true rest := by
          rw [weave, if_pos (by decide), ih true]
        rw [weave, tidy, if_neg gap, if_neg gap, if_neg noneAfter, weave,
          if_neg (by simp [Slot.isGap, noneAfter])]
        simp only [Slot.lines, noneAfter, terminated_terminated, Bool.not_false, blankNext,
          Bool.false_eq_true, if_false]

/-! ### Putting regions in one at a time -/

theorem weave_bare {front : List Slot} (bare : ∀ slot ∈ front, slot.regions = [])
    (rest : List Slot) :
    weave false (front ++ rest) = front.map Slot.line ++ weave false rest := by
  induction front with
  | nil => rfl
  | cons slot front ih =>
    rw [List.forall_mem_cons] at bare
    rw [List.cons_append, weave, if_neg (by simp)]
    simp [Slot.lines, bare.1, ih bare.2]

/-- Behind a region stands one blank line before whatever comes next. -/
theorem weave_behind {slots : List Slot}
    (notBlank : ∀ slot ∈ slots, slot.regions ≠ [] → blank slot.line = false) :
    weave true slots =
      if ((weave false slots).dropWhile blank).isEmpty then []
      else ['\n'] :: (weave false slots).dropWhile blank := by
  induction slots with
  | nil => rfl
  | cons slot rest ih =>
    rw [List.forall_mem_cons] at notBlank
    by_cases gap : slot.isGap = true
    · obtain ⟨bare, isBlank⟩ : slot.regions = [] ∧ blank slot.line = true := by
        simpa [Slot.isGap] using gap
      have skipped : weave false (slot :: rest) = slot.line :: weave false rest := by
        rw [weave, if_neg (by simp)]
        simp [Slot.lines, bare]
      rw [weave, if_pos (by simp [gap]), ih notBlank.2, skipped, List.dropWhile_cons_of_pos isBlank]
    · have kept : ∃ line more, slot.lines = line :: more ∧ blank line = false := by
        by_cases bare : slot.regions = []
        · refine ⟨slot.line, [], by simp [Slot.lines, bare], ?_⟩
          simpa [Slot.isGap, bare] using gap
        · refine ⟨terminated slot.line, slot.regions.flatMap (['\n'] :: ·),
            by simp [Slot.lines, bare], ?_⟩
          rw [blank_terminated, notBlank.1 bare]
      obtain ⟨line, more, lines, notBlank⟩ := kept
      have here : weave false (slot :: rest) =
          line :: (more ++ weave (!slot.regions.isEmpty) rest) := by
        rw [weave, if_neg (by simp), lines]
        rfl
      have behind : weave true (slot :: rest) = ['\n'] :: weave false (slot :: rest) := by
        rw [weave, if_neg (by simpa using gap), here, lines]
        rfl
      rw [behind, here, List.dropWhile_cons_of_neg (by simp [notBlank])]
      rfl

theorem terminateLast_append (front : List Text) (line : Text) :
    terminateLast (front ++ [line]) = front ++ [terminated line] := by
  fun_induction terminateLast front with
  | case1 => rfl
  | case2 => rfl
  | case3 first rest notSingle ih =>
    obtain ⟨second, more, rfl⟩ := List.exists_cons_of_ne_nil notSingle
    simpa [terminateLast] using ih

theorem splice_append (front : List Text) (line : Text) (back region : List Text) :
    splice (front ++ line :: back) ⟨front.length, region⟩ =
      front ++ terminated line :: ['\n'] :: region ++
        (if (back.dropWhile blank).isEmpty then [] else ['\n'] :: back.dropWhile blank) := by
  have count : min front.length ((front ++ line :: back).length - 1) + 1 = front.length + 1 := by
    simp only [List.length_append, List.length_cons]
    omega
  have taken : (front ++ line :: back).take (front.length + 1) = front ++ [line] := by
    rw [List.take_length_add_append]
    rfl
  have left : (front ++ line :: back).drop (front.length + 1) = back := by
    rw [List.drop_length_add_append]
    rfl
  simp only [splice, count, taken, left, terminateLast_append, List.append_assoc,
    List.nil_append, List.cons_append]

theorem dropWhile_region {region : List Text} (h : IsRegion region) (rest : List Text) :
    (region ++ rest).dropWhile blank = region ++ rest := by
  obtain ⟨opens, -, -⟩ := h
  rw [List.cons_append, List.dropWhile_cons_of_neg (by simp [not_blank_of_regionBegin? opens])]

/-- A region put in after the first line that may have any goes before the ones that are there. -/
theorem splice_weave {front back : List Slot} {slot : Slot} {region : List Text}
    (bare : ∀ slot ∈ front, slot.regions = []) (regions : ∀ other ∈ slot.regions, IsRegion other)
    (notBlank : ∀ slot ∈ back, slot.regions ≠ [] → blank slot.line = false) :
    splice (weave false (front ++ slot :: back)) ⟨front.length, region⟩ =
      weave false (front ++ ⟨slot.line, region :: slot.regions⟩ :: back) := by
  have size : front.length = (front.map Slot.line).length := by simp
  rw [weave_bare bare, weave_bare bare, size]
  obtain ⟨line, others⟩ := slot
  have after : weave false (⟨line, region :: others⟩ :: back) =
      terminated line :: ['\n'] :: region ++ others.flatMap (['\n'] :: ·) ++ weave true back := by
    rw [weave, if_neg (by simp)]
    simp [Slot.lines]
  cases others with
  | nil =>
    have before : weave false (⟨line, []⟩ :: back) = line :: weave false back := by
      rw [weave, if_neg (by simp)]
      simp [Slot.lines]
    rw [before, after, splice_append, ← weave_behind notBlank]
    simp
  | cons other others =>
    have before : weave false (⟨line, other :: others⟩ :: back) = terminated line ::
        (['\n'] :: (other ++ (others.flatMap (['\n'] :: ·) ++ weave true back))) := by
      rw [weave, if_neg (by simp)]
      simp [Slot.lines]
    rw [List.forall_mem_cons] at regions
    rw [before, after, splice_append, List.dropWhile_cons_of_pos blank_feed,
      dropWhile_region regions.1, terminated_terminated, if_neg]
    · simp
    · obtain ⟨_, _, _⟩ := regions.1
      simp

/-- The regions that go in after the line at an index, in order. -/
def regionsAt (insertions : List Insertion) (index : Nat) : List (List Text) :=
  (insertions.filter fun insertion => insertion.after = index).map (·.lines)

/-- Lines with the regions after each, where the first line has the given index. -/
def slotsFrom (regions : Nat → List (List Text)) : (index : Nat) → List Text → List Slot
  | _, [] => []
  | index, line :: rest => ⟨line, regions index⟩ :: slotsFrom regions (index + 1) rest

theorem slotsFrom_append (regions : Nat → List (List Text)) (index : Nat) (front back : List Text) :
    slotsFrom regions index (front ++ back) =
      slotsFrom regions index front ++ slotsFrom regions (index + front.length) back := by
  induction front generalizing index with
  | nil => rfl
  | cons line front ih =>
    simp only [List.cons_append, slotsFrom, ih, List.length_cons]
    rw [Nat.add_assoc, Nat.add_comm 1]

theorem slotsFrom_congr {regions regions' : Nat → List (List Text)} {index : Nat}
    {lines : List Text}
    (same : ∀ i, index ≤ i → i < index + lines.length → regions i = regions' i) :
    slotsFrom regions index lines = slotsFrom regions' index lines := by
  induction lines generalizing index with
  | nil => rfl
  | cons line rest ih =>
    simp only [List.length_cons] at same
    rw [slotsFrom, slotsFrom, same index (Nat.le_refl _) (by omega),
      ih fun i ge lt => same i (by omega) (by omega)]

@[simp] theorem slotsFrom_lines (regions : Nat → List (List Text)) (index : Nat)
    (lines : List Text) : (slotsFrom regions index lines).map Slot.line = lines := by
  induction lines generalizing index with
  | nil => rfl
  | cons line rest ih => simp [slotsFrom, ih]

@[simp] theorem slotsFrom_length (regions : Nat → List (List Text)) (index : Nat)
    (lines : List Text) : (slotsFrom regions index lines).length = lines.length := by
  rw [← List.length_map (f := Slot.line), slotsFrom_lines]

theorem slotsFrom_bare {regions : Nat → List (List Text)} {index : Nat} {lines : List Text}
    (noneHere : ∀ i, index ≤ i → i < index + lines.length → regions i = []) :
    ∀ slot ∈ slotsFrom regions index lines, slot.regions = [] := by
  induction lines generalizing index with
  | nil => simp [slotsFrom]
  | cons line rest ih =>
    simp only [List.length_cons] at noneHere
    rw [slotsFrom, List.forall_mem_cons]
    exact ⟨noneHere index (Nat.le_refl _) (by omega),
      ih fun i ge lt => noneHere i (by omega) (by omega)⟩

theorem getElem?_slotsFrom (regions : Nat → List (List Text)) (index : Nat) (lines : List Text)
    (i : Nat) :
    (slotsFrom regions index lines)[i]? = lines[i]?.map fun line => ⟨line, regions (index + i)⟩ := by
  induction lines generalizing index i with
  | nil => rfl
  | cons line rest ih =>
    cases i with
    | zero => rfl
    | succ i =>
      simp only [slotsFrom, List.getElem?_cons_succ, ih]
      rw [Nat.add_assoc, Nat.add_comm 1]

theorem exists_of_mem_slotsFrom {regions : Nat → List (List Text)} {index : Nat}
    {lines : List Text} {slot : Slot} (member : slot ∈ slotsFrom regions index lines) :
    ∃ i, lines[i]? = some slot.line ∧ slot.regions = regions (index + i) := by
  obtain ⟨i, found⟩ := List.mem_iff_getElem?.mp member
  rw [getElem?_slotsFrom, Option.map_eq_some_iff] at found
  obtain ⟨line, here, rfl⟩ := found
  exact ⟨i, here, rfl⟩

theorem regionsAt_cons (insertion : Insertion) (insertions : List Insertion) (index : Nat) :
    regionsAt (insertion :: insertions) index =
      if insertion.after = index then insertion.lines :: regionsAt insertions index
      else regionsAt insertions index := by
  unfold regionsAt
  rw [List.filter_cons]
  split <;> simp_all

theorem exists_of_regionsAt {insertions : List Insertion} {index : Nat}
    (h : regionsAt insertions index ≠ []) : ∃ insertion ∈ insertions, insertion.after = index := by
  obtain ⟨region, member⟩ := List.exists_mem_of_ne_nil _ h
  obtain ⟨insertion, found, -⟩ := List.mem_map.mp member
  exact ⟨insertion, by simpa using List.mem_filter.mp found⟩

theorem exists_split {α : Type} {list : List α} {i : Nat} {a : α} (h : list[i]? = some a) :
    ∃ front back, list = front ++ a :: back ∧ front.length = i := by
  obtain ⟨size, found⟩ := List.getElem?_eq_some_iff.mp h
  refine ⟨list.take i, list.drop (i + 1), ?_, by simp; omega⟩
  rw [← found, ← List.drop_eq_getElem_cons size, List.take_append_drop]

/-- Insertions after lines that are there and not blank, in the order of the lines. -/
structure Ordered (lines : List Text) (insertions : List Insertion) : Prop where
  sorted : insertions.Pairwise fun a b => a.after ≤ b.after
  after : ∀ insertion ∈ insertions, ∃ line, lines[insertion.after]? = some line ∧ blank line = false
  regions : ∀ insertion ∈ insertions, IsRegion insertion.lines

theorem Ordered.notBlank {lines : List Text} {insertions : List Insertion}
    (h : Ordered lines insertions) {i : Nat} {line : Text} (here : lines[i]? = some line)
    (tagged : regionsAt insertions i ≠ []) : blank line = false := by
  obtain ⟨insertion, member, rfl⟩ := exists_of_regionsAt tagged
  obtain ⟨line', found, notBlank⟩ := h.after insertion member
  rw [here] at found
  rwa [Option.some.inj found]

/-- **Putting regions in** from the last to the first writes the file as from its front. -/
theorem spliceAll_eq_weave {lines : List Text} {insertions : List Insertion}
    (ordered : Ordered lines insertions) :
    spliceAll lines insertions = weave false (slotsFrom (regionsAt insertions) 0 lines) := by
  induction insertions with
  | nil =>
    have bare : ∀ slot ∈ slotsFrom (regionsAt []) 0 lines, slot.regions = [] :=
      slotsFrom_bare fun _ _ _ => rfl
    have all := weave_bare bare []
    rw [List.append_nil, slotsFrom_lines, weave, List.append_nil] at all
    exact all.symm
  | cons insertion rest ih =>
    obtain ⟨sorted, after, regions⟩ := ordered
    rw [List.pairwise_cons] at sorted
    rw [List.forall_mem_cons] at after regions
    have ordered : Ordered lines rest := ⟨sorted.2, after.2, regions.2⟩
    obtain ⟨line, here, -⟩ := after.1
    obtain ⟨front, back, rfl, size⟩ := exists_split here
    have noneBefore (i : Nat) (before : i < front.length) : regionsAt rest i = [] := by
      by_contra someThere
      obtain ⟨other, member, rfl⟩ := exists_of_regionsAt someThere
      have later := sorted.1 other member
      omega
    have bare : ∀ slot ∈ slotsFrom (regionsAt rest) 0 front, slot.regions = [] :=
      slotsFrom_bare fun i _ lt => noneBefore i (by omega)
    have others : ∀ other ∈ regionsAt rest insertion.after, IsRegion other := by
      intro other member
      obtain ⟨found, inRest, rfl⟩ := List.mem_map.mp member
      exact regions.2 found (List.mem_filter.mp inRest).1
    have notBlank : ∀ slot ∈ slotsFrom (regionsAt rest) (insertion.after + 1) back,
        slot.regions ≠ [] → blank slot.line = false := by
      intro slot member tagged
      obtain ⟨i, found, eq⟩ := exists_of_mem_slotsFrom member
      rw [eq] at tagged
      refine ordered.notBlank ?_ tagged
      rw [← size, Nat.add_assoc, List.getElem?_append_right (Nat.le_add_right ..),
        Nat.add_sub_cancel_left, Nat.add_comm 1, List.getElem?_cons_succ, found]
    have spliced : splice
        (weave false (slotsFrom (regionsAt rest) 0 front ++ ⟨line, regionsAt rest insertion.after⟩ ::
          slotsFrom (regionsAt rest) (insertion.after + 1) back))
        ⟨(slotsFrom (regionsAt rest) 0 front).length, insertion.lines⟩ = _ :=
      splice_weave bare others notBlank
    have before : slotsFrom (regionsAt rest) 0 (front ++ line :: back) =
        slotsFrom (regionsAt rest) 0 front ++ ⟨line, regionsAt rest insertion.after⟩ ::
          slotsFrom (regionsAt rest) (insertion.after + 1) back := by
      rw [slotsFrom_append, slotsFrom, Nat.zero_add, size]
    have after : slotsFrom (regionsAt (insertion :: rest)) 0 (front ++ line :: back) =
        slotsFrom (regionsAt rest) 0 front ++
          ⟨line, insertion.lines :: regionsAt rest insertion.after⟩ ::
            slotsFrom (regionsAt rest) (insertion.after + 1) back := by
      rw [slotsFrom_append, slotsFrom, Nat.zero_add, size, regionsAt_cons, if_pos rfl]
      congr 1
      · exact slotsFrom_congr fun i _ lt => by rw [regionsAt_cons, if_neg (by omega)]
      · congr 1
        exact slotsFrom_congr fun i ge _ => by rw [regionsAt_cons, if_neg (by omega)]
    rw [slotsFrom_length, size, ← before, ← after, ← ih ordered] at spliced
    exact spliced

end Prefill.Region
