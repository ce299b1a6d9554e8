import Prefill.Injection
import Prefill.Proofs.Lines
import Prefill.Proofs.Weaving

/-!
Where the lines of a file stand after its regions have been taken out. Only blank lines come and go,
so every other line has a new index (`tidyIndex`), in the same order. The markers of the tidy file
are the markers at their new indices (`requests_tidy`), and the first code after a line is the same
(`nextCode?_tidy`).
-/

namespace Prefill

open Text

namespace Region

/-- The slot as it stands in the tidy file. -/
def Slot.tidied (slot : Slot) : Slot :=
  if slot.regions.isEmpty then slot else ⟨terminated slot.line, slot.regions⟩

/-- The index that the slot at an index has in the tidy file, if it is no gap. -/
def tidyIndex : (behind : Bool) → List Slot → Nat → Nat
  | _, [], i => i
  | _, _ :: _, 0 => 0
  | behind, slot :: rest, i + 1 =>
    if behind && slot.isGap then tidyIndex true rest i
    else if slot.regions.isEmpty then tidyIndex false rest i + 1
    else tidyIndex true rest i + 2

theorem getElem?_tidyIndex {slots : List Slot} {behind : Bool} {i : Nat} {slot : Slot}
    (here : slots[i]? = some slot) (noGap : slot.isGap = false) :
    (tidy behind slots)[tidyIndex behind slots i]? = some slot.tidied := by
  induction slots generalizing behind i with
  | nil => cases here
  | cons first rest ih =>
    cases i with
    | zero =>
      obtain rfl : first = slot := by simpa using here
      rw [tidy, tidyIndex, if_neg (by simp [noGap])]
      unfold Slot.tidied
      split <;> simp_all
    | succ i =>
      rw [List.getElem?_cons_succ] at here
      rw [tidy, tidyIndex]
      split
      · exact ih here
      · split
        · exact ih here
        · exact ih here

theorem tidyIndex_lt {slots : List Slot} {behind : Bool} {i j : Nat} {slot : Slot} (lt : i < j)
    (here : slots[i]? = some slot) (noGap : slot.isGap = false) :
    tidyIndex behind slots i < tidyIndex behind slots j := by
  induction slots generalizing behind i j with
  | nil => cases here
  | cons first rest ih =>
    obtain ⟨j, rfl⟩ := Nat.exists_eq_add_of_le' (Nat.lt_of_le_of_lt (Nat.zero_le i) lt)
    cases i with
    | zero =>
      obtain rfl : first = slot := by simpa using here
      rw [tidyIndex, tidyIndex, if_neg (by simp [noGap])]
      split <;> omega
    | succ i =>
      rw [List.getElem?_cons_succ] at here
      rw [tidyIndex, tidyIndex]
      have later (b : Bool) : tidyIndex b rest i < tidyIndex b rest j :=
        ih (Nat.lt_of_succ_lt_succ lt) here
      split
      · exact later true
      · split
        · exact Nat.add_lt_add_right (later false) 1
        · exact Nat.add_lt_add_right (later true) 2

/-- Every line of the tidy file that is not blank was there before. -/
theorem exists_of_tidy {slots : List Slot} {behind : Bool} {k : Nat} {slot' : Slot}
    (here : (tidy behind slots)[k]? = some slot') (notBlank : blank slot'.line = false) :
    ∃ i slot, slots[i]? = some slot ∧ slot.isGap = false ∧ tidyIndex behind slots i = k ∧
      slot' = slot.tidied := by
  induction slots generalizing behind k with
  | nil => cases here
  | cons first rest ih =>
    rw [tidy] at here
    split at here
    · rename_i gap
      obtain ⟨i, slot, found, noGap, rfl, eq⟩ := ih here
      exact ⟨i + 1, slot, found, noGap, by rw [tidyIndex, if_pos gap], eq⟩
    · rename_i noGap
      split at here
      · rename_i bare
        cases k with
        | zero =>
          obtain rfl : first = slot' := by simpa using here
          exact ⟨0, first, rfl, by simp [Slot.isGap, notBlank], rfl, by simp [Slot.tidied, bare]⟩
        | succ k =>
          obtain ⟨i, slot, found, noGap', rfl, eq⟩ := ih here
          exact ⟨i + 1, slot, found, noGap', by rw [tidyIndex, if_neg noGap, if_pos bare], eq⟩
      · rename_i tagged
        rcases k with _ | _ | k
        · exact ⟨0, first, rfl, by simp [Slot.isGap, tagged], rfl,
            by simpa [Slot.tidied, tagged, eq_comm] using here⟩
        · obtain rfl : (⟨['\n'], []⟩ : Slot) = slot' := by simpa using here
          simp [blank_feed] at notBlank
        · obtain ⟨i, slot, found, noGap', rfl, eq⟩ := ih here
          exact ⟨i + 1, slot, found, noGap', by rw [tidyIndex, if_neg noGap, if_neg tagged], eq⟩

/-- Lines that have regions have a line feed and are not blank. -/
def Settled (slots : List Slot) : Prop :=
  ∀ slot ∈ slots, slot.regions ≠ [] → Ended slot.line ∧ blank slot.line = false

theorem terminated_of_ended {line : Text} (h : Ended line) : terminated line = line := by
  obtain ⟨body, -, rfl⟩ := h
  simp [terminated]

theorem Settled.tidied {slots : List Slot} (settled : Settled slots) {slot : Slot}
    (member : slot ∈ slots) : slot.tidied = slot := by
  unfold Slot.tidied
  split
  · rfl
  · rename_i tagged
    rw [terminated_of_ended (settled slot member (by simpa using tagged)).1]

end Region

namespace Injection

/-- A marker that stands elsewhere. -/
def Request.at (request : Request) (index : Nat) : Request := { request with index }

theorem requests_append (front back : List Text) :
    requests (front ++ back) =
      requests front ++ (requests back).map fun r => r.at (front.length + r.index) := by
  have shifted := List.zipIdx_eq_map_add (l := back) (i := 0 + front.length)
  unfold requests
  rw [List.zipIdx_append, List.filterMap_append, shifted, List.filterMap_map, List.map_filterMap]
  congr 2
  funext ⟨line, index⟩
  simp only [Function.comp_apply, Nat.zero_add]
  cases Marker.classify? line with
  | none => rfl
  | some marker =>
    cases marker with
    | placeholder => rfl
    | injection method => simp only [Option.map_some, Request.at]

theorem requests_cons (line : Text) (rest : List Text) :
    requests (line :: rest) = requests [line] ++ (requests rest).map fun r => r.at (r.index + 1) := by
  rw [← List.singleton_append, requests_append]
  congr 2
  funext r
  rw [List.length_singleton, Nat.add_comm]

theorem requests_of_blank {line : Text} (h : blank line = true) : requests [line] = [] := by
  simp [requests, Marker.classify?_of_blank h]

/-- A request stands on a line that is not blank. -/
theorem exists_line_of_request {lines : List Text} {r : Request} (member : r ∈ requests lines) :
    ∃ line, lines[r.index]? = some line ∧ blank line = false := by
  obtain ⟨⟨line, index⟩, numbered, found⟩ := List.mem_filterMap.mp member
  have here := List.mem_zipIdx_iff_getElem?.mp numbered
  dsimp only at found here
  refine ⟨line, ?_, ?_⟩
  · split at found
    · rwa [← Option.some.inj found]
    · cases found
  · by_contra isBlank
    rw [Marker.classify?_of_blank (by simpa using isBlank)] at found
    cases found

theorem index_of_requests_singleton {line : Text} {r : Request} (member : r ∈ requests [line]) :
    r.index = 0 := by
  cases found : Marker.classify? line with
  | none => simp [requests, found] at member
  | some marker =>
    cases marker with
    | placeholder => simp [requests, found] at member
    | injection method =>
      obtain rfl : r = ⟨0, method, line⟩ := by simpa [requests, found] using member
      rfl

theorem map_at_self {requests : List Request} {index : Request → Nat}
    (same : ∀ r ∈ requests, index r = r.index) : requests.map (fun r => r.at (index r)) = requests := by
  refine (List.map_congr_left fun r member => ?_).trans (List.map_id requests)
  rw [same r member]
  rfl

/-- **The markers of the tidy file** are the markers of the file, at their new places. -/
theorem requests_tidy {slots : List Region.Slot} (settled : Region.Settled slots) (behind : Bool) :
    requests ((Region.tidy behind slots).map Region.Slot.line) =
      (requests (slots.map Region.Slot.line)).map fun r =>
        r.at (Region.tidyIndex behind slots r.index) := by
  induction slots generalizing behind with
  | nil => rfl
  | cons slot rest ih =>
    rw [Region.Settled, List.forall_mem_cons] at settled
    have first : (requests [slot.line]).map
        (fun r => r.at (Region.tidyIndex behind (slot :: rest) r.index)) = requests [slot.line] := by
      refine map_at_self fun r member => ?_
      rw [index_of_requests_singleton member]
      rfl
    rw [List.map_cons, requests_cons slot.line, List.map_append, first, List.map_map]
    rw [Region.tidy]
    split
    · rename_i gap
      obtain ⟨rfl, -, isBlank⟩ : behind = true ∧ slot.regions = [] ∧ blank slot.line = true := by
        simpa [Region.Slot.isGap] using gap
      rw [requests_of_blank isBlank, List.nil_append, ih settled.2]
      refine List.map_congr_left fun r _ => ?_
      simp [Request.at, Region.tidyIndex, gap]
    · rename_i noGap
      split
      · rename_i bare
        rw [List.map_cons, requests_cons, ih settled.2, List.map_map]
        congr 1
        refine List.map_congr_left fun r _ => ?_
        simp [Request.at, Region.tidyIndex, noGap, bare]
      · rename_i tagged
        have ended := Region.terminated_of_ended (settled.1 (by simpa using tagged)).1
        rw [List.map_cons, List.map_cons, requests_cons, requests_cons ['\n'],
          requests_of_blank Region.blank_feed, ih settled.2, ended]
        simp only [List.nil_append, List.map_map]
        congr 1
        refine List.map_congr_left fun r _ => ?_
        simp [Request.at, Region.tidyIndex, noGap, tagged]

theorem findIdx?_eq_some_iff' {α : Type} {p : α → Bool} {list : List α} {i : Nat} :
    list.findIdx? p = some i ↔ (∃ a, list[i]? = some a ∧ p a = true) ∧
      ∀ j a, j < i → list[j]? = some a → p a = false := by
  rw [List.findIdx?_eq_some_iff_getElem]
  constructor
  · rintro ⟨size, holds, before⟩
    refine ⟨⟨list[i], by simp, holds⟩, fun j a lt found => ?_⟩
    obtain ⟨_, rfl⟩ := List.getElem?_eq_some_iff.mp found
    simpa using before j lt
  · rintro ⟨⟨a, found, holds⟩, before⟩
    obtain ⟨size, rfl⟩ := List.getElem?_eq_some_iff.mp found
    exact ⟨size, holds, fun j lt => by simp [before j list[j] lt (by simp)]⟩

theorem nextCode?_eq_some_iff {lines : List Text} {i j : Nat} :
    nextCode? lines i = some j ↔ i < j ∧ (∃ line, lines[j]? = some line ∧ isCode line = true) ∧
      ∀ k line, i < k → k < j → lines[k]? = some line → isCode line = false := by
  unfold nextCode?
  rw [Option.map_eq_some_iff]
  simp only [findIdx?_eq_some_iff', List.getElem?_drop]
  constructor
  · rintro ⟨k, ⟨here, before⟩, rfl⟩
    refine ⟨by omega, here, fun l line after lt found => ?_⟩
    refine before (l - (i + 1)) line (by omega) ?_
    rwa [Nat.add_sub_cancel' after]
  · rintro ⟨lt, here, before⟩
    refine ⟨j - (i + 1), ⟨?_, fun k line after found => ?_⟩, Nat.add_sub_cancel' lt⟩
    · rwa [Nat.add_sub_cancel' lt]
    · exact before _ line (by omega) (by omega) found

theorem blank_of_isCode {line : Text} (h : isCode line = true) : blank line = false := by
  by_contra isBlank
  have gone : trimStart line = [] :=
    List.dropWhile_eq_nil_iff.mpr (by simpa [blank] using isBlank)
  simp [isCode, trim, gone, trimEnd] at h

theorem isGap_of_isCode {slot : Region.Slot} (h : isCode slot.line = true) :
    slot.isGap = false := by
  simp [Region.Slot.isGap, blank_of_isCode h]

/-- **The first code after a line** of the tidy file is the same line of code. -/
theorem nextCode?_tidy {slots : List Region.Slot} (settled : Region.Settled slots) {behind : Bool}
    {i j : Nat} {slot : Region.Slot} (here : slots[i]? = some slot) (noGap : slot.isGap = false)
    (found : nextCode? (slots.map Region.Slot.line) i = some j) :
    nextCode? ((Region.tidy behind slots).map Region.Slot.line)
        (Region.tidyIndex behind slots i) = some (Region.tidyIndex behind slots j) := by
  rw [nextCode?_eq_some_iff] at found ⊢
  obtain ⟨lt, ⟨line, there, code⟩, before⟩ := found
  rw [List.getElem?_map, Option.map_eq_some_iff] at there
  obtain ⟨target, there, rfl⟩ := there
  refine ⟨Region.tidyIndex_lt lt here noGap, ⟨target.line, ?_, code⟩, ?_⟩
  · rw [List.getElem?_map, Region.getElem?_tidyIndex there (isGap_of_isCode code),
      Option.map_some, settled.tidied (List.mem_of_getElem? there)]
  · intro k line after lt' found
    by_contra isCode
    rw [List.getElem?_map, Option.map_eq_some_iff] at found
    obtain ⟨slot', found, rfl⟩ := found
    rw [Bool.not_eq_false] at isCode
    obtain ⟨l, between, was, noGap', rfl, rfl⟩ := Region.exists_of_tidy found (blank_of_isCode isCode)
    -- Both ends of the search are lines that stay, so a line between them was between them.
    have above : i < l := by
      by_contra le
      obtain rfl | lt := Nat.eq_or_lt_of_le (Nat.le_of_not_lt le)
      · exact Nat.lt_irrefl _ after
      · exact Nat.lt_asymm after (Region.tidyIndex_lt lt was noGap')
    have below : l < j := by
      by_contra le
      obtain rfl | lt := Nat.eq_or_lt_of_le (Nat.le_of_not_lt le)
      · exact Nat.lt_irrefl _ lt'
      · exact Nat.lt_asymm lt' (Region.tidyIndex_lt lt there (isGap_of_isCode code))
    have noneBetween := before l between.line above below (by simp [was])
    rw [settled.tidied (List.mem_of_getElem? was), noneBetween] at isCode
    cases isCode

end Injection

end Prefill
