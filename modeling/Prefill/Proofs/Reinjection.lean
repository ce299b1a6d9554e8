import Prefill.Proofs.Insertions
import Prefill.Proofs.Literals
import Prefill.Proofs.Restoring

/-!
Injecting twice. A file that injection has written holds its markers still, so a second run takes
the regions out and puts the same ones in (`inject_again`). This rests on three facts: the regions
stand in the order of the lines (`ordered_insertionsOf`), so taking them out leaves the file tidy;
the tidy file is the file carried over, with the added imports below its head and no error that it
had not before (`carried_with_imports`); and a file that is carried over gets the same regions
(`Carried.applyMarkers`). A file that a region ends is taken with its last line ended (`ground`).

The first fact fails where a line inside a region reads as the end of one (`decoder_cut`).
-/

namespace Prefill

open Text

namespace Text

/-! ### Words and whole lines -/

theorem isBlank_of_isAsciiWordPart {c : Char} (h : isAsciiWordPart c = true) : isBlank c = false := by
  have graphic : 0x20 < c.toNat ∧ c.toNat < 0x7f := by
    simp only [isAsciiWordPart, isAsciiLetter, isAsciiDigit, Bool.or_eq_true, Bool.and_eq_true,
      decide_eq_true_eq, beq_iff_eq] at h
    obtain ((⟨low, high⟩ | ⟨low, high⟩) | ⟨low, high⟩) | rfl := h
    · have low : 97 ≤ c.toNat := low
      have high : c.toNat ≤ 122 := high
      omega
    · have low : 65 ≤ c.toNat := low
      have high : c.toNat ≤ 90 := high
      omega
    · have low : 48 ≤ c.toNat := low
      have high : c.toNat ≤ 57 := high
      omega
    · decide
  exact Literal.isBlank_of_graphic graphic.1 graphic.2

end Text

namespace Marker

/-- The method that a marker asks for is an identifier. -/
theorem method_of_classify? {line method : Text} (h : classify? line = some (.injection method)) :
    method ≠ [] ∧ ∀ c ∈ method, isAsciiWordPart c = true := by
  obtain ⟨comment, -, h⟩ := Option.bind_eq_some_iff.mp h
  split at h
  · rename_i found asks
    obtain rfl : found = method := by simpa using h
    obtain ⟨rest, -, asks⟩ := Option.bind_eq_some_iff.mp asks
    obtain ⟨⟨word, left⟩, isWord, asks⟩ := Option.bind_eq_some_iff.mp asks
    dsimp only at asks
    split at asks
    · obtain rfl := Option.some.inj asks
      exact (isWord_of_word? isWord).parts
    · cases asks
  · obtain ⟨⟨name, arguments⟩, -, h⟩ := Option.bind_eq_some_iff.mp h
    dsimp only at h
    split at h <;> cases h

end Marker

namespace Region

/-! ### Regions as they are written -/

/-- A region for a word is one, if no line but its last closes it. -/
theorem isRegion_of_word {method : Text} {parts : List Text} (someMethod : method ≠ [])
    (word : ∀ c ∈ method, isAsciiWordPart c = true)
    (inner : ∀ line ∈ (linesOf method parts).dropLast, Marker.isRegionEnd line = false) :
    IsRegion (linesOf method parts) := by
  have solid (c : Char) (member : c ∈ method) := isBlank_of_isAsciiWordPart (word c member)
  have notBlank : blank method = false := by
    obtain ⟨c, member⟩ := List.exists_mem_of_ne_nil _ someMethod
    simpa [blank] using ⟨c, member, solid c member⟩
  have oneLine : '\n' ∉ method := by
    intro feeds
    exact absurd (solid _ feeds) (by decide)
  apply isRegion_linesOf notBlank oneLine
  intro line member
  apply inner
  rw [linesOf_eq oneLine, ← List.cons_append, List.dropLast_concat]
  exact List.mem_cons_of_mem _ member

end Region

namespace Injection

open Go Region

/-! ### Files that keep their regions -/

theorem method_of_request {lines : List Text} {r : Request} (member : r ∈ requests lines) :
    r.method ≠ [] ∧ ∀ c ∈ r.method, isAsciiWordPart c = true := by
  obtain ⟨⟨line, index⟩, -, found⟩ := List.mem_filterMap.mp member
  dsimp only at found
  split at found
  · rename_i method asks
    rw [← Option.some.inj found]
    exact Marker.method_of_classify? asks
  · cases found

/-- The lines that are put in below the head. -/
def importLines (project : Project) (depth : Nat) (text : Text) : List Text :=
  (if (Source.ofText text).imports.isEmpty then [['\n']] else []) ++
    (importsOf project depth text).specs.map ImportSpec.line

/-- **A file that takes its regions:** no line inside a region closes it, nothing runs across the line
ends where regions go, and where imports are added the head stands apart from the markers and the
paths are plain. -/
structure Receives (project : Project) (depth : Nat) (text : Text) : Prop where
  closed : ∀ copy ∈ copies project depth text, ∀ line ∈ copy.lines.dropLast,
    Marker.isRegionEnd line = false
  clear : ∀ insertion ∈ insertionsOf project depth text, Clear text (insertion.after + 1)
  head : importsOf project depth text ≠ [] →
    HeadApart text ∧ 0 < (Source.ofText text).preambleEnd ∧
      ∀ r ∈ requests (rawLines text), (Source.ofText text).preambleEnd ≤ r.index
  plain : importsOf project depth text ≠ [] → ∀ copy ∈ copies project depth text,
    ∀ need ∈ copy.needs, (need.path.all fun c => shown c = [c]) = true

instance (project : Project) (depth : Nat) (text : Text) : Decidable (Receives project depth text) :=
  decidable_of_iff (_ ∧ _ ∧ _ ∧ _)
    ⟨fun ⟨a, b, c, d⟩ => ⟨a, b, c, d⟩, fun ⟨a, b, c, d⟩ => ⟨a, b, c, d⟩⟩

/-- The text that regions go into: with a line feed at its end, if a region goes there. -/
def ground (project : Project) (depth : Nat) (text : Text) : Text :=
  if ∃ insertion ∈ insertionsOf project depth text, insertion.after + 1 = (rawLines text).length
  then terminated text else text

/-- **What a second injection needs:** a file that takes its regions, and that says the same with the
line feed that a region at its end gives it. -/
structure Repeatable (project : Project) (depth : Nat) (text : Text) : Prop where
  outline : (Source.ofText (ground project depth text)).outline = (Source.ofText text).outline
  errors : (Source.ofText text).hasErrors = false →
    (Source.ofText (ground project depth text)).hasErrors = false
  receives : Receives project depth (ground project depth text)

instance (project : Project) (depth : Nat) (text : Text) : Decidable (Repeatable project depth text) :=
  decidable_of_iff (_ ∧ _ ∧ _) ⟨fun ⟨a, b, c⟩ => ⟨a, b, c⟩, fun ⟨a, b, c⟩ => ⟨a, b, c⟩⟩

/-- A file that takes its regions as it stands needs no line feed. -/
theorem Receives.repeatable {project : Project} {depth : Nat} {text : Text}
    (receives : Receives project depth text) : Repeatable project depth text := by
  have still : ground project depth text = text := by
    unfold ground
    split
    · rename_i behind
      obtain ⟨insertion, member, size⟩ := behind
      obtain ⟨line, found, holds⟩ :=
        Option.any_eq_true _ _ |>.mp (receives.clear insertion member).stands
      have feeds : line.getLast? = some '\n' := by simpa using (Bool.and_eq_true_iff.mp holds).1
      have last : (rawLines text).getLast? = some line := by
        rwa [List.getLast?_eq_getElem?, ← size]
      obtain ⟨front, lines⟩ := List.getLast?_eq_some_iff.mp last
      have whole : text = front.flatten ++ line := by
        rw [← rawLines_flatten text, lines]
        simp
      exact if_pos (by rw [whole, List.getLast?_append, feeds]; rfl)
    · rfl
  refine ⟨by rw [still], by rw [still]; exact id, by rwa [still]⟩

section

variable {project : Project} {depth : Nat} {text : Text} (answered : Answered text)
  (receives : Receives project depth text)
include answered receives

theorem ordered_insertionsOf : Ordered (rawLines text) (insertionsOf project depth text) := by
  refine ⟨?_, ?_, ?_⟩
  · exact insertionsOf_pairwise answered
  · intro insertion member
    have stands := (receives.clear insertion member).stands
    rw [Nat.add_sub_cancel] at stands
    obtain ⟨line, found, holds⟩ := Option.any_eq_true _ _ |>.mp stands
    refine ⟨line, found, ?_⟩
    simpa using (Bool.and_eq_true_iff.mp holds).2
  · intro insertion member
    obtain ⟨copy, inCopies, rfl⟩ := List.mem_map.mp member
    obtain ⟨someMethod, word⟩ := method_of_request (request_of_mem_copies inCopies)
    rw [Copy.insertion_lines]
    exact isRegion_of_word someMethod word (receives.closed copy inCopies)

end

/-! ### What a second run copies -/

/-- A copy for a marker that stands elsewhere. -/
def Copy.moved (index : Nat → Nat) (copy : Copy) : Copy :=
  { copy with request := copy.request.at (index copy.request.index) }

theorem copiesFrom_moved (project : Project) (depth : Nat) (index : Nat → Nat) (keys : List Text)
    (requests : List Request) :
    copiesFrom project depth keys (requests.map fun r => r.at (index r.index)) =
      (copiesFrom project depth keys requests).map (Copy.moved index) := by
  induction requests generalizing keys with
  | nil => rfl
  | cons request rest ih =>
    have first : copyFor? project depth keys (request.at (index request.index)) =
        (copyFor? project depth keys request).map (Copy.moved index) := by
      have method : (request.at (index request.index)).method = request.method := rfl
      rw [copyFor?, copyFor?, method, Option.map_map]
      rfl
    rw [List.map_cons, copiesFrom, copiesFrom, first]
    cases copyFor? project depth keys request with
    | none => exact ih keys
    | some copy => exact congrArg (copy.moved index :: ·) (ih _)

theorem entered_eq_nil {target : Source} {needs : List Need}
    (known : ∀ need ∈ needs, need.name ∈ target.imports.map (·.localName)) :
    entered target needs = [] := by
  apply List.eq_nil_iff_forall_not_mem.mpr
  intro entry member
  obtain ⟨need, needed, -, missing⟩ := exists_of_mem_entered member
  have present := import?_isSome_iff.mpr (known need needed)
  rw [missing] at present
  cases present

/-- A name that copied code needs is known, or entered. -/
theorem known_or_entered {target : Source} {needs : List Need} {need : Need} (needed : need ∈ needs) :
    need.name ∈ target.imports.map (·.localName) ∨
      need.name ∈ (entered target needs).specs.map (·.localName) := by
  cases present : target.import? need.name with
  | some i => exact .inl (import?_isSome_iff.mp (by rw [present]; rfl))
  | none =>
    have found := entered_find? present needs
    have someFirst : (needs.find? fun other => other.name = need.name).isSome = true :=
      List.find?_isSome.mpr ⟨need, needed, by simp⟩
    obtain ⟨first, isFirst⟩ := Option.isSome_iff_exists.mp someFirst
    rw [isFirst, Option.map_some, ImportTable.find?, Option.map_eq_some_iff] at found
    obtain ⟨entry, inTable, spec⟩ := found
    refine .inr (List.mem_map.mpr ⟨entry.2, ?_, ?_⟩)
    · exact List.mem_map_of_mem (List.mem_of_find?_eq_some inTable)
    · rw [spec, ImportSpec.localName_named]

theorem requests_eq_nil {lines : List Text} (h : ∀ line ∈ lines, Marker.classify? line = none) :
    requests lines = [] := by
  apply List.filterMap_eq_nil_iff.mpr
  intro pair member
  have unmarked := h pair.1 (List.fst_mem_of_mem_zipIdx member)
  simp only [unmarked]

/-- Lines that no marker of a file stands on ask for nothing. -/
theorem requests_front {front rest : List Text}
    (below : ∀ r ∈ requests (front ++ rest), front.length ≤ r.index) : requests front = [] := by
  apply List.eq_nil_iff_forall_not_mem.mpr
  intro r member
  obtain ⟨line, found, -⟩ := exists_line_of_request member
  have inside := (List.getElem?_eq_some_iff.mp found).1
  have outside := below r (by rw [requests_append]; exact List.mem_append_left _ member)
  omega

namespace Carried

variable {before after : Text} {index : Nat → Nat} (carried : Carried before after index)
  (project : Project) (depth : Nat)
include carried

theorem copies : copies project depth after =
    (Injection.copies project depth before).map (Copy.moved index) := by
  rw [Injection.copies, carried.keys, carried.requests, copiesFrom_moved]
  rfl

variable (answered : Answered before)
include answered

omit project depth in
theorem answered_again : Answered after := by
  intro request member
  rw [carried.requests] at member
  obtain ⟨r, inText, rfl⟩ := List.mem_map.mp member
  obtain ⟨interface, found⟩ := answered r inText
  obtain ⟨moved, found', -⟩ := carried.interfaces r inText interface found
  exact ⟨moved, found'⟩

theorem insertions : insertionsOf project depth after =
    (insertionsOf project depth before).map (Insertion.moved index) := by
  rw [insertionsOf, carried.copies, insertionsOf, List.map_map, List.map_map]
  refine List.map_congr_left fun copy member => ?_
  obtain ⟨interface, found⟩ := answered copy.request (request_of_mem_copies member)
  obtain ⟨moved, found', stop⟩ :=
    carried.interfaces copy.request (request_of_mem_copies member) interface found
  have again : interfaceFor (Source.ofText after) (rawLines after) (copy.moved index).request =
      .ok moved := found'
  rw [Function.comp_apply, Function.comp_apply, insertion_of_ok again, insertion_of_ok found, stop]
  rfl

/-- **A file that is carried over** is answered with the same regions at their new places, if it
imports all that they need. -/
theorem applyMarkers {project : Project} {site : Fill.Site}
    (known : ∀ copy ∈ Injection.copies project site.depth before, ∀ need ∈ copy.needs,
      need.name ∈ (Source.ofText after).imports.map (·.localName)) :
    (applyMarkers project site after).result =
      .ok ⟨(spliceAll (rawLines after) ((insertionsOf project site.depth before).map
        (Insertion.moved index))).flatten, (Injection.copies project site.depth before).length⟩ := by
  obtain ⟨injected, result⟩ : ∃ injected, (Injection.applyMarkers project site after).result =
      .ok injected := exists_applied (carried.answered_again answered)
  obtain ⟨-, made, -⟩ := applyMarkers_ok result
  have noneAdded : entered (Source.ofText after)
      ((Injection.copies project site.depth after).flatMap Copy.needs) = [] := by
    apply entered_eq_nil
    intro need needed
    obtain ⟨_, member, inCopy⟩ := List.mem_flatMap.mp needed
    rw [carried.copies] at member
    obtain ⟨copy, inBefore, rfl⟩ := List.mem_map.mp member
    exact known copy inBefore need inCopy
  have size : (Injection.copies project site.depth after).length =
      (Injection.copies project site.depth before).length := by
    rw [carried.copies, List.length_map]
  have places := carried.insertions project site.depth answered
  rw [result, made, written, noneAdded, size]
  rw [insertionsOf] at places
  rw [places]
  rfl

end Carried

/-! ### Injecting twice -/

theorem Receives.clear_slots {project : Project} {depth : Nat} {text : Text}
    (receives : Receives project depth text) {i : Nat} {slot : Slot}
    (here : (slotsFrom (regionsAt (insertionsOf project depth text)) 0 (rawLines text))[i]? =
      some slot) (tagged : slot.regions ≠ []) : Clear text (i + 1) := by
  rw [getElem?_slotsFrom] at here
  obtain ⟨line, -, rfl⟩ := Option.map_eq_some_iff.mp here
  rw [Nat.zero_add] at tagged
  obtain ⟨insertion, member, rfl⟩ := exists_of_regionsAt tagged
  exact receives.clear insertion member

theorem tidyIndex_below {front : List Slot} (bare : ∀ slot ∈ front, slot.regions = [])
    (rest : List Slot) (i : Nat) :
    tidyIndex false (front ++ rest) i - front.length = tidyIndex false rest (i - front.length) := by
  by_cases within : i < front.length
  · have start : tidyIndex false rest 0 = 0 := by cases rest <;> rfl
    rw [tidyIndex_within bare (fun _ _ => rfl) rest within,
      Nat.sub_eq_zero_of_le (Nat.le_of_lt within), start]
  · obtain ⟨j, rfl⟩ := Nat.exists_eq_add_of_le (Nat.le_of_not_lt within)
    rw [tidyIndex_bare bare (fun _ _ => rfl), Nat.add_sub_cancel_left, Nat.add_sub_cancel_left,
      Bool.false_and]

/-- Regions go into tidy lines below others as they go into the lines. -/
theorem spliceAll_tidy_below (front : List Text) {rest : List Text} {all : List Insertion} {n : Nat}
    (ordered : Ordered rest (all.map (Insertion.moved (· - n)))) :
    let slots := slotsFrom (regionsAt (all.map (Insertion.moved (· - n)))) 0 rest
    spliceAll (front ++ (tidy false slots).map Slot.line)
        (all.map (Insertion.moved fun i => front.length + tidyIndex false slots (i - n))) =
      front ++ spliceAll rest (all.map (Insertion.moved (· - n))) := by
  intro slots
  have places : (all.map (Insertion.moved fun i =>
      front.length + tidyIndex false slots (i - n))).map (Insertion.moved (· - front.length)) =
      (all.map (Insertion.moved (· - n))).map (Insertion.moved (tidyIndex false slots)) := by
    rw [List.map_map, List.map_map]
    refine List.map_congr_left fun insertion _ => ?_
    simp only [Function.comp_apply, Insertion.moved, Nat.add_sub_cancel_left]
  rw [spliceAll_below, places, spliceAll_tidy ordered]
  · intro someInsertion
    obtain ⟨insertion, member⟩ := List.exists_mem_of_ne_nil _ someInsertion
    have there := List.mem_map_of_mem (f := Insertion.moved (· - front.length)) member
    rw [places] at there
    obtain ⟨line, found, -⟩ := ordered.tidied.after _ there
    exact List.ne_nil_of_mem (List.mem_of_getElem? found)
  · intro insertion member
    obtain ⟨before, -, rfl⟩ := List.mem_map.mp member
    exact Nat.le_add_right ..

section

variable {project : Project} {depth : Nat} {text : Text} (loaded : project.Loaded)
  (receives : Receives project depth text) (someAdded : importsOf project depth text ≠ [])
include loaded receives someAdded

theorem writable_importsOf : ∀ spec ∈ (importsOf project depth text).specs, spec.Writable := by
  have plain := receives.plain someAdded
  simp only [List.all_eq_true, decide_eq_true_eq] at plain
  exact fun spec member => writable_of_mem_entered loaded plain member

theorem importLines_ended : ∀ line ∈ importLines project depth text, Ended line ∧
    Marker.classify? line = none ∧ Marker.regionBegin? line = none := by
  intro line member
  obtain space | inBlock := List.mem_append.mp member
  · obtain rfl : line = ['\n'] := by
      split at space
      · exact List.mem_singleton.mp space
      · cases space
    exact ⟨ended_feed, Marker.classify?_of_blank blank_feed, regionBegin?_of_blank blank_feed⟩
  · obtain ⟨spec, inTable, rfl⟩ := List.mem_map.mp inBlock
    have writable := writable_importsOf loaded receives someAdded spec inTable
    exact ⟨writable.ended_line, spec.plain_line.noMarker, spec.plain_line.noBegin⟩

/-- The head with the added lines opens files with its items and the imports that are added. -/
theorem opensWith_importLines {front : Text} {first : List Located} (opens : OpensWith front first) :
    ∃ added : List Located, (added.flatMap (·.item.importsOf)).map (·.toImportSpec) =
        (importsOf project depth text).specs ∧
      OpensWith (front ++ (importLines project depth text).flatten) (first ++ added) := by
  have writable := writable_importsOf loaded receives someAdded
  rw [importLines, List.flatten_append, ← List.flatMap_def, ← List.append_assoc]
  apply OpensWith.imports _ writable
  split
  · exact opens.feed
  · simpa using opens

end

/-- Injecting into these lines gives them back, and they bring in no error that the text has not. -/
def Stays (project : Project) (site : Fill.Site) (text : Text) (lines : List Text) : Prop :=
  (inject project site lines.flatten).result =
      .ok ⟨lines.flatten, (copies project site.depth text).length⟩ ∧
    ∃ again, strip lines.flatten = .ok again ∧
      ((Source.ofText text).hasErrors = false → (Source.ofText again).hasErrors = false)

section

variable {project : Project} {site : Fill.Site} {text : Text} (answered : Answered text)
  (receives : Receives project site.depth text)
include answered receives

/-- Where imports are added, something stands below the head. -/
theorem exists_below_head (someAdded : importsOf project site.depth text ≠ []) :
    ∃ located ∈ (File.parse text).items,
      (Source.ofText text).preambleEnd < located.span.start.line := by
  obtain ⟨entry, member⟩ := List.exists_mem_of_ne_nil _ someAdded
  obtain ⟨need, needed, -⟩ := exists_of_mem_entered member
  obtain ⟨copy, inCopies, -⟩ := List.mem_flatMap.mp needed
  exact (insertion_below answered (receives.head someAdded).1 inCopies).2

theorem insertionsOf_below_head (someAdded : importsOf project site.depth text ≠ []) :
    ∀ insertion ∈ insertionsOf project site.depth text,
      (headLines text).length ≤ insertion.after := by
  intro insertion member
  obtain ⟨copy, inCopies, rfl⟩ := List.mem_map.mp member
  have size := (headLines_ended (exists_below_head answered receives someAdded)).1
  rw [size]
  exact (insertion_below answered (receives.head someAdded).1 inCopies).1

/-- The head and the added imports are whole lines. -/
theorem ended_with_imports (loaded : project.Loaded)
    (someAdded : importsOf project site.depth text ≠ []) :
    ∀ line ∈ headLines text ++ importLines project site.depth text, Ended line := by
  intro line member
  obtain inHead | inBlock := List.mem_append.mp member
  · exact (headLines_ended (exists_below_head answered receives someAdded)).2 line inHead
  · exact (importLines_ended loaded receives someAdded line inBlock).1

/-- **The tidy file with the added imports** is the file, carried over. -/
theorem carried_with_imports (loaded : project.Loaded)
    (someAdded : importsOf project site.depth text ≠ []) {slots : List Slot}
    (isSlots : slots = slotsFrom (regionsAt ((insertionsOf project site.depth text).map
      (Insertion.moved (· - (headLines text).length)))) 0
        ((rawLines text).drop (Source.ofText text).preambleEnd)) :
    let front := headLines text ++ importLines project site.depth text
    Carried text (front.flatten ++ textOf (tidy false slots))
        (fun i => front.length + tidyIndex false slots (i - (headLines text).length)) ∧
      ∀ name ∈ (importsOf project site.depth text).specs.map (·.localName),
        name ∈ (Source.ofText (front.flatten ++ textOf (tidy false slots))).imports.map
          (·.localName) := by
  intro front
  obtain ⟨apart, someHead, markers⟩ := receives.head someAdded
  have later := exists_below_head answered receives someAdded
  obtain ⟨size, ended⟩ := headLines_ended later
  have lines := rawLines_eq_headLines_append text
  have below := insertionsOf_below_head answered receives someAdded
  have added := importLines_ended loaded receives someAdded
  have ended' := ended_with_imports answered receives loaded someAdded
  obtain ⟨first, opens, -⟩ := opensWith_head later apart someHead
  obtain ⟨new, imports, opens'⟩ := opensWith_importLines loaded receives someAdded opens
  rw [← List.flatten_append] at opens'
  have unasked : requests (headLines text) = [] := by
    apply requests_front
    rw [← lines, size]
    exact markers
  have unasked' : requests front = [] := by
    rw [requests_append, unasked, requests_eq_nil fun line inBlock => (added line inBlock).2.1]
    rfl
  have names (rest : Text) : (Source.ofText (front.flatten ++ rest)).imports.map (·.localName) =
      (first.flatMap (·.item.importsOf)).map (·.localName) ++
        (importsOf project site.depth text).specs.map (·.localName) ++
          ((itemsBelow (Position.origin.past front.flatten) rest).flatMap (·.item.importsOf)).map
            (·.localName) := by
    rw [imports_ofText, opens'.parse, List.flatMap_append, List.flatMap_append, List.map_append,
      List.map_append, ← imports, List.map_map]
    rfl
  have carried := carried_tidy (slotsFrom_lines (regionsAt (insertionsOf project site.depth text)) 0
    (rawLines text)) fun i slot here tagged => receives.clear_slots here tagged
  have bare := slotsFrom_front_bare below
  have parts := slotsFrom_below below ((rawLines text).drop (Source.ofText text).preambleEnd)
  rw [← lines, ← isSlots] at parts
  rw [parts, tidy_bare bare (fun _ _ => rfl), textOf_append, textOf, slotsFrom_lines,
    Bool.false_and] at carried
  have moved := carried_below ended ended' opens opens' unasked unasked' (fun name known => by
    rw [List.flatMap_append, List.map_append]
    exact List.mem_append_left _ known) (textOf (tidy false slots))
  refine ⟨?_, fun name known => ?_⟩
  · have index : (fun i => front.length + (i - (headLines text).length)) ∘
        tidyIndex false (slotsFrom (regionsAt (insertionsOf project site.depth text)) 0
          (headLines text) ++ slots) =
        fun i => front.length + tidyIndex false slots (i - (headLines text).length) := by
      funext i
      have shorter := tidyIndex_below bare slots i
      rw [slotsFrom_length] at shorter
      rw [Function.comp_apply, shorter]
    rw [← index]
    exact carried.trans moved
  · rw [names]
    exact List.mem_append_left _ (List.mem_append_right _ known)

variable (noBegin : ∀ line ∈ rawLines text, Marker.regionBegin? line = none)
include noBegin

/-- A file with regions below lines that may differ from those it had, injected again. -/
theorem inject_spliced (front front' : List Text) {rest : List Text} {insertions : List Insertion}
    {slots : List Slot} (lines : rawLines text = front ++ rest)
    (below : ∀ insertion ∈ insertionsOf project site.depth text, front.length ≤ insertion.after)
    (isMoved : insertions =
      (insertionsOf project site.depth text).map (Insertion.moved (· - front.length)))
    (isSlots : slots = slotsFrom (regionsAt insertions) 0 rest)
    (ended' : ∀ line ∈ front', Ended line)
    (noBegin' : ∀ line ∈ front', Marker.regionBegin? line = none)
    (carried : Carried text (front'.flatten ++ textOf (tidy false slots))
      fun i => front'.length + tidyIndex false slots (i - front.length))
    (known : ∀ copy ∈ copies project site.depth text, ∀ need ∈ copy.needs, need.name ∈
      (Source.ofText (front'.flatten ++ textOf (tidy false slots))).imports.map (·.localName)) :
    Stays project site text (front' ++ spliceAll rest insertions) := by
  subst isMoved isSlots
  have ordered := ordered_insertionsOf answered receives
  rw [lines] at ordered noBegin
  have orderedRest := ordered.of_append below
  have lined : Lined rest := Lined.of_append (lines ▸ lined_rawLines text)
  have endedRegions : ∀ insertion ∈ (insertionsOf project site.depth text).map
      (Insertion.moved (· - front.length)), ∀ line ∈ insertion.lines, Ended line := by
    intro insertion member
    obtain ⟨before, inside, rfl⟩ := List.mem_map.mp member
    exact ended_insertionsOf before inside
  have noBeginAll : ∀ line ∈ front' ++ rest, Marker.regionBegin? line = none := by
    intro line member
    obtain above | there := List.mem_append.mp member
    · exact noBegin' line above
    · exact noBegin line (List.mem_append_right _ there)
  have strips := strip_spliceAll orderedRest ended' lined noBeginAll endedRegions
  generalize isSlots : slotsFrom (regionsAt ((insertionsOf project site.depth text).map
    (Insertion.moved (· - front.length)))) 0 rest = slots at *
  have left : (front' ++ (tidy false slots).map Slot.line).flatten =
      front'.flatten ++ textOf (tidy false slots) := List.flatten_append
  have linesAfter : rawLines (front'.flatten ++ textOf (tidy false slots)) =
      front' ++ (tidy false slots).map Slot.line := by
    rw [rawLines_below ended', textOf, rawLines_of_lined]
    apply lined_tidy
    rwa [← isSlots, slotsFrom_lines]
  have spliced := spliceAll_tidy_below front' orderedRest
  rw [isSlots] at spliced
  have again := carried.applyMarkers answered known
  rw [linesAfter, spliced] at again
  rw [left] at strips
  rw [Stays, inject_result, strips]
  exact ⟨again, _, rfl, carried.errors⟩

/-- Where no imports are added, the file with its regions stays as it is. -/
theorem inject_without_imports (noneAdded : importsOf project site.depth text = []) :
    Stays project site text (spliceAll (rawLines text) (insertionsOf project site.depth text)) := by
  have carried := carried_tidy (slotsFrom_lines (regionsAt (insertionsOf project site.depth text)) 0
    (rawLines text)) fun i slot here tagged => receives.clear_slots here tagged
  have still : (insertionsOf project site.depth text).map
      (Insertion.moved (· - ([] : List Text).length)) = insertionsOf project site.depth text :=
    List.map_id _
  have index (slots : List Slot) : (fun i => ([] : List Text).length +
      tidyIndex false slots (i - ([] : List Text).length)) = tidyIndex false slots := by
    funext i
    simp
  refine inject_spliced answered receives noBegin [] []
    (List.nil_append _).symm (fun _ _ => Nat.zero_le _) still.symm rfl (by simp) (by simp) ?_ ?_
  · rw [index]
    exact carried
  · intro copy member need needed
    apply carried.imports
    obtain known | added := known_or_entered (List.mem_flatMap.mpr ⟨copy, member, needed⟩)
    · exact known
    · rw [importsOf] at noneAdded
      rw [noneAdded] at added
      cases added

/-- Where imports are added, the file with these and its regions stays as it is. -/
theorem inject_with_imports (loaded : project.Loaded)
    (someAdded : importsOf project site.depth text ≠ []) :
    Stays project site text
      (written (Source.ofText text) (rawLines text) (copies project site.depth text)) := by
  have later := exists_below_head answered receives someAdded
  obtain ⟨size, ended⟩ := headLines_ended later
  have lines := rawLines_eq_headLines_append text
  have below := insertionsOf_below_head answered receives someAdded
  have someLine : (rawLines text).drop (Source.ofText text).preambleEnd ≠ [] := by
    apply List.ne_nil_of_length_pos
    have fewer := preambleEnd_lt_length later
    rw [List.length_drop]
    omega
  have whole : written (Source.ofText text) (rawLines text) (copies project site.depth text) =
      headLines text ++ importLines project site.depth text ++
      spliceAll ((rawLines text).drop (Source.ofText text).preambleEnd)
        ((insertionsOf project site.depth text).map
          (Insertion.moved (· - (headLines text).length))) := by
    have spliced := spliceAll_below (fun _ => someLine) below
    rw [← lines] at spliced
    show addImports (Source.ofText text) (importsOf project site.depth text)
      (spliceAll (rawLines text) (insertionsOf project site.depth text)) = _
    rw [spliced, addImports_below size ended, if_neg (by simpa using someAdded), ← importLines,
      List.append_assoc]
  have added := importLines_ended loaded receives someAdded
  obtain ⟨carried, names⟩ := carried_with_imports answered receives loaded someAdded rfl
  rw [whole]
  refine inject_spliced answered receives noBegin (headLines text) _ lines below rfl rfl ?_ ?_
    carried ?_
  · exact ended_with_imports answered receives loaded someAdded
  · intro line member
    obtain inHead | inBlock := List.mem_append.mp member
    · exact noBegin line (List.mem_of_mem_take inHead)
    · exact (added line inBlock).2.2
  · intro copy member need needed
    obtain known | entered := known_or_entered (List.mem_flatMap.mpr ⟨copy, member, needed⟩)
    · exact carried.imports _ known
    · exact names _ entered

/-- The file as it is written stays as it is. -/
theorem inject_written (loaded : project.Loaded) :
    Stays project site text
      (written (Source.ofText text) (rawLines text) (copies project site.depth text)) := by
  by_cases noneAdded : importsOf project site.depth text = []
  · have plainly : written (Source.ofText text) (rawLines text) (copies project site.depth text) =
        spliceAll (rawLines text) (insertionsOf project site.depth text) := by
      show addImports _ (importsOf project site.depth text) _ = _
      rw [noneAdded]
      rfl
    rw [plainly]
    exact inject_without_imports answered receives noBegin noneAdded
  · exact inject_with_imports answered receives noBegin loaded noneAdded

end

/-- **Injecting again changes nothing:** the file stays as it has been written, with as many regions.
Where the file has no syntax error, what the second run reads has none either. -/
theorem inject_again {top : Tree} {config : Config} {root : Place} {project : Project}
    (loads : (Project.load top config root).result = .ok project) {site : Fill.Site}
    {content stripped : Text} {injected : Injected}
    (strips : Region.strip content = .ok stripped)
    (injects : (inject project site content).result = .ok injected)
    (repeatable : Repeatable project site.depth stripped) :
    (inject project site injected.text).result = .ok injected ∧
      ∃ again, Region.strip injected.text = .ok again ∧
        ((Source.ofText stripped).hasErrors = false → (Source.ofText again).hasErrors = false) := by
  rw [inject_result, strips] at injects
  obtain ⟨answered, made, -⟩ := applyMarkers_ok injects
  have noBegin := noBegin_of_strip strips
  have loaded := Project.loaded_of_load loads
  obtain ⟨outline, errors, receives⟩ := repeatable
  rw [made]
  by_cases behind : ∃ insertion ∈ insertionsOf project site.depth stripped,
      insertion.after + 1 = (rawLines stripped).length
  · have whole : ground project site.depth stripped = terminated stripped := if_pos behind
    rw [whole] at outline errors receives
    have someText := ne_nil_of_behind behind
    have noBegin' : ∀ line ∈ rawLines (terminated stripped), Marker.regionBegin? line = none := by
      obtain ⟨front, last, lines, lines'⟩ := exists_last_line someText
      rw [lines, List.forall_mem_append, List.forall_mem_singleton] at noBegin
      rw [lines', List.forall_mem_append, List.forall_mem_singleton, regionBegin?_terminated]
      exact noBegin
    obtain ⟨same, again, stripsAgain, kept⟩ := inject_written
      (answered_terminated answered someText outline) receives noBegin' loaded
    rw [written_terminated answered behind outline] at same stripsAgain
    rw [copies_terminated answered someText outline] at same
    exact ⟨same, again, stripsAgain, fun none => kept (errors none)⟩
  · have whole : ground project site.depth stripped = stripped := if_neg behind
    rw [whole] at receives
    exact inject_written answered receives noBegin loaded

/-- A directory with a helper file that has one function. -/
def decoders (above : List String) (result : String) : Tree :=
  let lines := above ++ ["func Decode(s string) string \x7b", "\treturn " ++ result, "\x7d"]
  .directory [("proj".toList, .directory [("helpers.go".toList, Project.helperTree lines)])]

/-- A file that asks for the function, with what stands below the interface. -/
def decoder (region : String) : Text :=
  ("package main\n\n//:inject:Decode\ntype Decoder interface \x7b\n\tDecode(s string) string\n\x7d\n\n" ++
    region ++ "func main() \x7b\x7d\n").toList

/-- The function comes with a package, which the second run finds imported. -/
theorem decoder_kept : ∃ project injected,
    (Project.load (decoders ["import \"strings\"", "", "// Decode trims a text."]
        "strings.TrimSpace(s)") {} Project.proj).result = .ok project ∧
      (inject project ⟨"main.go", 0⟩ (decoder "")).result = .ok injected ∧
      injected.regions = 1 ∧ importsOf project 0 (decoder "") ≠ [] ∧
      (inject project ⟨"main.go", 0⟩ injected.text).result = .ok injected := by
  have summary : (Project.load (decoders ["import \"strings\"", "", "// Decode trims a text."]
      "strings.TrimSpace(s)") {} Project.proj).result.toOption.map (fun project =>
        (decide (Receives project 0 (decoder "")), decide (importsOf project 0 (decoder "") ≠ []),
          (inject project ⟨"main.go", 0⟩ (decoder "")).result.toOption.map (·.regions))) =
      some (true, true, some 1) := by
    decide +kernel
  have strips : Region.strip (decoder "") = .ok (decoder "") := by decide +kernel
  obtain ⟨project, loads, seen⟩ := Option.map_eq_some_iff.mp summary
  have loads := eq_ok_of_toOption loads
  obtain ⟨receives, seen⟩ := Prod.mk.inj seen
  obtain ⟨someAdded, done⟩ := Prod.mk.inj seen
  obtain ⟨injected, injects, regions⟩ := Option.map_eq_some_iff.mp done
  have injects := eq_ok_of_toOption injects
  exact ⟨project, injected, loads, injects, regions, of_decide_eq_true someAdded,
    (inject_again loads strips injects (of_decide_eq_true receives).repeatable).1⟩

/-- An interface may end a file that has no line feed there. -/
example : (Project.load (decoders [] "s") {} Project.proj).result.toOption.map (fun project =>
    let text := "package main\n//:inject:Decode\ntype D interface \x7bDecode()\x7d".toList
    (decide (Repeatable project 0 text),
      (inject project ⟨"main.go", 0⟩ text).result.toOption.map (·.regions))) =
    some (true, some 1) := by
  decide +kernel

/-- A doc comment that reads as the end of a region ends it in the second run, which takes the rest
of the region for code of the file. -/
theorem decoder_cut :
    (Project.load (decoders ["// Decode gives the text back.",
        "// End of goahead generated code."] "s") {} Project.proj).result.toOption.map (fun project =>
      (inject project ⟨"main.go", 0⟩ (decoder "")).result.toOption.map fun injected =>
        (injected.text,
          (inject project ⟨"main.go", 0⟩ injected.text).result.toOption.map (·.text))) =
      some (some (decoder ("// goahead:inject-begin Decode\n" ++
          "// Decode gives the text back.\n// End of goahead generated code.\n" ++
          "func Decode(s string) string \x7b\n\treturn s\n\x7d\n" ++
          "// End of goahead generated code.\n\n"),
        some (decoder ("// goahead:inject-begin Decode\n// End of goahead generated code.\n\n" ++
          "func Decode(s string) string \x7b\n\treturn s\n\x7d\n" ++
          "// End of goahead generated code.\n\n")))) := by
  decide +kernel

end Injection

end Prefill
