import Mathlib.Order.Nat
import Prefill.Proofs.Answering
import Prefill.Proofs.Splicing

/-!
What stripping takes out of a file, told from its lines alone. A region goes from a line that opens
it, outside every other region, through the first line below that closes one (`Spans`). Stripping
remembers where the next line stands, and that is a fact about the lines above it (`Tracks`).

* `tracks_next`: what one line leaves behind is again such a fact;
* `stripFrom_indices`, `exists_unclosed`: which lines a run keeps, and when it fails;
* `strip_exact`: the same of a whole file, whose regions are then gone for good.
-/

namespace Prefill.Region

open Text

/-! ### Regions, told from the lines -/

/-- The line at an index is as wanted. -/
def At (wanted : Text → Bool) (lines : List Text) (i : Nat) : Prop :=
  ∃ line, lines[i]? = some line ∧ wanted line = true

/-- The line at an index opens a region, wherever it stands. -/
def Opens : List Text → Nat → Prop := At fun line => (Marker.regionBegin? line).isSome

def Closes : List Text → Nat → Prop := At Marker.isRegionEnd

/-- A line stands inside a region: a line above it opens one, and none between the two closes it. -/
def Inside (lines : List Text) (i : Nat) : Prop :=
  ∃ first < i, Opens lines first ∧ ∀ k, first < k → k < i → ¬ Closes lines k

/-- A region: the line that opens it is inside no other, and the last line is the first one below
that closes a region. -/
structure Spans (lines : List Text) (first last : Nat) : Prop where
  opens : Opens lines first
  outer : ¬ Inside lines first
  below : first < last
  closes : Closes lines last
  inner : ∀ k, first < k → k < last → ¬ Closes lines k

/-- A line that opens a region, inside no other, which no line below closes. -/
structure Unclosed (lines : List Text) (i : Nat) : Prop where
  opens : Opens lines i
  outer : ¬ Inside lines i
  never : ∀ k, i < k → ¬ Closes lines k

def InRegion (lines : List Text) (i : Nat) : Prop :=
  ∃ first last, Spans lines first last ∧ first ≤ i ∧ i ≤ last

/-- Nothing but blank lines stands between a region and the line at an index. -/
def Trails (lines : List Text) (i : Nat) : Prop :=
  ∃ first last, Spans lines first last ∧ last < i ∧ ∀ k, last < k → k < i → At blank lines k

/-- A line is one of the blank lines right after a region. -/
def BlankBehind (lines : List Text) (i : Nat) : Prop := Trails lines i ∧ At blank lines i

section

variable {lines : List Text} {i j n : Nat} {line : Text}

theorem at_iff {wanted : Text → Bool} (here : lines[i]? = some line) :
    At wanted lines i ↔ wanted line = true := by
  simp [At, here]

theorem not_closes_of_opens (opens : Opens lines i) : ¬ Closes lines i := by
  rintro ⟨line, here, closes⟩
  have begins := (at_iff here).mp opens
  simp [Marker.regionBegin?_of_isRegionEnd closes] at begins

theorem not_opens_of_blank (isBlank : At blank lines i) : ¬ Opens lines i := by
  obtain ⟨line, here, isBlank⟩ := isBlank
  intro opens
  have begins := (at_iff here).mp opens
  simp [regionBegin?_of_blank isBlank] at begins

theorem not_closes_of_length_le (le : lines.length ≤ i) : ¬ Closes lines i := by
  rintro ⟨line, here, -⟩
  rw [List.getElem?_eq_none le] at here
  cases here

/-- The region that a line stands inside is opened by a line inside no other. -/
theorem Inside.exists_outer (inside : Inside lines i) : ∃ first < i, Opens lines first ∧
    ¬ Inside lines first ∧ ∀ k, first < k → k < i → ¬ Closes lines k := by
  induction i using Nat.strongRecOn with
  | ind i ih =>
    obtain ⟨first, above, opens, unclosed⟩ := inside
    by_cases nested : Inside lines first
    · obtain ⟨outer, higher, outerOpens, outermost, between⟩ := ih first above nested
      refine ⟨outer, by omega, outerOpens, outermost, ?_⟩
      intro k after before
      obtain less | rfl | more := Nat.lt_trichotomy k first
      · exact between k after less
      · exact not_closes_of_opens opens
      · exact unclosed k more before
    · exact ⟨first, above, opens, nested, unclosed⟩

theorem Unclosed.not_lt (h : Unclosed lines i) (h' : Unclosed lines j) : ¬ i < j := by
  intro above
  exact h'.outer ⟨i, above, h.opens, fun k after _ => h.never k after⟩

theorem Unclosed.unique (h : Unclosed lines i) (h' : Unclosed lines j) : i = j := by
  have := h.not_lt h'
  have := h'.not_lt h
  omega

/-- A region that is opened outside every other is closed, or it is never closed. -/
theorem exists_spans_of_opens (opens : Opens lines i) (outer : ¬ Inside lines i)
    (closed : ¬ Unclosed lines i) : ∃ last, Spans lines i last := by
  classical
  have later : ∃ k, i < k ∧ Closes lines k := by
    by_contra noneLater
    refine closed ⟨opens, outer, fun k after closes => noneLater ⟨k, after, closes⟩⟩
  refine ⟨Nat.find later, opens, outer, (Nat.find_spec later).1, (Nat.find_spec later).2, ?_⟩
  intro k after before closes
  exact Nat.find_min later before ⟨after, closes⟩

/-- Where every region is closed, the lines inside a region and those that open one are the lines
of the regions. -/
theorem inRegion_iff (closed : ∀ j, ¬ Unclosed lines j) :
    InRegion lines i ↔ Inside lines i ∨ Opens lines i := by
  constructor
  · rintro ⟨first, last, spans, le, le'⟩
    by_cases start : first = i
    · subst start
      exact .inr spans.opens
    · refine .inl ⟨first, by omega, spans.opens, ?_⟩
      intro k after before
      exact spans.inner k after (by omega)
  · intro held
    by_cases inside : Inside lines i
    · obtain ⟨first, above, opens, outer, unclosed⟩ := inside.exists_outer
      obtain ⟨last, spans⟩ := exists_spans_of_opens opens outer (closed first)
      refine ⟨first, last, spans, Nat.le_of_lt above, ?_⟩
      by_contra less
      exact unclosed last spans.below (by omega) spans.closes
    · have opens := held.resolve_left inside
      obtain ⟨last, spans⟩ := exists_spans_of_opens opens inside (closed i)
      exact ⟨i, last, spans, Nat.le_refl _, Nat.le_of_lt spans.below⟩

/-! ### From one line to the next -/

theorem inside_zero : ¬ Inside lines 0 := by
  rintro ⟨first, above, -⟩
  omega

theorem trails_zero : ¬ Trails lines 0 := by
  rintro ⟨first, last, -, above, -⟩
  omega

theorem inside_succ : Inside lines (n + 1) ↔ Opens lines n ∨ Inside lines n ∧ ¬ Closes lines n := by
  constructor
  · rintro ⟨first, above, opens, unclosed⟩
    by_cases last : first = n
    · subst last
      exact .inl opens
    · refine .inr ⟨⟨first, by omega, opens, ?_⟩, unclosed n (by omega) (by omega)⟩
      exact fun k after before => unclosed k after (by omega)
  · rintro (opens | ⟨⟨first, above, opens, unclosed⟩, stays⟩)
    · exact ⟨n, by omega, opens, fun k after before => by omega⟩
    · refine ⟨first, by omega, opens, ?_⟩
      intro k after before
      by_cases last : k = n
      · subst last
        exact stays
      · exact unclosed k after (by omega)

theorem trails_succ :
    Trails lines (n + 1) ↔ (∃ first, Spans lines first n) ∨ Trails lines n ∧ At blank lines n := by
  constructor
  · rintro ⟨first, last, spans, above, blanks⟩
    by_cases next : last = n
    · subst next
      exact .inl ⟨first, spans⟩
    · refine .inr ⟨⟨first, last, spans, by omega, ?_⟩, blanks n (by omega) (by omega)⟩
      exact fun k after before => blanks k after (by omega)
  · rintro (⟨first, spans⟩ | ⟨⟨first, last, spans, above, blanks⟩, isBlank⟩)
    · exact ⟨first, n, spans, by omega, fun k after before => by omega⟩
    · refine ⟨first, last, spans, by omega, ?_⟩
      intro k after before
      by_cases here : k = n
      · subst here
        exact isBlank
      · exact blanks k after (by omega)

theorem Spans.inside {first : Nat} (spans : Spans lines first n) : Inside lines n :=
  ⟨first, spans.below, spans.opens, spans.inner⟩

end

/-! ### One step -/

namespace Place

/-- Where a line outside all regions leads to. -/
def enter (number : Nat) (line : Text) : Place :=
  match Marker.regionBegin? line with
  | some method => .inside ⟨number, method⟩
  | none => .outside

/-- Where the next line stands. -/
def next (number : Nat) (line : Text) : Place → Place
  | .outside => enter number line
  | .inside opened => if Marker.isRegionEnd line then .behind else .inside opened
  | .behind => if blank line then .behind else enter number line

/-- Whether a line stays. -/
def keeps (line : Text) : Place → Bool
  | .outside => (Marker.regionBegin? line).isNone
  | .inside _ => false
  | .behind => !blank line && (Marker.regionBegin? line).isNone

end Place

theorem stripFrom_cons (place : Place) (number : Nat) (line : Text) (rest : List Text) :
    stripFrom place number (line :: rest) =
      (stripFrom (place.next number line) (number + 1) rest).map fun kept =>
        if place.keeps line then line :: kept else kept := by
  have same (result : Except Unterminated (List Text)) : result = result.map fun kept => kept := by
    cases result <;> rfl
  cases place with
  | inside opened => exact same _
  | outside =>
    cases begins : Marker.regionBegin? line with
    | none => simp [stripFrom, Place.next, Place.enter, Place.keeps, begins]
    | some method => simpa [stripFrom, Place.next, Place.enter, Place.keeps, begins] using same _
  | behind =>
    by_cases isBlank : blank line = true
    · simpa [stripFrom, Place.next, Place.keeps, isBlank] using same _
    · cases begins : Marker.regionBegin? line with
      | none => simp [stripFrom, Place.next, Place.enter, Place.keeps, begins, isBlank]
      | some method =>
        simpa [stripFrom, Place.next, Place.enter, Place.keeps, begins, isBlank] using same _

/-- What is remembered names a line: its number, counted from 1, and its method. -/
structure Names (lines : List Text) (opened : Unterminated) (i : Nat) : Prop where
  number : opened.line = i + 1
  method : lines[i]?.bind Marker.regionBegin? = some opened.method

theorem Names.unique {lines : List Text} {opened other : Unterminated} {i : Nat}
    (h : Names lines opened i) (h' : Names lines other i) : opened = other := by
  have number : opened.line = other.line := h.number.trans h'.number.symm
  have method : opened.method = other.method :=
    Option.some.inj (h.method.symm.trans h'.method)
  cases opened
  cases other
  simp_all

/-- The place of the line at an index is what the lines above it say. -/
def Tracks (lines : List Text) (n : Nat) : Place → Prop
  | .outside => ¬ Inside lines n ∧ ¬ Trails lines n
  | .inside opened => ∃ first < n, Opens lines first ∧ ¬ Inside lines first ∧
      (∀ k, first < k → k < n → ¬ Closes lines k) ∧ Names lines opened first
  | .behind => ¬ Inside lines n ∧ Trails lines n

section

variable {lines : List Text} {n : Nat} {line : Text}

theorem tracks_start : Tracks lines 0 .outside := ⟨inside_zero, trails_zero⟩

/-- A line outside all regions that is no blank line behind one. -/
theorem tracks_enter (here : lines[n]? = some line) (outer : ¬ Inside lines n)
    (solid : ¬ BlankBehind lines n) : Tracks lines (n + 1) (.enter (n + 1) line) := by
  unfold Place.enter
  cases begins : Marker.regionBegin? line with
  | some method =>
    have opens : Opens lines n := (at_iff here).mpr (by simp [begins])
    refine ⟨n, by omega, opens, outer, fun k after before => by omega, rfl, ?_⟩
    simp [here, begins]
  | none =>
    have plain : ¬ Opens lines n := by
      rw [Opens, at_iff here]
      simp [begins]
    refine ⟨?_, ?_⟩
    · rw [inside_succ]
      rintro (opens | ⟨inside, -⟩)
      · exact plain opens
      · exact outer inside
    · rw [trails_succ]
      rintro (⟨first, spans⟩ | behind)
      · exact outer spans.inside
      · exact solid behind

/-- **One line** leads from a place that the lines above it tell to another such place. -/
theorem tracks_next {place : Place} (here : lines[n]? = some line) (tracks : Tracks lines n place) :
    Tracks lines (n + 1) (place.next (n + 1) line) := by
  cases place with
  | outside => exact tracks_enter here tracks.1 fun behind => tracks.2 behind.1
  | inside opened =>
    obtain ⟨first, above, opens, outer, unclosed, names⟩ := tracks
    rw [Place.next]
    split
    · rename_i closes
      have closes : Closes lines n := (at_iff here).mpr closes
      refine ⟨?_, trails_succ.mpr (.inl ⟨first, opens, outer, above, closes, unclosed⟩)⟩
      rw [inside_succ]
      rintro (again | ⟨-, stays⟩)
      · exact not_closes_of_opens again closes
      · exact stays closes
    · rename_i stays
      have stays : ¬ Closes lines n := by rwa [Closes, at_iff here]
      refine ⟨first, by omega, opens, outer, ?_, names⟩
      intro k after before
      by_cases last : k = n
      · subst last
        exact stays
      · exact unclosed k after (by omega)
  | behind =>
    obtain ⟨outer, trails⟩ := tracks
    rw [Place.next]
    split
    · rename_i isBlank
      have isBlank : At blank lines n := (at_iff here).mpr isBlank
      refine ⟨?_, trails_succ.mpr (.inr ⟨trails, isBlank⟩)⟩
      rw [inside_succ]
      rintro (opens | ⟨inside, -⟩)
      · exact not_opens_of_blank isBlank opens
      · exact outer inside
    · rename_i notBlank
      apply tracks_enter here outer
      rintro ⟨-, isBlank⟩
      exact notBlank ((at_iff here).mp isBlank)

theorem keeps_iff {place : Place} (here : lines[n]? = some line) (tracks : Tracks lines n place) :
    place.keeps line = true ↔
      ¬ (Inside lines n ∨ Opens lines n) ∧ ¬ BlankBehind lines n := by
  have opens : Opens lines n ↔ (Marker.regionBegin? line).isSome = true := at_iff here
  have isBlank : At blank lines n ↔ blank line = true := at_iff here
  cases place with
  | outside => simp [Place.keeps, BlankBehind, opens, tracks.1, tracks.2]
  | inside opened =>
    obtain ⟨first, above, begins, -, unclosed, -⟩ := tracks
    have inside : Inside lines n := ⟨first, above, begins, unclosed⟩
    simp [Place.keeps, inside]
  | behind =>
    simp only [Place.keeps, BlankBehind, opens, isBlank, tracks.1, tracks.2]
    simp [and_comm]

/-! ### Whole runs -/

theorem tail_of_drop {rest : List Text} (below : lines.drop n = line :: rest) :
    lines[n]? = some line ∧ lines.drop (n + 1) = rest := by
  constructor
  · rw [← List.head?_drop, below, List.head?_cons]
  · rw [← List.tail_drop, below, List.tail_cons]

/-- **A run fails** at the line that opens a region and that no line below closes. -/
theorem exists_unclosed {rest : List Text} {place : Place} (below : lines.drop n = rest)
    (tracks : Tracks lines n place) :
    (∀ opened, stripFrom place (n + 1) rest = .error opened →
      ∃ i, Unclosed lines i ∧ Names lines opened i) ∧
    (∀ kept, stripFrom place (n + 1) rest = .ok kept → ∀ i, ¬ Unclosed lines i) := by
  induction rest generalizing n place with
  | nil =>
    have ends : lines.length ≤ n := List.drop_eq_nil_iff.mp below
    have outer (h : ¬ Inside lines n) (i : Nat) (unclosed : Unclosed lines i) : False := by
      obtain ⟨line, here, -⟩ := unclosed.opens
      have inLines := (List.getElem?_eq_some_iff.mp here).1
      exact h ⟨i, by omega, unclosed.opens, fun k after _ => unclosed.never k after⟩
    cases place with
    | outside => exact ⟨nofun, fun _ _ => outer tracks.1⟩
    | behind => exact ⟨nofun, fun _ _ => outer tracks.1⟩
    | inside opened =>
      obtain ⟨first, above, opens, outermost, unclosed, names⟩ := tracks
      refine ⟨?_, nofun⟩
      intro other same
      obtain rfl := Except.error.inj same
      refine ⟨first, ⟨opens, outermost, ?_⟩, names⟩
      intro k after
      by_cases before : k < n
      · exact unclosed k after before
      · exact not_closes_of_length_le (by omega)
  | cons line rest ih =>
    obtain ⟨here, below⟩ := tail_of_drop below
    have later := ih below (tracks_next here tracks)
    rw [stripFrom_cons]
    cases result : stripFrom (place.next (n + 1) line) (n + 1 + 1) rest with
    | error opened =>
      refine ⟨?_, nofun⟩
      intro other same
      obtain rfl := Except.error.inj same
      exact later.1 opened result
    | ok kept => exact ⟨nofun, fun _ _ => later.2 kept result⟩

/-- **A run keeps** the lines that are in no region and no blank line behind one, in order. -/
theorem stripFrom_indices {rest kept : List Text} {place : Place} (below : lines.drop n = rest)
    (tracks : Tracks lines n place) (h : stripFrom place (n + 1) rest = .ok kept) :
    ∃ indices : List Nat, indices.Pairwise (· < ·) ∧
      (∀ i, i ∈ indices ↔ n ≤ i ∧ i < lines.length ∧
        ¬ (Inside lines i ∨ Opens lines i) ∧ ¬ BlankBehind lines i) ∧
      kept = indices.filterMap (lines[·]?) := by
  induction rest generalizing n place kept with
  | nil =>
    have ends : lines.length ≤ n := List.drop_eq_nil_iff.mp below
    have noneKept : kept = [] := by
      cases place with
      | inside opened => cases h
      | outside => exact (Except.ok.inj h).symm
      | behind => exact (Except.ok.inj h).symm
    refine ⟨[], .nil, ?_, noneKept⟩
    intro i
    simp only [List.not_mem_nil, false_iff]
    omega
  | cons line rest ih =>
    obtain ⟨here, below⟩ := tail_of_drop below
    have size := (List.getElem?_eq_some_iff.mp here).1
    rw [stripFrom_cons] at h
    cases result : stripFrom (place.next (n + 1) line) (n + 1 + 1) rest with
    | error opened =>
      rw [result] at h
      cases h
    | ok more =>
      rw [result] at h
      obtain rfl := Except.ok.inj h
      obtain ⟨indices, sorted, members, rfl⟩ := ih below (tracks_next here tracks) result
      have stays := keeps_iff here tracks
      by_cases keeps : place.keeps line = true
      · refine ⟨n :: indices, ?_, ?_, by simp [keeps, here]⟩
        · refine List.pairwise_cons.mpr ⟨?_, sorted⟩
          intro i member
          have := ((members i).mp member).1
          omega
        · intro i
          rw [List.mem_cons, members]
          by_cases first : i = n
          · subst first
            simp only [true_or, true_iff]
            exact ⟨Nat.le_refl _, size, stays.mp keeps⟩
          · have : n + 1 ≤ i ↔ n ≤ i := by omega
            simp only [first, false_or, this]
      · refine ⟨indices, sorted, ?_, by simp [keeps]⟩
        intro i
        rw [members]
        by_cases first : i = n
        · subst first
          have : ¬ i + 1 ≤ i := by omega
          simp only [this, false_and, false_iff]
          rintro ⟨-, -, kept⟩
          exact keeps (stays.mpr kept)
        · have : n + 1 ≤ i ↔ n ≤ i := by omega
          rw [this]

end

/-! ### Whole files -/

theorem strip_eq_error_iff {content : Text} {opened : Unterminated} :
    strip content = .error opened ↔ stripFrom .outside 1 (rawLines content) = .error opened := by
  unfold strip
  cases stripFrom .outside 1 (rawLines content) with
  | error other =>
    constructor
    · exact fun same => congrArg Except.error (Except.error.inj same)
    · exact fun same => congrArg Except.error (Except.error.inj same)
  | ok kept => exact iff_of_false nofun nofun

theorem strip_eq_ok {content text : Text} (h : strip content = .ok text) :
    stripFrom .outside 1 (rawLines content) = .ok (rawLines text) := by
  unfold strip at h
  cases result : stripFrom .outside 1 (rawLines content) with
  | error opened =>
    rw [result] at h
    cases h
  | ok kept =>
    rw [result] at h
    obtain rfl := Except.ok.inj h
    have lined : Lined kept := (lined_rawLines content).sublist (stripFrom_sublist result).1
    rw [rawLines_of_lined lined]

/-- **What stripping takes out.** Stripping fails exactly if some line opens a region, inside no
other, that no line below closes, and it names the first such line. Otherwise the lines of the
result are, in order, exactly the lines that are in no region and are no blank lines right after
one. The result has no line that opens a region, so stripping it again changes nothing. -/
theorem strip_exact (content : Text) :
    let lines := rawLines content
    (∀ opened, strip content = .error opened ↔
      ∃ i, Unclosed lines i ∧ (∀ j < i, ¬ Unclosed lines j) ∧ Names lines opened i) ∧
    ((∃ text, strip content = .ok text) ↔ ∀ i, ¬ Unclosed lines i) ∧
    ∀ text, strip content = .ok text →
      (∃ indices : List Nat, indices.Pairwise (· < ·) ∧
        (∀ i, i ∈ indices ↔ i < lines.length ∧ ¬ InRegion lines i ∧ ¬ BlankBehind lines i) ∧
        rawLines text = indices.filterMap (lines[·]?)) ∧
      Marker.anyRegionIn text = false ∧ strip text = .ok text := by
  intro lines
  obtain ⟨fails, succeeds⟩ := exists_unclosed (List.drop_zero (l := lines)) tracks_start
  have closed {text : Text} (h : strip content = .ok text) : ∀ i, ¬ Unclosed lines i :=
    succeeds _ (strip_eq_ok h)
  refine ⟨?_, ?_, ?_⟩
  · intro opened
    constructor
    · intro h
      obtain ⟨i, unclosed, names⟩ := fails opened (strip_eq_error_iff.mp h)
      exact ⟨i, unclosed, fun j above other => other.not_lt unclosed above, names⟩
    · rintro ⟨i, unclosed, -, names⟩
      cases result : strip content with
      | ok text => exact absurd unclosed (closed result i)
      | error other =>
        obtain ⟨j, unclosed', names'⟩ := fails other (strip_eq_error_iff.mp result)
        obtain rfl := unclosed.unique unclosed'
        rw [names.unique names']
  · constructor
    · rintro ⟨text, h⟩
      exact closed h
    · intro noneUnclosed
      cases result : strip content with
      | ok text => exact ⟨text, rfl⟩
      | error opened =>
        obtain ⟨i, unclosed, -⟩ := fails opened (strip_eq_error_iff.mp result)
        exact absurd unclosed (noneUnclosed i)
  · intro text h
    obtain ⟨indices, sorted, members, kept⟩ :=
      stripFrom_indices (List.drop_zero (l := lines)) tracks_start (strip_eq_ok h)
    have bare : Marker.anyRegionIn text = false :=
      Injection.anyRegionIn_eq_false_iff.mpr (noBegin_of_strip h)
    refine ⟨⟨indices, sorted, ?_, kept⟩, bare, Injection.strip_bare bare⟩
    intro i
    rw [members, inRegion_iff (closed h)]
    simp

end Prefill.Region
