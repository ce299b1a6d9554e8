import Mathlib.Data.List.Induction
import Prefill.Fill
import Prefill.Proofs.Comments

/-!
Which lines are filled in. The scan of a file remembers two things, whether a generated region is
open and which placeholder waits. Both are facts about the lines read so far (`OpenAfter`, `Waits`),
so the target lines can be told from the text alone (`IsTarget`), whatever the evaluator answers.

* `advance_tracks`: the state after a line says of the lines up to it what it should;
* `run_edits`: a run keeps every line or puts the answer to one call into it;
* `fill_lineWise`: the same of a whole file, with the calls in source order;
* `equal_targets_filled_apart`: lines with equal text and equal answers may come out different, as
  the name of the placeholder also counts.
-/

namespace Prefill

open Text

namespace Fill

/-! ## Regions and requests, told from the text -/

/-- A line that opens a generated region. -/
def Begins (line : Line) : Prop := (Marker.regionBegin? line.body).isSome = true

/-- A line that closes a generated region. -/
def Ends (line : Line) : Prop := Marker.isRegionEnd line.body = true

/-- A region is still open after some lines: one of them opens it and none after that one closes
it. -/
def OpenAfter (read : List Line) : Prop :=
  ∃ before opening between,
    read = before ++ opening :: between ∧ Begins opening ∧ ∀ line ∈ between, ¬ Ends line

/-- The next line after some lines counts when it is not blank and lies outside every region. The
lines that open and close a region belong to it. -/
def Counts (read : List Line) (line : Line) : Prop :=
  ¬ OpenAfter read ∧ ¬ Begins line ∧ blank line.body = false

/-- The last line that counts is a placeholder comment. -/
def Waits (read : List Line) (pending : Pending) : Prop :=
  ∃ before line between name arguments,
    read = before ++ line :: between ∧ Counts before line ∧
    Marker.classify? line.body = some (.placeholder name arguments) ∧
    pending = ⟨⟨name, Argument.parse arguments, before.length + 1⟩, line.body⟩ ∧
    ∀ front later back, between = front ++ later :: back → ¬ Counts (before ++ line :: front) later

/-- The next line after some lines is the target of a placeholder. -/
def IsTarget (read : List Line) (line : Line) (pending : Pending) : Prop :=
  Counts read line ∧ Marker.classify? line.body = none ∧ Waits read pending

/-- Where a cut falls in a list with one more element at its end. -/
theorem snoc_eq_cut {α : Type} {xs before after : List α} {x y : α} :
    xs ++ [x] = before ++ y :: after ↔
      (xs = before ∧ x = y ∧ after = []) ∨
        ∃ front, after = front ++ [x] ∧ xs = before ++ y :: front := by
  constructor
  · intro eq
    obtain rfl | ⟨front, last, rfl⟩ := List.eq_nil_or_concat after
    · obtain ⟨rfl, same⟩ := List.append_inj' eq rfl
      exact .inl ⟨rfl, List.singleton_inj.mp same, rfl⟩
    · rw [List.concat_eq_append, ← List.cons_append, ← List.append_assoc] at eq
      obtain ⟨rfl, same⟩ := List.append_inj' eq rfl
      obtain rfl := List.singleton_inj.mp same
      exact .inr ⟨front, List.concat_eq_append .., rfl⟩
  · rintro (⟨rfl, rfl, rfl⟩ | ⟨front, rfl, rfl⟩) <;> simp

theorem openAfter_nil : ¬ OpenAfter [] := by
  rintro ⟨before, opening, between, eq, -⟩
  simp at eq

theorem openAfter_snoc {read : List Line} {line : Line} :
    OpenAfter (read ++ [line]) ↔ Begins line ∨ OpenAfter read ∧ ¬ Ends line := by
  constructor
  · rintro ⟨before, opening, between, eq, begins, closed⟩
    obtain ⟨rfl, rfl, rfl⟩ | ⟨front, rfl, rfl⟩ := snoc_eq_cut.mp eq
    · exact .inl begins
    · refine .inr ⟨⟨before, opening, front, rfl, begins, ?_⟩, closed line (by simp)⟩
      intro other member
      exact closed other (by simp [member])
  · rintro (begins | ⟨⟨before, opening, between, rfl, begins, closed⟩, notEnd⟩)
    · exact ⟨read, line, [], rfl, begins, by simp⟩
    · refine ⟨before, opening, between ++ [line], by simp, begins, ?_⟩
      intro other member
      obtain member | member := List.mem_append.mp member
      · exact closed other member
      · obtain rfl := List.mem_singleton.mp member
        exact notEnd

theorem waits_nil (pending : Pending) : ¬ Waits [] pending := by
  rintro ⟨before, line, between, name, arguments, eq, -⟩
  simp at eq

theorem arm_eq_some_iff {number : Nat} {line : Line} {marker : Option Marker} {pending : Pending} :
    arm number line marker = some pending ↔ ∃ name arguments,
      marker = some (.placeholder name arguments) ∧
      pending = ⟨⟨name, Argument.parse arguments, number⟩, line.body⟩ := by
  unfold arm
  split
  · constructor
    · intro eq
      exact ⟨_, _, rfl, (Option.some.inj eq).symm⟩
    · rintro ⟨name, arguments, ⟨⟩, rfl⟩
      rfl
  · constructor
    · intro eq
      cases eq
    · rintro ⟨name, arguments, rfl, -⟩
      simp_all

/-- A line that counts decides what waits; any other leaves it as it is. -/
theorem waits_snoc {read : List Line} {line : Line} {pending : Pending} :
    Waits (read ++ [line]) pending ↔
      Counts read line ∧ arm (read.length + 1) line (Marker.classify? line.body) = some pending ∨
      ¬ Counts read line ∧ Waits read pending := by
  rw [arm_eq_some_iff]
  constructor
  · rintro ⟨before, marker, between, name, arguments, eq, counts, isMarker, rfl, last⟩
    obtain ⟨rfl, rfl, rfl⟩ | ⟨front, rfl, rfl⟩ := snoc_eq_cut.mp eq
    · exact .inl ⟨counts, name, arguments, isMarker, rfl⟩
    · refine .inr ⟨last front line [] rfl, before, marker, front, name, arguments, rfl, counts,
        isMarker, rfl, ?_⟩
      intro between later back eq
      exact last between later (back ++ [line]) (by simp [eq])
  · rintro (⟨counts, name, arguments, isMarker, rfl⟩ | ⟨skipped, before, marker, between, name,
      arguments, rfl, counts, isMarker, rfl, last⟩)
    · exact ⟨read, line, [], name, arguments, rfl, counts, isMarker, rfl, by simp⟩
    · refine ⟨before, marker, between ++ [line], name, arguments, by simp, counts, isMarker, rfl,
        ?_⟩
      intro front later back eq
      obtain ⟨rfl, rfl, rfl⟩ | ⟨rest, rfl, rfl⟩ := snoc_eq_cut.mp eq
      · exact skipped
      · exact last front later rest rfl

/-! ## The state of the scan -/

theorem not_ends_of_begins {line : Line} (begins : Begins line) : ¬ Ends line := by
  intro ends
  simp [Begins, Marker.regionBegin?_of_isRegionEnd ends] at begins

/-- The placeholder that a line answers in a state. -/
def awaited (line : Line) (state : State) : Option Pending :=
  if state.inRegion || (Marker.regionBegin? line.body).isSome || blank line.body ||
      (Marker.classify? line.body).isSome then none
  else state.pending

/-- The state after a line, which does not depend on any answer. -/
def advance (number : Nat) (line : Line) (state : State) : State :=
  if state.inRegion then { state with inRegion := !Marker.isRegionEnd line.body }
  else if (Marker.regionBegin? line.body).isSome then { state with inRegion := true }
  else if blank line.body then state
  else { state with pending := arm number line (Marker.classify? line.body) }

/-- What is said about a waiting placeholder when another marker follows it. -/
def remarks (site : Site) (line : Line) (state : State) : List Event :=
  match state.pending with
  | none => []
  | some pending =>
    if !state.inRegion && (Marker.regionBegin? line.body).isNone &&
        (Marker.classify? line.body).isSome then
      [pending.warn site.file .followedByMarker pending.comment]
    else []

variable {σ : Type} {line : Line} {state : State} {pending : Pending}

theorem awaited_eq_some_iff :
    awaited line state = some pending ↔
      state.inRegion = false ∧ Marker.Plain line.body ∧ state.pending = some pending := by
  unfold awaited
  split
  · rename_i condition
    simp only [reduceCtorEq, false_iff]
    rintro ⟨outside, plain, -⟩
    simp [outside, plain.noBegin, plain.notBlank, plain.noMarker] at condition
  · rename_i condition
    simp only [Bool.or_eq_true, not_or, Bool.not_eq_true, Option.isSome_eq_false_iff,
      Option.isNone_iff_eq_none] at condition
    obtain ⟨⟨⟨outside, noBegin⟩, notBlank⟩, noMarker⟩ := condition
    have plain : Marker.Plain line.body := ⟨notBlank, noMarker, noBegin⟩
    simp [outside, plain]

theorem advance_of_plain (number : Nat) (outside : state.inRegion = false)
    (plain : Marker.Plain line.body) : advance number line state = State.initial := by
  simp [advance, outside, plain.noBegin, plain.notBlank, plain.noMarker, arm, State.initial]

theorem step_of_awaited (evaluate : Evaluator σ) (site : Site) (number : Nat) (s : σ)
    (h : awaited line state = some pending) :
    step evaluate site number line state s =
      ((target evaluate site pending line s).1, advance number line state,
        (target evaluate site pending line s).2) := by
  obtain ⟨outside, plain, waits⟩ := awaited_eq_some_iff.mp h
  rw [advance_of_plain number outside plain]
  simp [step, outside, plain.noBegin, plain.notBlank, plain.noMarker, waits, State.initial]

theorem step_of_not_awaited (evaluate : Evaluator σ) (site : Site) (number : Nat) (s : σ)
    (h : awaited line state = none) :
    step evaluate site number line state s =
      (.kept line (remarks site line state), advance number line state, s) := by
  by_cases region : state.inRegion = true
  · cases waiting : state.pending <;> simp [step, advance, remarks, region, waiting]
  by_cases begins : (Marker.regionBegin? line.body).isSome = true
  · have some_ := Option.isSome_iff_ne_none.mp begins
    cases waiting : state.pending <;> simp [step, advance, remarks, region, begins, some_, waiting]
  have noBegin : Marker.regionBegin? line.body = none := by simpa using begins
  by_cases isBlank : blank line.body = true
  · have noMarker := Marker.classify?_of_blank isBlank
    cases waiting : state.pending with
    | some pending => simp [step, advance, remarks, region, begins, isBlank, waiting, noMarker]
    | none =>
      have idle : { state with pending := none } = state := by rw [← waiting]
      rw [← idle]
      simp [step, advance, remarks, region, begins, isBlank, noMarker, arm]
  · cases waiting : state.pending with
    | none => simp [step, advance, remarks, region, begins, isBlank, waiting]
    | some pending =>
      have marked : Marker.classify? line.body ≠ none := by
        intro noMarker
        simp [awaited, region, begins, isBlank, noMarker, waiting] at h
      have isMarker : (Marker.classify? line.body).isSome = true :=
        Option.isSome_iff_ne_none.mpr marked
      simp [step, advance, remarks, region, noBegin, isBlank, waiting, marked, isMarker]

/-- The state says of the lines read what the text says of them. -/
structure Tracks (read : List Line) (state : State) : Prop where
  region : state.inRegion = true ↔ OpenAfter read
  pending : ∀ pending, state.pending = some pending ↔ Waits read pending

theorem initial_tracks : Tracks [] State.initial := by
  refine ⟨?_, ?_⟩
  · simp [State.initial, openAfter_nil]
  · intro pending
    simp [State.initial, waits_nil]

theorem awaited_iff {read : List Line} (h : Tracks read state) :
    awaited line state = some pending ↔ IsTarget read line pending := by
  have outside : state.inRegion = false ↔ ¬ OpenAfter read := by
    rw [← h.region, Bool.not_eq_true]
  rw [awaited_eq_some_iff, outside, h.pending]
  constructor
  · rintro ⟨closed, plain, waits⟩
    exact ⟨⟨closed, by simp [Begins, plain.noBegin], plain.notBlank⟩, plain.noMarker, waits⟩
  · rintro ⟨⟨closed, noBegin, notBlank⟩, noMarker, waits⟩
    exact ⟨closed, ⟨notBlank, noMarker, by simpa [Begins] using noBegin⟩, waits⟩

/-- A line that does not count leaves the waiting placeholder alone. -/
theorem Tracks.skip {read : List Line} (h : Tracks read state) (skipped : ¬ Counts read line)
    {inRegion : Bool} (region : inRegion = true ↔ OpenAfter (read ++ [line])) :
    Tracks (read ++ [line]) { state with inRegion } := by
  refine ⟨region, ?_⟩
  intro pending
  rw [waits_snoc, h.pending]
  simp [skipped]

/-- **The scan knows the text before it.** What a line leaves behind is what the text up to it
says. -/
theorem advance_tracks {read : List Line} (h : Tracks read state) :
    Tracks (read ++ [line]) (advance (read.length + 1) line state) := by
  have region := h.region
  unfold advance
  by_cases inside : state.inRegion = true
  · rw [if_pos inside]
    refine h.skip (fun counts => counts.1 (region.mp inside)) ?_
    rw [openAfter_snoc, ← region]
    have apart : Begins line → ¬ Ends line := not_ends_of_begins
    simp only [Ends] at apart ⊢
    simp only [inside, Bool.not_eq_true', true_and, Bool.not_eq_true]
    constructor
    · exact .inr
    · rintro (begins | open_)
      · simpa using apart begins
      · exact open_
  rw [if_neg inside]
  have closed : ¬ OpenAfter read := fun open_ => inside (region.mpr open_)
  by_cases begins : (Marker.regionBegin? line.body).isSome = true
  · rw [if_pos begins]
    refine h.skip (fun counts => counts.2.1 begins) ?_
    simp [openAfter_snoc, Begins, begins]
  rw [if_neg begins]
  have outside : ¬ OpenAfter (read ++ [line]) := by
    rw [openAfter_snoc]
    simp [Begins, begins, closed]
  by_cases isBlank : blank line.body = true
  · rw [if_pos isBlank]
    refine h.skip ?_ (by simp [inside, outside])
    rintro ⟨-, -, notBlank⟩
    simp [isBlank] at notBlank
  · have counts : Counts read line := ⟨closed, begins, by simpa using isBlank⟩
    rw [if_neg isBlank]
    refine ⟨by simp [inside, outside], ?_⟩
    intro pending
    rw [waits_snoc]
    simp [counts]

/-- The state after the first lines of a file. -/
def stateAfter (read : List Line) : State :=
  (read.foldl (fun next line => (next.1 + 1, advance next.1 line next.2)) (1, State.initial)).2

theorem stateAfter_snoc (read : List Line) (line : Line) :
    stateAfter (read ++ [line]) = advance (read.length + 1) line (stateAfter read) := by
  have counted : ∀ (ls : List Line) (first : Nat × State),
      (ls.foldl (fun next line => (next.1 + 1, advance next.1 line next.2)) first).1 =
        first.1 + ls.length := by
    intro ls
    induction ls with
    | nil => intro first; rfl
    | cons l ls ih =>
      intro first
      simp only [List.foldl_cons, ih, List.length_cons]
      omega
  simp [stateAfter, counted, Nat.add_comm 1]

theorem stateAfter_tracks (read : List Line) : Tracks read (stateAfter read) := by
  induction read using List.reverseRecOn with
  | nil => exact initial_tracks
  | append_singleton read line ih =>
    rw [stateAfter_snoc]
    exact advance_tracks ih

theorem isTarget_iff {read : List Line} :
    IsTarget read line pending ↔ awaited line (stateAfter read) = some pending :=
  (awaited_iff (stateAfter_tracks read)).symm

/-! ## What a run makes of the lines -/

/-- What the answer to a call puts in the place of a line, if it changes it. -/
def patchedBy (body name : Text) (value : Except String Evaluation) : Option Text :=
  match value with
  | .error _ => none
  | .ok evaluation =>
    let result := Literal.ofOutput evaluation.output evaluation.kind
    match Patch.patchLine body name result evaluation.kind with
    | .replaced patched => some patched
    | _ => none

/-- A line, and if it is a target the placeholder with the answer to the call that was made for
it. -/
structure Edit where
  line : Line
  call : Option (Pending × Answer)

namespace Edit

def patched? (edit : Edit) : Option Text :=
  edit.call.bind fun call => patchedBy edit.line.body call.1.placeholder.name call.2.value

/-- A patched line keeps its ending, and any other line stays as it is. -/
def text (edit : Edit) : Text :=
  match edit.patched? with
  | some patched => patched ++ edit.line.ending
  | none => edit.line.raw

end Edit

def calls (edits : List Edit) : List Placeholder :=
  edits.filterMap fun edit => edit.call.map (·.1.placeholder)

def answers (edits : List Edit) : List Answer := edits.filterMap fun edit => edit.call.map (·.2)

/-- Asks for one placeholder after the other. -/
def consult (evaluate : Evaluator σ) (depth : Nat) : List Placeholder → σ → List Answer × σ
  | [], s => ([], s)
  | placeholder :: rest, s =>
    let (answer, s) := evaluate placeholder depth s
    let (more, s) := consult evaluate depth rest s
    (answer :: more, s)

/-- An evaluator that writes down every call. -/
def logged (evaluate : Evaluator σ) : Evaluator (σ × List (Placeholder × Nat)) :=
  fun placeholder depth s =>
    let (answer, next) := evaluate placeholder depth s.1
    (answer, next, s.2 ++ [(placeholder, depth)])

/-- The edits say of each line whether it is a target, given the lines before them. -/
def Faithful (read : List Line) (edits : List Edit) : Prop :=
  ∀ before edit after, edits = before ++ edit :: after → ∀ pending,
    (∃ answer, edit.call = some (pending, answer)) ↔
      IsTarget (read ++ before.map Edit.line) edit.line pending

theorem Faithful.cons {read : List Line} {edit : Edit} {edits : List Edit}
    (first : ∀ pending, (∃ answer, edit.call = some (pending, answer)) ↔
      IsTarget read edit.line pending)
    (rest : Faithful (read ++ [edit.line]) edits) : Faithful read (edit :: edits) := by
  intro before other after eq
  cases before with
  | nil =>
    obtain ⟨rfl, -⟩ := List.cons.inj eq
    simpa using first
  | cons head before =>
    obtain ⟨rfl, tail⟩ := List.cons.inj eq
    simpa using rest before other after tail

/-- The edit that a target line undergoes. -/
def Edit.ofTarget (evaluate : Evaluator σ) (depth : Nat) (pending : Pending) (line : Line) (s : σ) :
    Edit :=
  ⟨line, some (pending, (evaluate pending.placeholder depth s).1)⟩

theorem calls_ofTarget (evaluate : Evaluator σ) (depth : Nat) (pending : Pending) (line : Line)
    (s : σ) (edits : List Edit) :
    calls (.ofTarget evaluate depth pending line s :: edits) = pending.placeholder :: calls edits :=
  rfl

theorem target_edit (evaluate : Evaluator σ) (site : Site) (pending : Pending) (line : Line)
    (s : σ) :
    let edit := Edit.ofTarget evaluate site.depth pending line s
    (target evaluate site pending line s).1.text = edit.text ∧
    (target evaluate site pending line s).1.replaced = edit.patched?.isSome ∧
    (target evaluate site pending line s).2 = (evaluate pending.placeholder site.depth s).2 := by
  simp only [target, Edit.ofTarget, Edit.text, Edit.patched?, patchedBy, Option.bind_some]
  cases (evaluate pending.placeholder site.depth s).1.value with
  | error reason => exact ⟨rfl, rfl, rfl⟩
  | ok evaluation =>
    dsimp only
    split <;> simp_all [Outcome.kept]

theorem target_logged (evaluate : Evaluator σ) (site : Site) (pending : Pending) (line : Line)
    (s : σ) (log : List (Placeholder × Nat)) :
    target (logged evaluate) site pending line (s, log) =
      ((target evaluate site pending line s).1, (target evaluate site pending line s).2,
        log ++ [(pending.placeholder, site.depth)]) := by
  simp only [target, logged]
  cases (evaluate pending.placeholder site.depth s).1.value with
  | error reason => rfl
  | ok evaluation =>
    dsimp only
    split <;> rfl

/-- What a run does to some lines, given the lines before them. -/
structure RunEdits (evaluate : Evaluator σ) (site : Site) (read rest : List Line) (state : State)
    (s : σ) (edits : List Edit) : Prop where
  lines : edits.map Edit.line = rest
  faithful : Faithful read edits
  text : (run evaluate site (read.length + 1) rest state s).1.map Outcome.text =
    edits.map Edit.text
  replaced : (run evaluate site (read.length + 1) rest state s).1.map Outcome.replaced =
    edits.map (·.patched?.isSome)
  consulted : consult evaluate site.depth (calls edits) s =
    (answers edits, (run evaluate site (read.length + 1) rest state s).2.2)
  answered : ∀ edit ∈ edits, ∀ pending answer, edit.call = some (pending, answer) →
    ∃ s, answer = (evaluate pending.placeholder site.depth s).1
  recorded : ∀ log, run (logged evaluate) site (read.length + 1) rest state (s, log) =
    ((run evaluate site (read.length + 1) rest state s).1,
      (run evaluate site (read.length + 1) rest state s).2.1,
      (run evaluate site (read.length + 1) rest state s).2.2,
      log ++ (calls edits).map (·, site.depth))

namespace RunEdits

variable {evaluate : Evaluator σ} {site : Site} {content : Text} {s : σ} {edits : List Edit}

theorem fill_text (h : RunEdits evaluate site [] content.lines .initial s edits) :
    (fill evaluate site content s).1.text = edits.flatMap Edit.text := by
  simp only [fill, List.flatMap_def]
  rw [← h.text]
  rfl

theorem fill_replaced (h : RunEdits evaluate site [] content.lines .initial s edits) :
    (fill evaluate site content s).1.replaced = edits.countP (·.patched?.isSome) := by
  have counted := congrArg (List.countP (fun replaced => replaced)) h.replaced
  simpa [fill, List.countP_map, Function.comp_def] using counted

end RunEdits

section Step

variable {evaluate : Evaluator σ} {site : Site} {read rest : List Line} {line : Line}
  {state : State} {s : σ} {edits : List Edit}

theorem RunEdits.nil : RunEdits evaluate site read [] state s [] := by
  refine ⟨rfl, ?_, rfl, rfl, rfl, by simp, ?_⟩
  · intro before edit after eq
    simp at eq
  · intro log
    simp [run, calls]

/-- One step over a line that is no target. -/
theorem RunEdits.kept (h : Tracks read state) (idle : awaited line state = none)
    (later : RunEdits evaluate site (read ++ [line]) rest (advance (read.length + 1) line state) s
      edits) :
    RunEdits evaluate site read (line :: rest) state s (⟨line, none⟩ :: edits) := by
  obtain ⟨same, faithful, text, replaced, consulted, answered, recorded⟩ := later
  rw [List.length_append, List.length_singleton] at text replaced consulted recorded
  have taken := step_of_not_awaited evaluate site (read.length + 1) s idle
  have noTarget : ∀ pending, ¬ IsTarget read line pending := by
    intro pending isTarget
    rw [(awaited_iff h).mpr isTarget] at idle
    cases idle
  refine ⟨by simp [same], ?_, ?_, ?_, ?_, ?_, ?_⟩
  · exact Faithful.cons (by simpa using noTarget) faithful
  · simp [run, taken, text, Outcome.kept, Edit.text, Edit.patched?]
  · simp [run, taken, replaced, Outcome.kept, Edit.patched?]
  · simpa [run, taken, calls, answers] using consulted
  · simpa using answered
  · intro log
    have noted := step_of_not_awaited (logged evaluate) site (read.length + 1) (s, log) idle
    simp [run, taken, noted, recorded, calls]

/-- One step over a target. -/
theorem RunEdits.called (h : Tracks read state) {pending : Pending}
    (waits : awaited line state = some pending)
    (later : RunEdits evaluate site (read ++ [line]) rest (advance (read.length + 1) line state)
      (evaluate pending.placeholder site.depth s).2 edits) :
    RunEdits evaluate site read (line :: rest) state s
      (.ofTarget evaluate site.depth pending line s :: edits) := by
  obtain ⟨same, faithful, text, replaced, consulted, answered, recorded⟩ := later
  rw [List.length_append, List.length_singleton] at text replaced consulted recorded
  obtain ⟨editText, editReplaced, editState⟩ := target_edit evaluate site pending line s
  have taken := step_of_awaited evaluate site (read.length + 1) s waits
  rw [editState] at taken
  have isTarget : ∀ other, pending = other ↔ IsTarget read line other := by
    intro other
    rw [← awaited_iff h, waits, Option.some.injEq]
  refine ⟨?_, ?_, ?_, ?_, ?_, ?_, ?_⟩
  · simp [same, Edit.ofTarget]
  · refine Faithful.cons ?_ faithful
    intro other
    simp [Edit.ofTarget, ← isTarget]
  · simp [run, taken, text, editText]
  · simp [run, taken, replaced, editReplaced]
  · simp only [run, taken, calls_ofTarget, consult, consulted]
    rfl
  · simp only [List.mem_cons, forall_eq_or_imp]
    refine ⟨?_, answered⟩
    rintro _ _ ⟨⟩
    exact ⟨s, rfl⟩
  · intro log
    have noted := step_of_awaited (logged evaluate) site (read.length + 1) (s, log) waits
    rw [target_logged, editState] at noted
    simp [run, taken, noted, recorded, calls_ofTarget]

end Step

/-- **A run goes line by line.** Each line is kept, or it is a target that one call is made for. -/
theorem run_edits (evaluate : Evaluator σ) (site : Site) {read : List Line} (rest : List Line)
    {state : State} (s : σ) (h : Tracks read state) :
    ∃ edits, RunEdits evaluate site read rest state s edits := by
  induction rest generalizing read state s with
  | nil => exact ⟨[], .nil⟩
  | cons line rest ih =>
    cases waits : awaited line state with
    | none =>
      obtain ⟨edits, later⟩ := ih s (advance_tracks h)
      exact ⟨_, later.kept h waits⟩
    | some pending =>
      obtain ⟨edits, later⟩ := ih (evaluate pending.placeholder site.depth s).2 (advance_tracks h)
      exact ⟨_, later.called h waits⟩

/-- **Filling goes line by line.** The filled text is made of the lines of the file in order, each
as it was or patched with its own ending. A line is patched only if it is the target of a
placeholder. Exactly one call is made for every target, in source order, and what it puts into the
line depends on nothing but the line, the name of the placeholder and the answer. -/
theorem fill_lineWise (evaluate : Evaluator σ) (site : Site) (content : Text) (s : σ) :
    ∃ edits : List Edit,
      edits.map Edit.line = lines content ∧
      Faithful [] edits ∧
      (fill evaluate site content s).1.text = edits.flatMap Edit.text ∧
      (fill evaluate site content s).1.replaced = edits.countP (·.patched?.isSome) ∧
      consult evaluate site.depth (calls edits) s =
        (answers edits, (fill evaluate site content s).2) ∧
      ∀ log, fill (logged evaluate) site content (s, log) =
        ((fill evaluate site content s).1, (fill evaluate site content s).2,
          log ++ (calls edits).map (·, site.depth)) := by
  obtain ⟨edits, h⟩ := run_edits evaluate site (lines content) s initial_tracks
  refine ⟨edits, h.lines, h.faithful, h.fill_text, h.fill_replaced, h.consulted, ?_⟩
  intro log
  have recorded := h.recorded log
  rw [List.length_nil, Nat.zero_add] at recorded
  simp [fill, recorded]

/-- Two targets with the same text, and the same answer for both, come out different: what is
called on the line is replaced for one of the names only. -/
theorem equal_targets_filled_apart :
    let answer : Evaluator Unit := fun _ _ s => (⟨.ok ⟨['3'], .int⟩, []⟩, s)
    let content := "//:A\nA(1) + 2\n//:B\nA(1) + 2\n".toList
    let filled := lines (fill answer ⟨"f.go", 0⟩ content ()).1.text
    (lines content)[1]? = (lines content)[3]? ∧ filled[1]? ≠ filled[3]? := by
  decide +kernel

end Fill

end Prefill
