import Prefill.Proofs.Patching
import Prefill.Proofs.Targets

/-!
Filling a file again. The comments stay, so a second run meets the same targets with the same
placeholders, now with results on them.

* `lines_fill`: the filled text has the lines of the file, each kept or patched;
* `refill_eq_iff`: a second run changes nothing exactly when every patched line is settled;
* `refill_fills_next_zero`: it may change something, as only the first literal of a line is compared
  with the result.
-/

namespace Prefill

open Text

namespace Fill

variable {σ : Type}

/-- The value of a placeholder depends on nothing but its name, its arguments and the depth. -/
def Stateless (evaluate : Evaluator σ)
    (answer : Text → List Argument → Nat → Except String Evaluation) : Prop :=
  ∀ placeholder depth s,
    (evaluate placeholder depth s).1.value = answer placeholder.name placeholder.arguments depth

/-! ## One run, told from the lines -/

theorem patchedBy_eq_some_iff {body name filled : Text} {value : Except String Evaluation} :
    patchedBy body name value = some filled ↔ ∃ evaluation, value = .ok evaluation ∧
      Patch.patchLine body name (Literal.ofOutput evaluation.output evaluation.kind)
        evaluation.kind = .replaced filled := by
  unfold patchedBy
  cases value with
  | error reason => simp
  | ok evaluation =>
    dsimp only
    split <;> simp_all

/-- What is put into a line, given the state before it. -/
def fillOf (answer : Text → List Argument → Nat → Except String Evaluation) (depth : Nat)
    (state : State) (line : Line) : Option Text :=
  (awaited line state).bind fun pending =>
    patchedBy line.body pending.placeholder.name
      (answer pending.placeholder.name pending.placeholder.arguments depth)

/-- The line that an edit leaves. -/
def Edit.result (edit : Edit) : Line := ⟨edit.patched?.getD edit.line.body, edit.line.ending⟩

theorem flatMap_text (edits : List Edit) :
    edits.flatMap Edit.text = (edits.map Edit.result).flatMap Line.raw := by
  have same : Edit.text = Line.raw ∘ Edit.result := by
    funext edit
    cases patched : edit.patched? <;> simp [Edit.text, Edit.result, Line.raw, patched]
  rw [List.flatMap_map, same]
  rfl

section Runs

variable {evaluate : Evaluator σ} {site : Site} {content : Text} {s : σ} {edits : List Edit}
  {answer : Text → List Argument → Nat → Except String Evaluation}

theorem patched?_eq_fillOf (stateless : Stateless evaluate answer)
    (h : RunEdits evaluate site [] content.lines .initial s edits) {before after : List Edit}
    {edit : Edit} (cut : edits = before ++ edit :: after) :
    edit.patched? = fillOf answer site.depth (stateAfter (before.map Edit.line)) edit.line := by
  have faithful := h.faithful before edit after cut
  simp only [List.nil_append, isTarget_iff] at faithful
  unfold Edit.patched? fillOf
  cases call : edit.call with
  | none =>
    have idle : awaited edit.line (stateAfter (before.map Edit.line)) = none := by
      by_contra waits
      obtain ⟨pending, waits⟩ := Option.ne_none_iff_exists'.mp waits
      obtain ⟨_, called⟩ := (faithful pending).mpr waits
      simp [call] at called
    simp [idle]
  | some made =>
    obtain ⟨pending, given⟩ := made
    have waits := (faithful pending).mp ⟨given, call⟩
    obtain ⟨s, rfl⟩ := h.answered edit (by simp [cut]) pending given call
    simp [waits, stateless pending.placeholder site.depth s]

/-- The lines that a run changes can be told without running it. -/
theorem fill_replaced_eq_zero_iff (stateless : Stateless evaluate answer) :
    (fill evaluate site content s).1.replaced = 0 ↔ ∀ before line after,
      lines content = before ++ line :: after →
        fillOf answer site.depth (stateAfter before) line = none := by
  obtain ⟨edits, h⟩ := run_edits evaluate site (lines content) s initial_tracks
  have told := @patched?_eq_fillOf _ _ _ _ _ _ _ stateless h
  rw [h.fill_replaced, List.countP_eq_zero, ← h.lines]
  constructor
  · intro kept before line after cut
    obtain ⟨front, rest, rfl, rfl, tail⟩ := List.map_eq_append_iff.mp cut
    obtain ⟨edit, back, rfl, rfl, rfl⟩ := List.map_eq_cons_iff.mp tail
    rw [← told rfl]
    simpa using kept edit (by simp)
  · intro kept edit member
    obtain ⟨front, back, cut⟩ := List.append_of_mem member
    rw [told cut, kept _ edit.line (back.map Edit.line) (by simp [cut])]
    simp

theorem fill_text_of_replaced_eq_zero (h : (fill evaluate site content s).1.replaced = 0) :
    (fill evaluate site content s).1.text = content := by
  obtain ⟨edits, run⟩ := run_edits evaluate site (lines content) s initial_tracks
  rw [run.fill_replaced, List.countP_eq_zero] at h
  have kept : edits.map Edit.result = edits.map Edit.line := by
    refine List.map_congr_left fun edit member => ?_
    have none : edit.patched? = none := by simpa using h edit member
    simp [Edit.result, none]
  rw [run.fill_text, flatMap_text, kept, run.lines, lines_flatMap_raw]

/-! ## What the second run reads -/

/-- A stateless evaluator whose values are all canonical. -/
def Canonical (answer : Text → List Argument → Nat → Except String Evaluation) : Prop :=
  ∀ name arguments depth evaluation, answer name arguments depth = .ok evaluation →
    Literal.Canonical evaluation.output evaluation.kind

theorem exists_of_fillOf {state : State} {line : Line} {depth : Nat} {filled : Text}
    (h : fillOf answer depth state line = some filled) :
    ∃ pending evaluation, awaited line state = some pending ∧
      answer pending.placeholder.name pending.placeholder.arguments depth = .ok evaluation ∧
      Patch.patchLine line.body pending.placeholder.name
        (Literal.ofOutput evaluation.output evaluation.kind) evaluation.kind =
        .replaced filled := by
  obtain ⟨pending, waits, patched⟩ := Option.bind_eq_some_iff.mp h
  obtain ⟨evaluation, value, patched⟩ := patchedBy_eq_some_iff.mp patched
  exact ⟨pending, evaluation, waits, value, patched⟩

/-- The line that a run leaves is as well-formed as the line it read, and where it differs it is
code that stands for code. -/
theorem result_of_fillOf (canonical : Canonical answer) {state : State} {edit : Edit} {depth : Nat}
    (told : edit.patched? = fillOf answer depth state edit.line) :
    (edit.line.WellFormed → edit.result.WellFormed) ∧
    (edit.result = edit.line ∨
      state.inRegion = false ∧ Marker.Plain edit.line.body ∧ Marker.Plain edit.result.body) := by
  cases patched : edit.patched? with
  | none =>
    have same : edit.result = edit.line := by simp [Edit.result, patched]
    rw [same]
    exact ⟨id, .inl rfl⟩
  | some filled =>
    obtain ⟨pending, evaluation, waits, value, replaced⟩ := exists_of_fillOf (told ▸ patched)
    have solid := Literal.solid_ofOutput (canonical _ _ _ _ value)
    obtain ⟨outside, plain, -⟩ := awaited_eq_some_iff.mp waits
    have shown : edit.result = ⟨filled, edit.line.ending⟩ := by simp [Edit.result, patched]
    rw [shown]
    exact ⟨fun formed => Patch.patched_wellFormed solid formed replaced,
      .inr ⟨outside, plain, Patch.patched_plain solid replaced⟩⟩

theorem stacked_results {edits : List Edit} (h : Stacked (edits.map Edit.line))
    (formed : ∀ edit ∈ edits, edit.line.WellFormed → edit.result.WellFormed)
    (kept : ∀ edit ∈ edits, edit.line.raw ≠ [] → edit.result.raw ≠ []) :
    Stacked (edits.map Edit.result) := by
  apply h.of_endings
  · simp [Edit.result, Function.comp_def]
  · intro line member
    obtain ⟨edit, inside, rfl⟩ := List.mem_map.mp member
    obtain ⟨before, someText⟩ := h.formed edit.line (List.mem_map_of_mem inside)
    exact ⟨formed edit inside before, kept edit inside someText⟩

/-- **The lines of a filled file** are the lines of the file, each kept or patched. -/
theorem lines_fill (stateless : Stateless evaluate answer) (canonical : Canonical answer)
    (h : RunEdits evaluate site [] content.lines .initial s edits) :
    lines (fill evaluate site content s).1.text = edits.map Edit.result := by
  have facts : ∀ edit ∈ edits, ∃ state : State,
      edit.patched? = fillOf answer site.depth state edit.line := by
    intro edit member
    obtain ⟨before, after, cut⟩ := List.append_of_mem member
    exact ⟨_, patched?_eq_fillOf stateless h cut⟩
  have stacked : Stacked (edits.map Edit.line) := by
    rw [h.lines]
    exact stacked_lines content
  rw [h.fill_text, flatMap_text]
  apply lines_of_stacked
  refine stacked_results stacked ?_ ?_
  · intro edit member
    obtain ⟨state, told⟩ := facts edit member
    exact (result_of_fillOf canonical told).1
  · intro edit member someText
    obtain ⟨state, told⟩ := facts edit member
    obtain same | ⟨-, -, plain⟩ := (result_of_fillOf canonical told).2
    · rwa [same]
    · intro empty
      have bare : edit.result.body = [] := (List.append_eq_nil_iff.mp empty).1
      exact absurd plain.notBlank (by simp [bare, blank])

/-- Patching a line does not change what the next lines mean. -/
theorem stateAfter_results (stateless : Stateless evaluate answer) (canonical : Canonical answer)
    (h : RunEdits evaluate site [] content.lines .initial s edits) {before after : List Edit}
    (cut : edits = before ++ after) :
    stateAfter (before.map Edit.result) = stateAfter (before.map Edit.line) := by
  induction before using List.reverseRecOn generalizing after with
  | nil => rfl
  | append_singleton before edit ih =>
    have cut : edits = before ++ edit :: after := by simpa using cut
    have told := patched?_eq_fillOf stateless h cut
    simp only [List.map_append, List.map_cons, List.map_nil, stateAfter_snoc, ih cut,
      List.length_map]
    obtain same | ⟨outside, plain, filled⟩ := (result_of_fillOf canonical told).2
    · rw [same]
    · rw [advance_of_plain _ outside plain, advance_of_plain _ outside filled]

theorem awaited_result (canonical : Canonical answer) {state : State} {edit : Edit} {depth : Nat}
    (told : edit.patched? = fillOf answer depth state edit.line) :
    awaited edit.result state = awaited edit.line state := by
  obtain same | ⟨outside, plain, filled⟩ := (result_of_fillOf canonical told).2
  · rw [same]
  · apply Option.ext
    intro pending
    simp only [awaited_eq_some_iff, plain, filled]

/-- The second run fills a line exactly when the first run has filled it and left it unsettled. -/
theorem fillOf_result_eq_none_iff (canonical : Canonical answer) {state : State} {edit : Edit}
    {depth : Nat} (told : edit.patched? = fillOf answer depth state edit.line) :
    fillOf answer depth state edit.result = none ↔ ∀ pending evaluation filled,
      awaited edit.line state = some pending →
      answer pending.placeholder.name pending.placeholder.arguments depth = .ok evaluation →
      let result := Literal.ofOutput evaluation.output evaluation.kind
      Patch.patchLine edit.line.body pending.placeholder.name result evaluation.kind =
        .replaced filled →
      Patch.Settled filled pending.placeholder.name result evaluation.kind := by
  have again := awaited_result canonical told
  cases patched : edit.patched? with
  | none =>
    have same : edit.result = edit.line := by simp [Edit.result, patched]
    rw [same, ← told, patched]
    refine iff_of_true rfl ?_
    intro pending evaluation filled waits value result replaced
    have changed : fillOf answer depth state edit.line = some filled :=
      Option.bind_eq_some_iff.mpr ⟨pending, waits, patchedBy_eq_some_iff.mpr ⟨_, value, replaced⟩⟩
    rw [← told, patched] at changed
    cases changed
  | some filled =>
    obtain ⟨pending, evaluation, waits, value, replaced⟩ := exists_of_fillOf (told ▸ patched)
    have body : edit.result.body = filled := by simp [Edit.result, patched]
    have second : fillOf answer depth state edit.result =
        patchedBy filled pending.placeholder.name (.ok evaluation) := by
      simp [fillOf, again, waits, value, body]
    have settled : Patch.Settled filled pending.placeholder.name
        (Literal.ofOutput evaluation.output evaluation.kind) evaluation.kind ↔
          fillOf answer depth state edit.result = none := by
      rw [Patch.settled_iff, second, Option.eq_none_iff_forall_ne_some, not_exists]
      simp [patchedBy_eq_some_iff]
    rw [← settled]
    constructor
    · intro holds other given text waits' value' result replaced'
      obtain rfl : pending = other := Option.some.inj (waits.symm.trans waits')
      obtain rfl : evaluation = given := Except.ok.inj (value.symm.trans value')
      obtain rfl : filled = text := Patch.replaced.inj (replaced.symm.trans replaced')
      exact holds
    · intro all
      exact all pending evaluation filled waits value replaced

/-- **Filling again.** With canonical values that depend on the placeholder and the depth alone, a
second run leaves the text as it is and reports nothing replaced exactly when the first run has left
every line that it changed settled. -/
theorem refill_eq_iff (stateless : Stateless evaluate answer) (canonical : Canonical answer)
    (site : Site) (content : Text) (s s' : σ) :
    let first := (fill evaluate site content s).1
    let second := (fill evaluate site first.text s').1
    (second.text = first.text ∧ second.replaced = 0) ↔
      ∀ before line after pending evaluation filled,
        lines content = before ++ line :: after → IsTarget before line pending →
        answer pending.placeholder.name pending.placeholder.arguments site.depth =
          .ok evaluation →
        let result := Literal.ofOutput evaluation.output evaluation.kind
        Patch.patchLine line.body pending.placeholder.name result evaluation.kind =
          .replaced filled →
        Patch.Settled filled pending.placeholder.name result evaluation.kind := by
  intro first second
  obtain ⟨edits, h⟩ := run_edits evaluate site (lines content) s initial_tracks
  have quiet : (second.text = first.text ∧ second.replaced = 0) ↔ second.replaced = 0 :=
    and_iff_right_of_imp fill_text_of_replaced_eq_zero
  rw [quiet, fill_replaced_eq_zero_iff stateless, lines_fill stateless canonical h, ← h.lines]
  have cuts : ∀ before edit after, edits = before ++ edit :: after →
      (fillOf answer site.depth (stateAfter (before.map Edit.result)) edit.result = none ↔
        ∀ pending evaluation filled, IsTarget (before.map Edit.line) edit.line pending →
          answer pending.placeholder.name pending.placeholder.arguments site.depth =
            .ok evaluation →
          let result := Literal.ofOutput evaluation.output evaluation.kind
          Patch.patchLine edit.line.body pending.placeholder.name result evaluation.kind =
            .replaced filled →
          Patch.Settled filled pending.placeholder.name result evaluation.kind) := by
    intro before edit after cut
    rw [stateAfter_results stateless canonical h cut]
    simp only [isTarget_iff]
    exact fillOf_result_eq_none_iff canonical (patched?_eq_fillOf stateless h cut)
  constructor
  · intro kept before line after pending evaluation filled cut
    obtain ⟨front, rest, whole, rfl, tail⟩ := List.map_eq_append_iff.mp cut
    obtain ⟨edit, back, rfl, rfl, rfl⟩ := List.map_eq_cons_iff.mp tail
    refine (cuts front edit back whole).mp ?_ pending evaluation filled
    exact kept _ _ (back.map Edit.result) (by simp [whole])
  · intro settled before line after cut
    obtain ⟨front, rest, whole, rfl, tail⟩ := List.map_eq_append_iff.mp cut
    obtain ⟨edit, back, rfl, rfl, rfl⟩ := List.map_eq_cons_iff.mp tail
    refine (cuts front edit back whole).mpr ?_
    intro pending evaluation filled
    exact settled _ _ (back.map Edit.line) pending evaluation filled (by simp [whole])

end Runs

/-- The same value for every placeholder. -/
def always (value : Evaluation) : Text → List Argument → Nat → Except String Evaluation :=
  fun _ _ _ => .ok value

/-- An evaluator that keeps no state. -/
def answering (answer : Text → List Argument → Nat → Except String Evaluation) : Evaluator Unit :=
  fun placeholder depth s => (⟨answer placeholder.name placeholder.arguments depth, []⟩, s)

theorem answering_stateless (answer : Text → List Argument → Nat → Except String Evaluation) :
    Stateless (answering answer) answer :=
  fun _ _ _ => rfl

theorem always_canonical {value : Evaluation} (h : Literal.Canonical value.output value.kind) :
    Canonical (always value) := by
  rintro name arguments depth _ ⟨⟩
  exact h

theorem canonical_seven : Literal.Canonical ['7'] .int := by
  have digit : isAsciiDigit '7' = true := by decide
  have read : Literal.unsigned (trim ['7']) = ['7'] := by decide
  rw [Literal.Canonical, read]
  exact ⟨List.cons_ne_nil _ _, by simp [digit]⟩

/-- A line whose first literal has been filled is settled, although a zero is left on it. -/
theorem refill_keeps_second_zero :
    Patch.Settled "var ports = []int\x7b7, 0\x7d".toList "Port".toList ['7'] .int := by
  have kept := refill_eq_iff (answering_stateless (always ⟨['7'], .int⟩))
    (always_canonical canonical_seven) ⟨"f.go", 0⟩
    "//:Port\nvar ports = []int\x7b0, 0\x7d\n".toList () ()
  refine kept.mp (by decide +kernel) [⟨"//:Port".toList, ['\n']⟩]
    ⟨"var ports = []int\x7b0, 0\x7d".toList, ['\n']⟩ [] ⟨⟨"Port".toList, [], 1⟩, "//:Port".toList⟩
    ⟨['7'], .int⟩ _ ?_ ?_ rfl ?_
  · decide +kernel
  · rw [isTarget_iff]
    decide +kernel
  · decide +kernel

/-- Where another literal stands before the zero, every run fills one more zero. -/
theorem refill_fills_next_zero :
    let answer := always ⟨['7'], .int⟩
    let first := (fill (answering answer) ⟨"f.go", 0⟩
      "//:Port\nvar ports = []int\x7b5, 0, 0\x7d\n".toList ()).1
    let second := (fill (answering answer) ⟨"f.go", 0⟩ first.text ()).1
    Stateless (answering answer) answer ∧ Canonical answer ∧
      first.text = "//:Port\nvar ports = []int\x7b5, 7, 0\x7d\n".toList ∧
      second.text = "//:Port\nvar ports = []int\x7b5, 7, 7\x7d\n".toList ∧
      second.replaced = 1 := by
  intro answer first second
  refine ⟨answering_stateless answer, always_canonical canonical_seven, ?_, ?_, ?_⟩ <;>
    decide +kernel

end Fill

end Prefill
