import Prefill.Proofs.Refill

/-!
The lines of a filled file. A patched line keeps its ending, but what is put into it may hold line
breaks of its own. A string is escaped and never does; any other output goes into the line as it was
printed. So the lines of the file keep their number and their endings exactly when every output that
is put in fits its line (`endings_kept_iff`). An output of two lines does not (`second_line_added`).
-/

namespace Prefill

open Text

namespace Text

/-! ### Lines with the same endings -/

theorem count_flatMap_raw (ls : List Line) : (ls.flatMap Line.raw).count '\n' =
    (ls.flatMap Line.body).count '\n' + (ls.flatMap Line.ending).count '\n' := by
  induction ls with
  | nil => rfl
  | cons line rest ih =>
    simp only [List.flatMap_cons, List.count_append, ih, Line.raw]
    omega

/-- The line feeds of a text are counted by the endings of its lines, so whatever else is written
with these endings has no others. -/
theorem noBreak_of_endings {ls others : List Line} (noBreak : ∀ line ∈ ls, '\n' ∉ line.body)
    (endings : others.map Line.ending = ls.map Line.ending)
    (text : others.flatMap Line.raw = ls.flatMap Line.raw) : ∀ line ∈ others, '\n' ∉ line.body := by
  have none : (ls.flatMap Line.body).count '\n' = 0 := by
    apply List.count_eq_zero_of_not_mem
    simpa using noBreak
  have counted := congrArg (List.count '\n') text
  rw [count_flatMap_raw, count_flatMap_raw, List.flatMap_def (f := Line.ending), endings,
    ← List.flatMap_def] at counted
  have left : '\n' ∉ others.flatMap Line.body := List.count_eq_zero.mp (by omega)
  simpa using left

theorem append_feed_inj {front back rest more : Text} (noBreak : '\n' ∉ front)
    (noBreak' : '\n' ∉ back) (same : front ++ '\n' :: rest = back ++ '\n' :: more) :
    front = back := by
  have first := congrArg rawLines same
  rw [rawLines_append_feed noBreak, rawLines_append_feed noBreak'] at first
  exact List.append_cancel_right (List.cons.inj first).1

/-- Two lines with one ending at the start of one text are the same line. -/
theorem body_eq_of_ending {line other : Line} {rest more : Text} (formed : line.WellFormed)
    (noBreak : '\n' ∉ other.body) (ended : line.ending ≠ []) (ending : other.ending = line.ending)
    (same : other.raw ++ more = line.raw ++ rest) : other.body = line.body := by
  simp only [Line.raw, ending] at same
  obtain empty | feed | carriage := formed.ending
  · exact absurd empty ended
  · rw [feed] at same
    exact append_feed_inj noBreak formed.noBreak (by simpa using same)
  · rw [carriage] at same
    have split : (other.body ++ ['\r']) ++ '\n' :: more =
        (line.body ++ ['\r']) ++ '\n' :: rest := by
      simpa using same
    have bodies : other.body ++ ['\r'] = line.body ++ ['\r'] := by
      apply append_feed_inj ?_ ?_ split
      · simpa using noBreak
      · simpa using formed.noBreak
    exact List.append_cancel_right bodies

/-- **Endings tell lines apart.** A text is read back as the lines that it was written as, as soon
as it is read back with their endings. -/
theorem eq_of_endings {ls others : List Line} (stacked : Stacked ls)
    (endings : others.map Line.ending = ls.map Line.ending)
    (text : others.flatMap Line.raw = ls.flatMap Line.raw) : others = ls := by
  have noBreak := noBreak_of_endings (fun line member => (stacked.formed line member).1.noBreak)
    endings text
  induction ls generalizing others with
  | nil => exact List.map_eq_nil_iff.mp endings
  | cons line rest ih =>
    obtain ⟨other, more, rfl, ending, later⟩ := List.map_eq_cons_iff.mp endings
    rw [List.forall_mem_cons] at noBreak
    rw [List.flatMap_cons, List.flatMap_cons] at text
    have body : other.body = line.body := by
      cases rest with
      | nil =>
        obtain rfl := List.map_eq_nil_iff.mp later
        simpa [Line.raw, ending] using text
      | cons next rest => exact body_eq_of_ending stacked.1 noBreak.1 stacked.2.1 ending text
    obtain rfl : other = line := congrArg₂ Line.mk body ending
    rw [ih stacked.tail later (List.append_cancel_left text) noBreak.2]

/-- Lines written in the place of others leave the endings of a text as they are exactly when each
of them can be read back. -/
theorem endings_eq_iff {ls others : List Line} (stacked : Stacked ls)
    (endings : others.map Line.ending = ls.map Line.ending) :
    (lines (others.flatMap Line.raw)).map Line.ending = ls.map Line.ending ↔
      ∀ line ∈ others, line.WellFormed ∧ line.raw ≠ [] := by
  constructor
  · intro kept
    have read := stacked_lines (others.flatMap Line.raw)
    have same : others = lines (others.flatMap Line.raw) :=
      eq_of_endings read (endings.trans kept.symm) (lines_flatMap_raw _).symm
    intro line member
    exact read.formed line (same ▸ member)
  · intro formed
    rw [lines_of_stacked (stacked.of_endings endings formed), endings]

/-! ### What printing leaves -/

/-- Only a letter is changed by writing it small. -/
theorem toLower_eq_iff {c d : Char} (low : d.toNat < 65) : c.toLower = d ↔ c = d := by
  unfold Char.toLower
  split
  · rename_i upper
    have first : 65 ≤ c.val.toNat := UInt32.le_iff_toNat_le.mp upper.1
    have last : c.val.toNat ≤ 90 := UInt32.le_iff_toNat_le.mp upper.2
    apply iff_of_false
    · intro same
      have code : (c.val + ('a'.val - 'A'.val)).toNat = d.toNat := congrArg Char.toNat same
      have step : ('a'.val - 'A'.val).toNat = 32 := by decide
      rw [UInt32.toNat_add] at code
      omega
    · rintro rfl
      have code : c.toNat = c.val.toNat := rfl
      omega
  · rfl

end Text

namespace Literal

section Printed

variable {output : Text} {kind : LiteralKind} (plain : kind ≠ .string)

include plain

/-- An output that is no string is put in as it was printed. -/
theorem feed_mem_ofOutput_iff : '\n' ∈ ofOutput output kind ↔ '\n' ∈ trim output := by
  cases kind with
  | string => exact absurd rfl plain
  | bool =>
    have feed {c : Char} : c.toLower = '\n' ↔ c = '\n' := toLower_eq_iff (by decide)
    simp [ofOutput, feed]
  | int | uint | float | other => rfl

theorem ofOutput_eq_nil_iff : ofOutput output kind = [] ↔ blank output = true := by
  rw [← trim_eq_nil_iff]
  cases kind with
  | string => exact absurd rfl plain
  | bool => simp [ofOutput]
  | int | uint | float | other => rfl

theorem getLast?_ofOutput : (ofOutput output kind).getLast? ≠ some '\r' := by
  have printed : (trim output).getLast? ≠ some '\r' := by
    intro last
    exact absurd (isBlank_of_getLast?_trim last) (by decide)
  cases kind with
  | string => exact absurd rfl plain
  | bool =>
    have carriage {c : Char} : c.toLower = '\r' ↔ c = '\r' := toLower_eq_iff (by decide)
    simpa [ofOutput, List.getLast?_map, carriage] using printed
  | int | uint | float | other => exact printed

end Printed

end Literal

namespace Fill

variable {σ : Type}

/-- A result stays on the line that it is put into. A string always does. Any other output must not
hold a line feed, and where it is blank, what it leaves of the line must not be nothing at the end
of the file, nor end in a carriage return that the line feed after it would take. -/
def Fits (evaluation : Evaluation) (line : Line) (patched : Text) : Prop :=
  evaluation.kind = .string ∨ '\n' ∉ trim evaluation.output ∧
    (blank evaluation.output = true → patched ++ line.ending ≠ [] ∧
      (line.ending = ['\n'] → patched.getLast? ≠ some '\r'))

theorem fits_iff {evaluation : Evaluation} {line : Line} {name patched : Text}
    (formed : line.WellFormed)
    (replaced : Patch.patchLine line.body name
      (Literal.ofOutput evaluation.output evaluation.kind) evaluation.kind = .replaced patched) :
    Fits evaluation line patched ↔
      Line.WellFormed ⟨patched, line.ending⟩ ∧ Line.raw ⟨patched, line.ending⟩ ≠ [] := by
  by_cases string : evaluation.kind = .string
  · have solid : Literal.Solid (Literal.ofOutput evaluation.output evaluation.kind) := by
      rw [string]
      exact Literal.solid_ofString _
    apply iff_of_true (.inl string)
    refine ⟨Patch.patched_wellFormed solid formed replaced, ?_⟩
    intro empty
    have bare : patched = [] := (List.append_eq_nil_iff.mp empty).1
    have notBlank := (Patch.patched_plain solid replaced).notBlank
    simp [bare, blank] at notBlank
  · have feeds := (Patch.patched_noBreak formed.noBreak replaced).trans
      (Literal.feed_mem_ofOutput_iff string)
    constructor
    · rintro (isString | ⟨noBreak, whereBlank⟩)
      · exact absurd isString string
      by_cases none : blank evaluation.output = true
      · obtain ⟨someText, noReturn⟩ := whereBlank none
        exact ⟨⟨feeds.not.mpr noBreak, formed.ending, noReturn⟩, someText⟩
      · have someResult := (Literal.ofOutput_eq_nil_iff string).not.mpr none
        constructor
        · have inResult := (Literal.feed_mem_ofOutput_iff string).not.mpr noBreak
          exact Patch.wellFormed_of_patchLine someResult inResult
            (Literal.getLast?_ofOutput string) formed replaced
        · obtain ⟨front, back, rfl, -⟩ := Patch.exists_of_patchLine replaced
          simp [Line.raw, someResult]
    · rintro ⟨patchedFormed, someText⟩
      exact .inr ⟨feeds.not.mp patchedFormed.noBreak, fun _ => ⟨someText, patchedFormed.noReturn⟩⟩

theorem Edit.formed_iff {edit : Edit} (formed : edit.line.WellFormed)
    (someText : edit.line.raw ≠ []) : (edit.result.WellFormed ∧ edit.result.raw ≠ []) ↔
      ∀ pending answer evaluation patched, edit.call = some (pending, answer) →
        answer.value = .ok evaluation → edit.patched? = some patched →
        Fits evaluation edit.line patched := by
  cases change : edit.patched? with
  | none =>
    have same : edit.result = edit.line := by simp [Edit.result, change]
    rw [same]
    apply iff_of_true ⟨formed, someText⟩
    intro _ _ _ _ _ _ found
    cases found
  | some filled =>
    obtain ⟨⟨pending, answer⟩, call, patched⟩ := Option.bind_eq_some_iff.mp change
    obtain ⟨evaluation, value, replaced⟩ := patchedBy_eq_some_iff.mp patched
    have shown : edit.result = ⟨filled, edit.line.ending⟩ := by simp [Edit.result, change]
    rw [shown, ← fits_iff formed replaced]
    constructor
    · rintro fits _ _ _ _ call' value' ⟨⟩
      obtain ⟨rfl, rfl⟩ := Prod.mk.inj (Option.some.inj (call.symm.trans call'))
      obtain rfl := Except.ok.inj (value.symm.trans value')
      exact fits
    · intro all
      exact all pending answer evaluation filled call value rfl

/-- **Filling keeps the lines** exactly where results fit. The filled text has as many lines as the
file, with the same endings, if and only if each result that is put into a line stays on it. -/
theorem endings_kept_iff (evaluate : Evaluator σ) (site : Site) (content : Text) (s : σ) :
    ∃ edits : List Edit,
      edits.map Edit.line = lines content ∧
      Faithful [] edits ∧
      consult evaluate site.depth (calls edits) s =
        (answers edits, (fill evaluate site content s).2) ∧
      (fill evaluate site content s).1.text = edits.flatMap Edit.text ∧
      ((lines (fill evaluate site content s).1.text).map Line.ending =
          (lines content).map Line.ending ↔
        ∀ edit ∈ edits, ∀ pending answer evaluation patched, edit.call = some (pending, answer) →
          answer.value = .ok evaluation → edit.patched? = some patched →
          Fits evaluation edit.line patched) := by
  obtain ⟨edits, h⟩ := run_edits evaluate site (lines content) s initial_tracks
  refine ⟨edits, h.lines, h.faithful, h.consulted, h.fill_text, ?_⟩
  have stacked : Stacked (edits.map Edit.line) := by
    rw [h.lines]
    exact stacked_lines content
  have endings : (edits.map Edit.result).map Line.ending =
      (edits.map Edit.line).map Line.ending := by
    simp [Edit.result, Function.comp_def]
  rw [h.fill_text, flatMap_text, ← h.lines, endings_eq_iff stacked endings, List.forall_mem_map]
  apply forall₂_congr
  intro edit member
  obtain ⟨formed, someText⟩ := stacked.formed edit.line (List.mem_map_of_mem member)
  exact Edit.formed_iff formed someText

/-- A number with a line printed before it is put in with that line. -/
theorem second_line_added :
    let content := "//:Port\nvar port = 0\n".toList
    let printed : Evaluation := ⟨"listening\n8080".toList, .int⟩
    let filled := (fill (answering (always printed)) ⟨"f.go", 0⟩ content ()).1
    filled.text = "//:Port\nvar port = listening\n8080\n".toList ∧
      (lines content).length = 2 ∧ (lines filled.text).length = 3 := by
  decide +kernel

/-- Where nothing is printed in place of the last line, the line is gone. -/
example :
    let content := "//:Port\nPort()".toList
    let filled := (fill (answering (always ⟨[], .int⟩)) ⟨"f.go", 0⟩ content ()).1
    (lines content).length = 2 ∧ (lines filled.text).length = 1 := by
  decide +kernel

end Fill

end Prefill
