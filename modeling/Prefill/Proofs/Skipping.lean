import Prefill.Proofs.Answering
import Prefill.Run

/-!
Files that are only counted. Where no line is a marker or opens a region, injecting and filling give
the text back, ask for no value and have nothing to say, so passing such a file over is what working
through it comes to. The test looks at lines without their endings and injection at lines with them;
an ending changes neither what a line asks for nor whether it opens a region.

* `inject_unmarked`, `applyMarkers_unmarked`: injection, with its own test and without it;
* `step_unmarked`, `fill_unmarked`: filling;
* `unmarked_skipped`: the file and the report.
-/

namespace Prefill

open Text

namespace Marker

/-- Every injection is asked for by a marker. -/
theorem anyInjectionIn_eq_false {content : Text} (noMarker : anyIn content = false) :
    anyInjectionIn content = false := by
  simp only [anyIn, List.any_eq_false, Option.not_isSome_iff_eq_none] at noMarker
  simp only [anyInjectionIn, List.any_eq_false]
  intro line member
  simp [noMarker line member]

end Marker

namespace Injection

variable {content : Text} (project : Project) (site : Fill.Site)

theorem inject_unmarked (noMarker : Marker.anyIn content = false)
    (noRegion : Marker.anyRegionIn content = false) :
    inject project site content = .done ⟨content, 0⟩ := by
  simp [inject, Marker.anyInjectionIn_eq_false noMarker, noRegion]

/-- Answering the markers of a text that has none. -/
theorem applyMarkers_unmarked (noMarker : Marker.anyIn content = false) :
    applyMarkers project site content = .done ⟨content, 0⟩ := by
  rw [applyMarkers, requests_eq_nil_iff.mpr (Marker.anyInjectionIn_eq_false noMarker)]
  rfl

end Injection

namespace Fill

variable {σ : Type} (evaluate : Evaluator σ) (site : Site)

/-- A line that is no marker and opens no region stays, and nothing waits after it. -/
theorem step_unmarked {line : Line} (noMarker : Marker.classify? line.body = none)
    (noRegion : Marker.regionBegin? line.body = none) (number : Nat) (s : σ) :
    step evaluate site number line .initial s = (.kept line [], .initial, s) := by
  simp [step, State.initial, noRegion, noMarker, arm]

theorem run_unmarked {ls : List Line} (noMarker : ∀ line ∈ ls, Marker.classify? line.body = none)
    (noRegion : ∀ line ∈ ls, Marker.regionBegin? line.body = none) (number : Nat) (s : σ) :
    run evaluate site number ls .initial s = (ls.map (.kept · []), .initial, s) := by
  induction ls generalizing number with
  | nil => rfl
  | cons line rest ih =>
    rw [List.forall_mem_cons] at noMarker noRegion
    rw [run, step_unmarked evaluate site noMarker.1 noRegion.1]
    simp [ih noMarker.2 noRegion.2]

/-- Filling a text without markers and regions. The state of the evaluator is what it was. -/
theorem fill_unmarked {content : Text} (noMarker : Marker.anyIn content = false)
    (noRegion : Marker.anyRegionIn content = false) (s : σ) :
    fill evaluate site content s = (⟨content, 0, []⟩, s) := by
  simp only [Marker.anyIn, Marker.anyRegionIn, List.any_eq_false,
    Option.not_isSome_iff_eq_none] at noMarker noRegion
  have text : ((lines content).map (Outcome.kept · [])).flatMap Outcome.text = content := by
    rw [List.flatMap_map]
    exact lines_flatMap_raw content
  have replaced : ((lines content).map (Outcome.kept · [])).countP Outcome.replaced = 0 := by
    simp [List.countP_map, Outcome.kept]
  have events : ((lines content).map (Outcome.kept · [])).flatMap Outcome.events = [] := by
    simp [Outcome.kept]
  rw [fill, run_unmarked evaluate site noMarker noRegion]
  dsimp only
  rw [text, replaced, events]
  rfl

end Fill

namespace Run

variable {σ : Type}

/-- Injecting into a text without markers and regions and filling it change nothing at all. -/
theorem generate_unmarked {content : Text} (noMarker : Marker.anyIn content = false)
    (noRegion : Marker.anyRegionIn content = false) (project : Project)
    (evaluate : Evaluator (Session σ)) (place : Place) (work : Work σ) :
    generate project evaluate place content work = work := by
  simp [generate, Injection.inject_unmarked project _ noMarker noRegion, Journal.done,
    Fill.fill_unmarked evaluate _ noMarker noRegion, Work.tell, Work.tally, Work.save]

/-- **Passing over unmarked files is sound.** Where no line of a text is a marker or opens a region,
injection gives the text back with no region and no event, and so does stripping it and answering
its markers; filling gives it back with nothing replaced, no event and the evaluator as it was. So
the file, the report, the events and the session are the same when the file is only counted. -/
theorem unmarked_skipped {content : Text} (noMarker : Marker.anyIn content = false)
    (noRegion : Marker.anyRegionIn content = false) :
    (∀ project site, Injection.inject project site content = ⟨[], .ok ⟨content, 0⟩⟩ ∧
      Region.strip content = .ok content ∧
      Injection.applyMarkers project site content = ⟨[], .ok ⟨content, 0⟩⟩) ∧
    (∀ (σ : Type) (evaluate : Evaluator σ) site s,
      Fill.fill evaluate site content s = (⟨content, 0, []⟩, s)) ∧
    ∀ (σ : Type) project (evaluate : Evaluator (Session σ)) (work : Work σ) place,
      work.tree.text place.address = .ok content →
      processFile project evaluate work place = work.tally 1 0 0 0 ∧
      generate project evaluate place content (work.tally 1 0 0 0) = work.tally 1 0 0 0 := by
  refine ⟨?_, ?_, ?_⟩
  · intro project site
    exact ⟨Injection.inject_unmarked project site noMarker noRegion, Injection.strip_bare noRegion,
      Injection.applyMarkers_unmarked project site noMarker⟩
  · intro σ evaluate site s
    exact Fill.fill_unmarked evaluate site noMarker noRegion s
  · intro σ project evaluate work place here
    refine ⟨?_, generate_unmarked noMarker noRegion project evaluate place _⟩
    simp [processFile, here, noMarker, noRegion]

/-- A carriage return alone ends no line, so what follows it is no marker of its own. -/
theorem lone_return_skipped :
    let content := "package a\r\n\tvar port = 0\r//:Port\r\n// goahead:inject-begin \r".toList
    Marker.anyIn content = false ∧ Marker.anyRegionIn content = false ∧
      Fill.fill (fun _ _ calls => (⟨.error "", []⟩, calls + 1)) ⟨"a.go", 0⟩ content 0 =
        (⟨content, 0, []⟩, 0) := by
  intro content
  have noMarker : Marker.anyIn content = false := by decide +kernel
  have noRegion : Marker.anyRegionIn content = false := by decide +kernel
  exact ⟨noMarker, noRegion, (unmarked_skipped noMarker noRegion).2.1 Nat _ _ _⟩

end Run

end Prefill
