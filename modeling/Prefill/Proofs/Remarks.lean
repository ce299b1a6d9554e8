import Prefill.Proofs.Loading
import Prefill.Run

/-!
What diagnostics are about. Loading a project speaks of its helper files only, and working through a
source speaks of that source only.

* `Project.load_tells`: the diagnostics of loading;
* `Fill.fill_tells`, `Injection.inject_tells`: the diagnostics of one source; those of injection are
  warnings.
-/

namespace Prefill

open Text

/-- Every diagnostic among events has a property. -/
def Tells (P : Diagnostic → Prop) (events : List Event) : Prop := ∀ d ∈ diagnosticsOf events, P d

section

variable {P : Diagnostic → Prop}

@[simp] theorem tells_nil : Tells P [] := nofun

@[simp] theorem tells_append {front back : List Event} :
    Tells P (front ++ back) ↔ Tells P front ∧ Tells P back := by
  simp [Tells, diagnosticsOf, or_imp, forall_and]

@[simp] theorem tells_note {text : String} {rest : List Event} :
    Tells P (.note text :: rest) ↔ Tells P rest := Iff.rfl

@[simp] theorem tells_diagnostic {d : Diagnostic} {rest : List Event} :
    Tells P (.diagnostic d :: rest) ↔ P d ∧ Tells P rest := by
  simp [Tells, diagnosticsOf, Event.diagnostic?]

@[simp] theorem tells_notes (notes : List String) : Tells P (notes.map Event.note) := by
  induction notes with
  | nil => exact tells_nil
  | cons _ _ ih => exact ih

namespace Journal

variable {ε α β γ : Type}

theorem tells_andThen {first : Journal ε α} {next : α → Journal ε β} (head : Tells P first.events)
    (tail : ∀ a, first.result = .ok a → Tells P (next a).events) :
    Tells P (first.andThen next).events := by
  unfold andThen
  cases found : first.result with
  | error e => exact head
  | ok a => exact tells_append.mpr ⟨head, tail a found⟩

theorem tells_foldlM {f : β → γ → Journal ε β} {list : List γ}
    (step : ∀ b, ∀ c ∈ list, Tells P (f b c).events) (b : β) :
    Tells P (list.foldlM f b).events := by
  induction list generalizing b with
  | nil => exact tells_nil
  | cons c rest ih =>
    rw [List.foldlM_cons]
    refine tells_andThen (step b c (by simp)) fun next _ => ?_
    exact ih (fun b d member => step b d (List.mem_cons_of_mem _ member)) next

end Journal

end

/-! ## Loading -/

namespace Project

theorem enterFile_tells {P : Diagnostic → Prop} {file : HelperFile}
    (named : ∀ d : Diagnostic, d.file = file.path.display → P d) (index : Index) :
    Tells P (enterFile index file).events := by
  refine Journal.tells_foldlM ?_ index
  intro index symbol member
  have path : symbol.path = file.path := by
    obtain ⟨d, -, rfl⟩ := List.mem_map.mp member
    rfl
  refine Journal.tells_andThen tells_nil ?_
  rintro ⟨next, shadowing⟩ -
  cases shadowing with
  | none => exact tells_nil
  | some hidden => exact tells_diagnostic.mpr ⟨named _ (by rw [path]), tells_nil⟩

theorem checkFile_tells {P : Diagnostic → Prop} {file : HelperFile}
    (named : ∀ d : Diagnostic, d.file = file.path.display → P d) (index : Index) :
    Tells P (checkFile index file).events := by
  have entered := enterFile_tells named index
  have warned (line : Nat) (message : String) :
      Tells P [Event.warning file.path.display line message none] :=
    tells_diagnostic.mpr ⟨named _ rfl, tells_nil⟩
  unfold checkFile
  dsimp only [Journal.bind_eq]
  split
  · refine Journal.tells_andThen (warned _ _) fun _ _ => ?_
    split
    · exact Journal.tells_andThen (warned _ _) fun _ _ => entered
    · exact entered
  · split
    · exact Journal.tells_andThen (warned _ _) fun _ _ => entered
    · exact entered

/-- The diagnostics of entering helper files are about them. -/
theorem ofFiles_tells (root : Place) (files : List HelperFile) (sources submodules : List Place) :
    Tells (fun d => ∃ file ∈ files, d.file = file.path.display)
      (ofFiles root files sources submodules).events := by
  refine Journal.tells_andThen (Journal.tells_foldlM ?_ Index.empty) ?_
  · intro index file member
    exact checkFile_tells (fun d named => ⟨file, mem_sortedBy.mp member, named⟩) index
  · intro index _
    exact tells_nil

/-- **The diagnostics of loading** are about the helper files of the project. -/
theorem load_tells (top : Tree) (config : Config) (root : Place) :
    Tells (fun d => ∃ excluded, config.excluded = .ok excluded ∧
        ∃ place ∈ (Discovery.ofTree top excluded root).helpers, d.file = place.path.display)
      (load top config root).events := by
  refine Journal.tells_andThen tells_nil ?_
  intro excluded patterns
  refine Journal.tells_andThen tells_nil ?_
  intro files read d told
  have found : config.excluded = .ok excluded := mapError_eq_ok_iff.mp patterns
  obtain ⟨file, member, named⟩ := ofFiles_tells root files _ _ d told
  obtain ⟨place, isHelper, readable⟩ := exists_of_mem_mapM read member
  exact ⟨excluded, found, place, isHelper, by rw [named, path_of_readHelper readable]⟩

end Project

/-! ## One source -/

namespace Fill

variable {σ : Type} (evaluate : Evaluator σ) (site : Site)

theorem target_tells (pending : Pending) (line : Line) (s : σ) :
    Tells (fun d => d.file = site.file) (target evaluate site pending line s).1.events := by
  unfold target
  dsimp only
  split
  · simp [Outcome.kept, Pending.warn, Event.warning]
  · split <;> simp [Outcome.kept, Pending.warn, Event.warning]

theorem step_tells (number : Nat) (line : Line) (state : State) (s : σ) :
    Tells (fun d => d.file = site.file) (step evaluate site number line state s).1.events := by
  unfold step
  dsimp only
  split
  · exact tells_nil
  · split
    · exact tells_nil
    · split
      · exact tells_nil
      · split
        · exact tells_nil
        · split
          · exact target_tells evaluate site _ line s
          · simp [Outcome.kept, Pending.warn, Event.warning]

theorem run_tells (number : Nat) (lines : List Line) (state : State) (s : σ) :
    Tells (fun d => d.file = site.file)
      ((run evaluate site number lines state s).1.flatMap Outcome.events) := by
  induction lines generalizing number state s with
  | nil => exact tells_nil
  | cons line rest ih =>
    rw [run, List.flatMap_cons, tells_append]
    exact ⟨step_tells evaluate site number line state s, ih _ _ _⟩

/-- **The diagnostics of filling a file** are about that file. -/
theorem fill_tells (content : Text) (s : σ) :
    Tells (fun d => d.file = site.file) (fill evaluate site content s).1.events := by
  refine tells_append.mpr ⟨run_tells evaluate site 1 (lines content) .initial s, ?_⟩
  unfold closing
  split
  · simp [Pending.warn, Event.warning]
  · exact tells_nil

end Fill

namespace Injection

variable {P : Diagnostic → Prop} {site : Fill.Site}
  (warned : ∀ d : Diagnostic, d.severity = .warning → d.file = site.file → P d)

include warned

theorem useImport_tells {ε : Type} (target helper : Go.Source) (method : Text)
    (imports : Go.ImportTable) (qualifier : Text) :
    Tells P (useImport (ε := ε) site target helper method imports qualifier).events := by
  unfold useImport
  split
  · exact tells_nil
  · split
    · exact tells_nil
    · split
      · exact tells_nil
      · split
        · exact tells_nil
        · exact tells_diagnostic.mpr ⟨warned _ rfl rfl, tells_nil⟩

theorem copyDeclaration_tells {ε : Type} (target helper : Go.Source) (method : Text)
    (copied : Copied) (d : Go.Declaration) :
    Tells P (copyDeclaration (ε := ε) site target helper method copied d).events := by
  unfold copyDeclaration
  split
  · exact tells_nil
  · refine Journal.tells_andThen (Journal.tells_foldlM ?_ _) fun _ _ => tells_nil
    intro imports qualifier _
    exact useImport_tells warned target helper method imports qualifier

theorem answer_tells (project : Project) (target : Go.Source) (lines : List Text)
    (progress : Progress) (request : Request) :
    Tells P (answer project site target lines progress request).events := by
  refine Journal.tells_andThen tells_nil fun interface _ => ?_
  split
  · exact tells_diagnostic.mpr ⟨warned _ rfl rfl, tells_nil⟩
  · refine Journal.tells_andThen (Journal.tells_foldlM ?_ _) fun _ _ => tells_nil
    intro copied d _
    exact copyDeclaration_tells warned target _ _ copied d

theorem applyMarkers_tells (project : Project) (stripped : Text) :
    Tells P (applyMarkers project site stripped).events := by
  unfold applyMarkers
  dsimp only
  split
  · exact tells_nil
  · refine Journal.tells_andThen (Journal.tells_foldlM ?_ _) fun _ _ => tells_nil
    intro progress request _
    exact answer_tells warned project _ _ progress request

theorem staleImports_tells (before after : Text) :
    Tells P (staleImports site before after) := by
  unfold staleImports
  intro d member
  simp only [diagnosticsOf, List.mem_filterMap, List.mem_map] at member
  obtain ⟨_, ⟨i, -, rfl⟩, selected⟩ := member
  obtain rfl := Option.some.inj selected
  exact warned _ rfl rfl

/-- **The diagnostics of injecting into a file** are warnings about that file. -/
theorem inject_tells (project : Project) (content : Text) :
    Tells P (inject project site content).events := by
  unfold inject
  split
  · exact tells_nil
  · refine Journal.tells_andThen tells_nil fun stripped _ => ?_
    refine Journal.tells_andThen (applyMarkers_tells warned project stripped) fun injected _ => ?_
    split
    · exact Journal.tells_andThen (staleImports_tells warned content _) fun _ _ => tells_nil
    · exact tells_nil

end Injection

end Prefill
