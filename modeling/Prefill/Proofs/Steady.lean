import Prefill.Evaluation

/-!
Steady toolchains: what they answer depends on the question alone. Two runs that know the same then
find the same values, whatever states their toolchains are in.

* `Session.Alike`: two sessions that know the same;
* `Evaluation.evaluator_respects`: the value of a placeholder;
* `Fill.fill_respects`: a whole file.
-/

namespace Prefill

open Text

variable {σ : Type}

/-- The answers of a toolchain do not depend on its state. -/
structure Toolchain.Steady (toolchain : Toolchain σ) : Prop where
  run : ∀ program s t, (toolchain.run program s).1 = (toolchain.run program t).1
  package : ∀ name s t, (toolchain.package name s).1 = (toolchain.package name t).1

/-! ## Running programs -/

namespace Executor

/-- All but the states of the toolchain agree. -/
structure Alike (e e' : Executor σ) : Prop where
  memo : e.memo = e'.memo
  runs : e.runs = e'.runs
  workspace : e.workspace = e'.workspace

theorem Alike.started {e e' : Executor σ} (alike : e.Alike e') (tool tool' : σ) :
    ({ e with runs := e.runs + 1, tool } : Executor σ).Alike
      { e' with runs := e'.runs + 1, tool := tool' } :=
  ⟨alike.memo, by rw [alike.runs], alike.workspace⟩

variable {toolchain : Toolchain σ} (steady : toolchain.Steady) {e e' : Executor σ}

include steady

theorem exists_answer (program : Program) (s t : σ) :
    ∃ answer s' t', toolchain.run program s = (answer, s') ∧
      toolchain.run program t = (answer, t') :=
  ⟨(toolchain.run program s).1, (toolchain.run program s).2, (toolchain.run program t).2, rfl,
    Prod.ext (steady.run program t s) rfl⟩

theorem runProgram_alike (program : Program) (done retries : Nat) (alike : e.Alike e') :
    (runProgram toolchain program done retries e).1 =
        (runProgram toolchain program done retries e').1 ∧
      (runProgram toolchain program done retries e).2.Alike
        (runProgram toolchain program done retries e').2 := by
  induction retries generalizing done e e' with
  | zero =>
    obtain ⟨answer, tool, tool', first, second⟩ := exists_answer steady program e.tool e'.tool
    have started := alike.started tool tool'
    rw [runProgram, runProgram, first, second]
    cases answer with
    | error error => exact ⟨rfl, started⟩
    | ok output => cases reading : read output <;> simpa [reading] using started
  | succ retries ih =>
    obtain ⟨answer, tool, tool', first, second⟩ := exists_answer steady program e.tool e'.tool
    have started := alike.started tool tool'
    rw [runProgram, runProgram, first, second]
    cases answer with
    | error error => exact ⟨rfl, started⟩
    | ok output =>
      cases reading : read output with
      | retry stderr =>
        obtain ⟨outcome, later⟩ := ih (done + 1) started
        simpa [reading, outcome] using later
      | value value => simpa [reading] using started
      | valueDespiteCleanup value => simpa [reading] using started
      | failure error => simpa [reading] using started

theorem execute_alike (retries : Nat) (program : Program) (key : MemoKey) (alike : e.Alike e') :
    (e.execute toolchain retries program key).1 = (e'.execute toolchain retries program key).1 ∧
      (e.execute toolchain retries program key).2.Alike
        (e'.execute toolchain retries program key).2 := by
  obtain ⟨memo, runs, workspace, tool⟩ := e
  obtain ⟨_, _, _, tool'⟩ := e'
  obtain ⟨rfl, rfl, rfl⟩ := alike
  unfold execute
  dsimp only
  cases memo.find? key with
  | some value => exact ⟨rfl, rfl, rfl, rfl⟩
  | none =>
    cases workspace with
    | missing => exact ⟨rfl, rfl, rfl, rfl⟩
    | holding held =>
      have written : (⟨memo, runs, .holding (some program.source), tool⟩ : Executor σ).Alike
          ⟨memo, runs, .holding (some program.source), tool'⟩ := ⟨rfl, rfl, rfl⟩
      obtain ⟨outcome, later⟩ := runProgram_alike steady program 0 retries written
      dsimp only
      rw [outcome]
      split
      · exact ⟨rfl, by rw [later.memo], later.runs, later.workspace⟩
      · exact ⟨rfl, later⟩

end Executor

/-! ## Evaluating placeholders -/

namespace Session

/-- Two sessions that know the same. -/
structure Alike (s t : Session σ) : Prop where
  packages : s.packages = t.packages
  executor : s.executor.Alike t.executor

theorem start_alike (tool tool' : σ) : (start tool).Alike (start tool') := ⟨rfl, rfl, rfl, rfl⟩

end Session

/-- The same name is found to be the same, and the same is known of packages afterwards. -/
theorem Project.resolve_alike {toolchain : Toolchain σ} (steady : toolchain.Steady)
    (project : Project) (name : Text) (depth : Nat) (packages : PackageTable) (s t : σ) :
    let first := project.resolve toolchain name depth packages s
    let second := project.resolve toolchain name depth packages t
    first.target = second.target ∧ first.notes = second.notes ∧ first.packages = second.packages := by
  intro first second
  simp only [first, second, Project.resolve]
  split
  · exact ⟨rfl, rfl, rfl⟩
  · split
    · exact ⟨rfl, rfl, rfl⟩
    · rename_i qualifier member _
      split
      · exact ⟨rfl, rfl, rfl⟩
      · have same := steady.package qualifier s t
        unfold PackageTable.resolve
        cases packages.find? qualifier with
        | some known => exact ⟨rfl, rfl, rfl⟩
        | none =>
          cases asked : toolchain.package qualifier s with | mk answer tool
          cases askedToo : toolchain.package qualifier t with | mk answer' tool'
          obtain rfl : answer = answer' := by simpa [asked, askedToo] using same
          cases answer <;> exact ⟨rfl, rfl, rfl⟩

/-- Whoever evaluates keeps a relation between states, and answers alike in related ones. -/
def Respects (evaluate : Evaluator σ) (alike : σ → σ → Prop) : Prop :=
  ∀ placeholder depth s t, alike s t →
    (evaluate placeholder depth s).1 = (evaluate placeholder depth t).1 ∧
      alike (evaluate placeholder depth s).2 (evaluate placeholder depth t).2

namespace Evaluation

variable {toolchain : Toolchain σ} (steady : toolchain.Steady)

include steady

theorem call_alike (project : Project) (retries : Nat) (target : Target) (depth : Nat)
    (arguments : List Text) {e e' : Executor σ} (alike : e.Alike e') :
    (call project toolchain retries target depth arguments e).1 =
        (call project toolchain retries target depth arguments e').1 ∧
      (call project toolchain retries target depth arguments e).2.Alike
        (call project toolchain retries target depth arguments e').2 := by
  unfold call
  rw [← alike.memo]
  dsimp only
  split
  · exact ⟨rfl, alike⟩
  · obtain ⟨outcome, later⟩ := Executor.execute_alike steady retries
      (Program.synthesize project target depth arguments).1 (memoKey target depth arguments) alike
    rw [outcome]
    exact ⟨rfl, later⟩

/-- **The value of a placeholder** depends on what is known, not on the state of the toolchain. -/
theorem evaluator_respects (project : Project) (config : Config) :
    Respects (evaluator project toolchain config) Session.Alike := by
  intro placeholder depth s t alike
  obtain ⟨target, notes, packages⟩ := Project.resolve_alike steady project placeholder.name depth
    s.packages s.executor.tool t.executor.tool
  have resolved (tool tool' : σ) : ({ s.executor with tool } : Executor σ).Alike
      { t.executor with tool := tool' } :=
    ⟨alike.executor.memo, alike.executor.runs, alike.executor.workspace⟩
  unfold evaluator
  dsimp only
  rw [← alike.packages, ← target, ← notes, ← packages]
  split
  · exact ⟨rfl, rfl, resolved _ _⟩
  · split
    · exact ⟨rfl, rfl, resolved _ _⟩
    · rename_i found _ _ _
      obtain ⟨answer, later⟩ := call_alike steady project config.maxRetries found depth
        (argumentsFor found placeholder.arguments) (resolved _ _)
      exact ⟨by rw [answer], rfl, later⟩

end Evaluation

/-! ## Filling a file -/

namespace Fill

variable {evaluate : Evaluator σ} {alike : σ → σ → Prop} (respects : Respects evaluate alike)
  (site : Site)

include respects

theorem target_respects (pending : Pending) (line : Line) {s t : σ} (h : alike s t) :
    (target evaluate site pending line s).1 = (target evaluate site pending line t).1 ∧
      alike (target evaluate site pending line s).2 (target evaluate site pending line t).2 := by
  obtain ⟨answer, later⟩ := respects pending.placeholder site.depth s t h
  unfold target
  dsimp only
  rw [answer]
  split
  · exact ⟨rfl, later⟩
  · split <;> exact ⟨rfl, later⟩

theorem step_respects (number : Nat) (line : Line) (state : State) {s t : σ} (h : alike s t) :
    (step evaluate site number line state s).1 = (step evaluate site number line state t).1 ∧
      (step evaluate site number line state s).2.1 =
        (step evaluate site number line state t).2.1 ∧
      alike (step evaluate site number line state s).2.2
        (step evaluate site number line state t).2.2 := by
  unfold step
  dsimp only
  split
  · exact ⟨rfl, rfl, h⟩
  · split
    · exact ⟨rfl, rfl, h⟩
    · split
      · exact ⟨rfl, rfl, h⟩
      · split
        · exact ⟨rfl, rfl, h⟩
        · split
          · obtain ⟨outcome, later⟩ := target_respects respects site _ line h
            exact ⟨outcome, rfl, later⟩
          · exact ⟨rfl, rfl, h⟩

theorem run_respects (number : Nat) (lines : List Line) (state : State) {s t : σ}
    (h : alike s t) :
    (run evaluate site number lines state s).1 = (run evaluate site number lines state t).1 ∧
      (run evaluate site number lines state s).2.1 =
        (run evaluate site number lines state t).2.1 ∧
      alike (run evaluate site number lines state s).2.2
        (run evaluate site number lines state t).2.2 := by
  induction lines generalizing number state s t with
  | nil => exact ⟨rfl, rfl, h⟩
  | cons line rest ih =>
    obtain ⟨outcome, next, later⟩ := step_respects respects site number line state h
    obtain ⟨more, last, final⟩ := ih (number + 1)
      (step evaluate site number line state s).2.1 later
    rw [next] at more last final
    rw [run, run]
    dsimp only
    rw [next, outcome]
    exact ⟨by rw [more], last, final⟩

/-- **A whole file** is filled alike in related states. -/
theorem fill_respects (content : Text) {s t : σ} (h : alike s t) :
    (fill evaluate site content s).1 = (fill evaluate site content t).1 ∧
      alike (fill evaluate site content s).2 (fill evaluate site content t).2 := by
  obtain ⟨outcomes, state, later⟩ := run_respects respects site 1 (lines content) .initial h
  unfold fill
  dsimp only
  rw [outcomes, state]
  exact ⟨rfl, later⟩

end Fill

end Prefill
