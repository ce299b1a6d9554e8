import Prefill.Proofs.Memo
import Prefill.Proofs.Refusal

/-!
Programs run one after another, each in a directory in any state, with a toolchain that answers
anything. A value that is remembered stays and is given out without a process; a step that fails
remembers nothing; and the number of runs is the number of processes.

* `find?_perform`: what one step remembers;
* `runProgram_recording`: the processes that running a program starts;
* `steps_remembered`: what holds of a step at any place in a sequence of steps.
-/

namespace Prefill

open Text

variable {σ : Type}

theorem Memo.find?_append (memo more : Memo) (key : MemoKey) :
    Memo.find? (memo ++ more) key = (memo.find? key).or (more.find? key) := by
  simp [Memo.find?, List.find?_append, Option.map_or]

theorem Memo.find?_singleton (key other : MemoKey) (value : Text) :
    Memo.find? [(key, value)] other = if key = other then some value else none := by
  simp only [Memo.find?, List.find?_singleton, decide_eq_true_eq]
  split <;> rfl

namespace Executor

/-! ## One step -/

/-- A program to run: the directory it goes into, as it is then, and what its value is remembered
under. -/
structure Step where
  workspace : Workspace
  program : Program
  key : MemoKey

/-- Runs the program of a step. -/
def perform (toolchain : Toolchain σ) (retries : Nat) (e : Executor σ) (step : Step) :
    Outcome × Executor σ :=
  { e with workspace := step.workspace }.execute toolchain retries step.program step.key

/-! ## Processes -/

/-- The executor of a toolchain that writes down what it is asked, without what is written down. -/
def plain (e : Executor (σ × List Query)) : Executor σ := ⟨e.memo, e.runs, e.workspace, e.tool.1⟩

/-- Running a program starts it up to `retries + 1` times, and each time is counted. Writing this
down changes nothing. -/
theorem runProgram_recording (toolchain : Toolchain σ) (program : Program) (done retries : Nat)
    (e : Executor (σ × List Query)) :
    let ran := e.runProgram toolchain.recording program done retries
    e.plain.runProgram toolchain program done retries = (ran.1, ran.2.plain) ∧
      ∃ n, 0 < n ∧ n ≤ retries + 1 ∧ ran.2.runs = e.runs + n ∧
        ran.2.tool.2 = e.tool.2 ++ List.replicate n (.run program) := by
  have once {retries : Nat} {e ran : Executor (σ × List Query)} (runs : ran.runs = e.runs + 1)
      (asked : ran.tool.2 = e.tool.2 ++ [.run program]) : ∃ n, 0 < n ∧ n ≤ retries + 1 ∧
        ran.runs = e.runs + n ∧ ran.tool.2 = e.tool.2 ++ List.replicate n (.run program) :=
    ⟨1, by omega, by omega, runs, asked⟩
  induction retries generalizing done e with
  | zero =>
    unfold runProgram
    dsimp only [plain, Toolchain.recording]
    repeat' split
    all_goals exact ⟨rfl, once rfl rfl⟩
  | succ retries ih =>
    unfold runProgram
    dsimp only [plain, Toolchain.recording]
    repeat' split
    case h_4 =>
      obtain ⟨again, n, positive, bounded, runs, asked⟩ := ih (done + 1) ⟨e.memo, e.runs + 1,
        e.workspace, (toolchain.run program e.tool.1).2, e.tool.2 ++ [.run program]⟩
      obtain ⟨outcome, left⟩ := Prod.mk.inj again
      refine ⟨Prod.ext ?_ left, n + 1, by omega, by omega, ?_, ?_⟩
      · exact congrArg (fun o : Outcome => Outcome.mk o.result (_ :: o.notes)) outcome
      · exact runs.trans (by dsimp only; omega)
      · refine asked.trans ?_
        rw [List.append_assoc, List.singleton_append, ← List.replicate_succ]
    all_goals exact ⟨rfl, once rfl rfl⟩

/-- A step starts its program unless the value is remembered or the directory is missing. Every
start is counted, and writing it down changes nothing. -/
theorem perform_recording (toolchain : Toolchain σ) (retries : Nat) (e : Executor (σ × List Query))
    (step : Step) :
    let done := e.perform toolchain.recording retries step
    e.plain.perform toolchain retries step = (done.1, done.2.plain) ∧
      ∃ n, n ≤ retries + 1 ∧ (n = 0 ↔ e.memo.find? step.key ≠ none ∨ step.workspace = .missing) ∧
        done.2.runs = e.runs + n ∧
        done.2.tool.2 = e.tool.2 ++ List.replicate n (.run step.program) := by
  obtain ⟨directory, program, key⟩ := step
  dsimp only [perform, execute, plain]
  cases found : e.memo.find? key with
  | some value => exact ⟨rfl, 0, by omega, by simp, rfl, by simp⟩
  | none =>
    cases directory with
    | missing => exact ⟨rfl, 0, by omega, by simp, rfl, by simp⟩
    | holding present =>
      obtain ⟨same, n, positive, bounded, runs, asked⟩ := runProgram_recording toolchain program 0
        retries { e with workspace := .holding (some program.source) }
      dsimp only [plain] at same
      simp only [same]
      split
      all_goals
        exact ⟨rfl, n, bounded, by simp; omega, runs, asked⟩

/-! ## Steps one after another -/

section

variable (toolchain : Toolchain σ) (retries : Nat)

/-- The executor after some steps. -/
def performAll (e : Executor σ) (steps : List Step) : Executor σ :=
  steps.foldl (fun e step => (e.perform toolchain retries step).2) e

/-- What the toolchain is asked in some steps from the start, in order. -/
def asked (tool : σ) (steps : List Step) : List Query :=
  ((start (tool, [])).performAll toolchain.recording retries steps).tool.2

theorem performAll_append (e : Executor σ) (steps more : List Step) :
    e.performAll toolchain retries (steps ++ more) =
      (e.performAll toolchain retries steps).performAll toolchain retries more :=
  List.foldl_append

/-- What every step preserves holds after all steps. -/
theorem performAll_induction {motive : Executor σ → Prop} {e : Executor σ} (first : motive e)
    (next : ∀ e step, motive e → motive (e.perform toolchain retries step).2) (steps : List Step) :
    motive (e.performAll toolchain retries steps) := by
  induction steps generalizing e with
  | nil => exact first
  | cons step rest ih => exact ih (next e step first)

theorem performAll_recording (e : Executor (σ × List Query)) (steps : List Step) :
    (e.performAll toolchain.recording retries steps).plain =
      e.plain.performAll toolchain retries steps := by
  induction steps generalizing e with
  | nil => rfl
  | cons step rest ih =>
    have one := (perform_recording toolchain retries e step).1
    simp only [performAll, List.foldl_cons, one]
    exact ih _

/-- The number of runs is the number of processes. -/
theorem runs_performAll (tool : σ) (steps : List Step) :
    ((start tool).performAll toolchain retries steps).runs =
      (asked toolchain retries tool steps).length := by
  have counted : ((start (tool, [])).performAll toolchain.recording retries steps).runs =
      ((start (tool, [])).performAll toolchain.recording retries steps).tool.2.length := by
    refine performAll_induction _ retries
      (motive := fun e : Executor (σ × List Query) => e.runs = e.tool.2.length) rfl ?_ steps
    intro e step counted
    obtain ⟨-, n, -, -, runs, asked⟩ := perform_recording toolchain retries e step
    rw [runs, asked, counted, List.length_append, List.length_replicate]
  have same := performAll_recording toolchain retries (start (tool, [])) steps
  exact (congrArg Executor.runs same).symm.trans counted

/-- What a step remembers: the value that it gives, if it gives one. -/
theorem find?_perform (e : Executor σ) (step : Step) (key : MemoKey) :
    (e.perform toolchain retries step).2.memo.find? key =
      match (e.perform toolchain retries step).1.result with
      | .ok output => if step.key = key then some output else e.memo.find? key
      | .error _ => e.memo.find? key := by
  obtain ⟨value, found, gives, same⟩ | ⟨-, -, ⟨error, fails⟩, same⟩ |
    ⟨fresh, -, ⟨value, gives, entered⟩ | ⟨error, fails, ran⟩⟩ := execute_cases toolchain retries
      step.program step.key { e with workspace := step.workspace }
  · rw [perform, gives, same]
    dsimp only at found ⊢
    split
    · rename_i isKey
      rw [← isKey, found]
    · rfl
  · rw [perform, fails, same]
  · rw [perform, gives, entered]
    dsimp only at fresh ⊢
    rw [Memo.find?_append, Memo.find?_singleton]
    split
    · rename_i isKey
      rw [← isKey, fresh]
      rfl
    · rw [Option.or_none]
  · rw [perform, fails, ran, (runProgram_frame ..).1]

/-- A value that is remembered is given. -/
theorem perform_of_find? {e : Executor σ} {step : Step} {output : Text}
    (found : e.memo.find? step.key = some output) :
    (e.perform toolchain retries step).1.result = .ok output ∧
      (e.perform toolchain retries step).2 = { e with workspace := step.workspace } := by
  simp [perform, execute, found]

/-- A value that is not remembered takes a program in the directory. -/
theorem workspace_perform {e : Executor σ} {step : Step} (fresh : e.memo.find? step.key = none)
    (writable : step.workspace ≠ .missing) :
    (e.perform toolchain retries step).2.workspace = .holding (some step.program.source) := by
  obtain ⟨value, found, -⟩ | ⟨-, absent, -⟩ | ⟨-, -, ⟨value, -, left⟩ | ⟨error, -, left⟩⟩ :=
    execute_cases toolchain retries step.program step.key { e with workspace := step.workspace }
  · cases fresh.symm.trans found
  · exact absurd absent writable
  all_goals
    rw [perform, left]
    exact (runProgram_frame ..).2

/-- A value that is remembered stays. -/
theorem find?_performAll {e : Executor σ} {key : MemoKey} {output : Text}
    (found : e.memo.find? key = some output) (steps : List Step) :
    (e.performAll toolchain retries steps).memo.find? key = some output := by
  refine performAll_induction _ retries (motive := fun e => e.memo.find? key = some output) found ?_
    steps
  intro e step found
  rw [find?_perform]
  split
  · rename_i value gives
    split
    · rename_i isKey
      have here : e.memo.find? step.key = some output := isKey ▸ found
      have again := (perform_of_find? toolchain retries here).1
      rw [gives] at again
      exact congrArg some (Except.ok.inj again)
    · exact found
  · exact found

/-- What the toolchain is asked in one more step. -/
theorem exists_asked_step (tool : σ) (before : List Step) (step : Step) :
    ∃ n, n ≤ retries + 1 ∧
      (n = 0 ↔ ((start tool).performAll toolchain retries before).memo.find? step.key ≠ none ∨
        step.workspace = .missing) ∧
      asked toolchain retries tool (before ++ [step]) =
        asked toolchain retries tool before ++ List.replicate n (.run step.program) := by
  have memo : ((start (tool, [])).performAll toolchain.recording retries before).memo =
      ((start tool).performAll toolchain retries before).memo :=
    congrArg Executor.memo (performAll_recording toolchain retries (start (tool, [])) before)
  obtain ⟨-, n, bounded, idle, -, more⟩ := perform_recording toolchain retries
    ((start (tool, [])).performAll toolchain.recording retries before) step
  rw [memo] at idle
  refine ⟨n, bounded, idle, ?_⟩
  rw [asked, performAll_append]
  exact more

/-- **The memo table through all steps.** A value that is remembered stays to the end. A step whose
value is remembered gives it, starts nothing and leaves the program in the directory alone; a step
that fails remembers nothing; a step that gives a value remembers it and nothing else. A step runs
its program when the value is not remembered and the program can be written. All processes are
counted. -/
theorem steps_remembered (tool : σ) (before rest : List Step) (step : Step) :
    let e := (start tool).performAll toolchain retries before
    let done := e.perform toolchain retries step
    let last := (start tool).performAll toolchain retries (before ++ step :: rest)
    let started := asked toolchain retries tool
    (∀ key output, e.memo.find? key = some output → last.memo.find? key = some output) ∧
    (∀ output, e.memo.find? step.key = some output → done.1.result = .ok output ∧
      done.2.workspace = step.workspace ∧ started (before ++ [step]) = started before) ∧
    (∀ error, done.1.result = .error error → done.2.memo = e.memo) ∧
    (∀ output, done.1.result = .ok output → ∀ key,
      done.2.memo.find? key = if step.key = key then some output else e.memo.find? key) ∧
    (e.memo.find? step.key = none → step.workspace ≠ .missing →
      done.2.workspace = .holding (some step.program.source) ∧ ∃ n, 0 < n ∧ n ≤ retries + 1 ∧
        started (before ++ [step]) = started before ++ List.replicate n (.run step.program)) ∧
    last.runs = (started (before ++ step :: rest)).length := by
  intro e done last started
  obtain ⟨n, bounded, idle, more⟩ := exists_asked_step toolchain retries tool before step
  refine ⟨?_, ?_, ?_, ?_, ?_, runs_performAll ..⟩
  · intro key output found
    have whole : last = e.performAll toolchain retries (step :: rest) := performAll_append ..
    exact whole ▸ find?_performAll toolchain retries found _
  · intro output found
    obtain ⟨gives, left⟩ := perform_of_find? toolchain retries found
    have noneStarted : n = 0 := idle.mpr (.inl (by simp [e, found]))
    exact ⟨gives, congrArg Executor.workspace left, by simpa [noneStarted] using more⟩
  · intro error fails
    obtain same | ⟨value, gives, -⟩ := execute_memo toolchain retries step.program step.key
      { e with workspace := step.workspace }
    · exact same
    · cases fails.symm.trans gives
  · intro output gives key
    rw [find?_perform, gives]
  · intro fresh writable
    have someStarted : n ≠ 0 := fun noneStarted =>
      (idle.mp noneStarted).elim (· fresh) writable
    exact ⟨workspace_perform toolchain retries fresh writable, n, by omega, bounded, more⟩

end

end Executor

end Prefill
