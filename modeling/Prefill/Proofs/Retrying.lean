import Prefill.Proofs.Comments
import Prefill.Proofs.Executing

/-!
Programs that are run again. A program is started as long as the toolchain fails at nothing but the
cleanup after it and nothing was printed (`Retryable`), at most one time more than there are
retries. The first answer of another kind decides the result (`Decides`); where there is none, the
last one is reported.

* `runProgram_decided`, `runProgram_exhausted`: a run of the loop, from any attempt on;
* `attempts_decided`: a program whose value is not remembered.
-/

namespace Prefill

open Text

variable {σ : Type}

/-! ## What an answer says -/

/-- The text without one line break at its end, if there is one. -/
def Text.DropsBreak (text rest : Text) : Prop :=
  text = rest ++ ['\r', '\n'] ∨
  text = rest ++ ['\n'] ∧ rest.getLast? ≠ some '\r' ∨
  text = rest ∧ rest.getLast? ≠ some '\n'

theorem Text.before?_eq_some_iff {tail : String} {text rest : Text} :
    before? tail text = some rest ↔ text = rest ++ tail.toList := by
  unfold before?
  rw [Option.map_eq_some_iff]
  constructor
  · rintro ⟨found, stripped, rfl⟩
    have mirrored := congrArg List.reverse (strip?_eq_some_iff.mp stripped)
    simpa using mirrored
  · rintro rfl
    exact ⟨rest.reverse, strip?_eq_some_iff.mpr (by simp), by simp⟩

namespace Toolchain

/-- An output says something, and every line that does is cleanup noise. -/
def OnlyNoise (output : Text) : Prop :=
  (∃ line ∈ lines output, blank line.body = false) ∧
    ∀ line ∈ lines output, blank line.body = false → isNoiseLine (trim line.body) = true

theorem mem_spokenLines {output line : Text} :
    line ∈ spokenLines output ↔
      ∃ l ∈ lines output, blank l.body = false ∧ trim l.body = line := by
  simp only [spokenLines, List.mem_filter, List.mem_map, Bool.not_eq_true',
    List.isEmpty_eq_false_iff]
  constructor
  · rintro ⟨⟨l, member, rfl⟩, solid⟩
    refine ⟨l, member, ?_, rfl⟩
    rw [← Bool.not_eq_true, ← trim_eq_nil_iff]
    exact solid
  · rintro ⟨l, member, solid, rfl⟩
    refine ⟨⟨l, member, rfl⟩, ?_⟩
    rw [ne_eq, trim_eq_nil_iff, solid]
    exact Bool.false_ne_true

theorem isCleanupNoise_iff {output : Text} : isCleanupNoise output = true ↔ OnlyNoise output := by
  unfold isCleanupNoise OnlyNoise
  simp only [Bool.and_eq_true, Bool.not_eq_true', List.isEmpty_eq_false_iff_exists_mem,
    List.all_eq_true, mem_spokenLines]
  constructor
  · rintro ⟨⟨-, l, member, solid, -⟩, noise⟩
    exact ⟨⟨l, member, solid⟩, fun l member solid => noise _ ⟨l, member, solid, rfl⟩⟩
  · rintro ⟨⟨l, member, solid⟩, noise⟩
    refine ⟨⟨_, l, member, solid, rfl⟩, ?_⟩
    rintro _ ⟨l, member, solid, rfl⟩
    exact noise l member solid

end Toolchain

namespace Executor

open Toolchain

theorem withoutNewline_drops (stdout : Text) : DropsBreak stdout (withoutNewline stdout) := by
  unfold withoutNewline
  cases both : before? "\r\n" stdout with
  | some rest => exact .inl (before?_eq_some_iff.mp both)
  | none =>
    have notBoth (rest : Text) : stdout ≠ rest ++ ['\r', '\n'] := by
      intro ends
      rw [before?_eq_some_iff.mpr ends] at both
      cases both
    cases feed : before? "\n" stdout with
    | some rest =>
      have shown : stdout = rest ++ ['\n'] := before?_eq_some_iff.mp feed
      refine .inr (.inl ⟨shown, ?_⟩)
      intro last
      obtain ⟨front, rfl⟩ := List.getLast?_eq_some_iff.mp last
      exact notBoth front (by simpa using shown)
    | none =>
      refine .inr (.inr ⟨rfl, ?_⟩)
      intro last
      obtain ⟨front, ends⟩ := List.getLast?_eq_some_iff.mp last
      have found : before? "\n" stdout = some front := before?_eq_some_iff.mpr ends
      rw [feed] at found
      cases found

/-- An answer that a program is run again for: the process failed, its errors are cleanup noise and
nothing else, and it printed nothing. -/
def Retryable : Except ExecutionError ProcessOutput → Prop
  | .error _ => False
  | .ok output => output.success = false ∧ OnlyNoise output.stderr ∧ blank output.stdout = true

/-- The result that an answer ends the attempts with. An error of the toolchain is the result. What
was printed is, without its last line break, if the process succeeded or failed with noise only.
Any other process failed. -/
def Decides : Except ExecutionError ProcessOutput → Except ExecutionError Text → Prop
  | .error error, result => result = .error error
  | .ok output, result =>
    (output.success = true ∨ OnlyNoise output.stderr ∧ blank output.stdout = false →
      ∃ value, DropsBreak output.stdout value ∧ result = .ok value) ∧
    (output.success = false ∧ ¬ OnlyNoise output.stderr →
      result = .error (.failed output.code output.stderr))

/-- **What the output of a process comes to.** -/
theorem read_cases (output : ProcessOutput) :
    output.success = true ∧ read output = .value (withoutNewline output.stdout) ∨
    output.success = false ∧ ¬ OnlyNoise output.stderr ∧
      read output = .failure (.failed output.code output.stderr) ∨
    output.success = false ∧ OnlyNoise output.stderr ∧ blank output.stdout = false ∧
      read output = .valueDespiteCleanup (withoutNewline output.stdout) ∨
    Retryable (.ok output) ∧ read output = .retry output.stderr := by
  unfold read Retryable
  simp only [← isCleanupNoise_iff]
  cases output.success
  · cases isCleanupNoise output.stderr <;> cases blank output.stdout <;> simp
  · simp

theorem decides_output {output : ProcessOutput}
    (printed : output.success = true ∨ OnlyNoise output.stderr ∧ blank output.stdout = false) :
    Decides (.ok output) (.ok (withoutNewline output.stdout)) := by
  constructor
  · intro _
    exact ⟨_, withoutNewline_drops output.stdout, rfl⟩
  · rintro ⟨failed, loud⟩
    obtain succeeded | ⟨noise, -⟩ := printed
    · rw [succeeded] at failed
      cases failed
    · exact absurd noise loud

theorem decides_failed {output : ProcessOutput} (failed : output.success = false)
    (loud : ¬ OnlyNoise output.stderr) :
    Decides (.ok output) (.error (.failed output.code output.stderr)) := by
  constructor
  · rintro (succeeded | ⟨noise, -⟩)
    · rw [succeeded] at failed
      cases failed
    · exact absurd noise loud
  · intro _
    rfl

/-! ## The loop -/

section

variable (toolchain : Toolchain σ) (program : Program)

/-- The answer to starting a program after it was started some times from a state. -/
def answerAt (tool : σ) (n : Nat) : Except ExecutionError ProcessOutput :=
  (toolchain.run program ((fun s => (toolchain.run program s).2)^[n] tool)).1

theorem answerAt_succ (tool : σ) (n : Nat) :
    answerAt toolchain program tool (n + 1) =
      answerAt toolchain program (toolchain.run program tool).2 n := rfl

/-- The executor after one process. -/
def afterOne (e : Executor σ) : Executor σ :=
  { e with runs := e.runs + 1, tool := (toolchain.run program e.tool).2 }

@[simp] theorem runs_afterOne (e : Executor σ) :
    (e.afterOne toolchain program).runs = e.runs + 1 := rfl

/-- An answer of another kind ends the loop. -/
theorem runProgram_of_not_retryable (done retries : Nat) (e : Executor σ)
    (other : ¬ Retryable (answerAt toolchain program e.tool 0)) :
    let ran := e.runProgram toolchain program done retries
    ran.2 = e.afterOne toolchain program ∧
      Decides (answerAt toolchain program e.tool 0) ran.1.result := by
  have first : answerAt toolchain program e.tool 0 = (toolchain.run program e.tool).1 := rfl
  rw [first] at other ⊢
  unfold runProgram
  cases answer : (toolchain.run program e.tool).1 with
  | error error =>
    simp only [answer]
    exact ⟨rfl, rfl⟩
  | ok output =>
    rw [answer] at other
    obtain ⟨succeeded, reading⟩ | ⟨failed, loud, reading⟩ | ⟨-, noise, printed, reading⟩ |
      ⟨retryable, -⟩ := read_cases output
    · simp only [answer, reading]
      exact ⟨rfl, decides_output (.inl succeeded)⟩
    · simp only [answer, reading]
      exact ⟨rfl, decides_failed failed loud⟩
    · simp only [answer, reading]
      exact ⟨rfl, decides_output (.inr ⟨noise, printed⟩)⟩
    · exact absurd retryable other

theorem exists_of_retryable {answer : Except ExecutionError ProcessOutput} (h : Retryable answer) :
    ∃ output, answer = .ok output ∧ read output = .retry output.stderr := by
  cases answer with
  | error error => exact h.elim
  | ok output =>
    refine ⟨output, rfl, ?_⟩
    obtain ⟨succeeded, -⟩ | ⟨-, loud, -⟩ | ⟨-, -, printed, -⟩ | ⟨-, reading⟩ := read_cases output
    · rw [h.1] at succeeded
      cases succeeded
    · exact absurd h.2.1 loud
    · rw [h.2.2] at printed
      cases printed
    · exact reading

/-- After an answer that asks for it, the loop goes on with one retry less. -/
theorem runProgram_of_retryable (done retries : Nat) (e : Executor σ)
    (again : Retryable (answerAt toolchain program e.tool 0)) :
    let ran := e.runProgram toolchain program done (retries + 1)
    let later := (e.afterOne toolchain program).runProgram toolchain program (done + 1) retries
    ran.1.result = later.1.result ∧ ran.2 = later.2 := by
  obtain ⟨output, answer, reading⟩ := exists_of_retryable again
  have first : (toolchain.run program e.tool).1 = .ok output := answer
  intro ran later
  simp only [ran]
  rw [runProgram]
  simp only [first, reading]
  exact ⟨rfl, rfl⟩

/-- **A run that is decided.** The first answer that does not ask for another attempt gives the
result, and no process is started after it. -/
theorem runProgram_decided (n done retries : Nat) (e : Executor σ) (bounded : n ≤ retries)
    (before : ∀ i < n, Retryable (answerAt toolchain program e.tool i))
    (other : ¬ Retryable (answerAt toolchain program e.tool n)) :
    let ran := e.runProgram toolchain program done retries
    ran.2.runs = e.runs + (n + 1) ∧
      Decides (answerAt toolchain program e.tool n) ran.1.result := by
  induction n generalizing done retries e with
  | zero =>
    obtain ⟨left, decided⟩ := runProgram_of_not_retryable toolchain program done retries e other
    exact ⟨congrArg runs left, decided⟩
  | succ n ih =>
    cases retries with
    | zero => omega
    | succ retries =>
      have first : Retryable (answerAt toolchain program e.tool 0) := before 0 (by omega)
      obtain ⟨same, left⟩ := runProgram_of_retryable toolchain program done retries e first
      obtain ⟨counted, decided⟩ := ih (done + 1) retries (e.afterOne toolchain program) (by omega)
        (fun i below => before (i + 1) (by omega)) other
      dsimp only at same left ⊢
      rw [same, left]
      refine ⟨?_, decided⟩
      rw [counted, runs_afterOne]
      omega

/-- **A run that uses up its retries.** Where every answer asks for another attempt, the last one
is reported. -/
theorem runProgram_exhausted (done retries : Nat) (e : Executor σ)
    (all : ∀ i ≤ retries, Retryable (answerAt toolchain program e.tool i)) :
    let ran := e.runProgram toolchain program done retries
    ran.2.runs = e.runs + (retries + 1) ∧
      ∃ output, answerAt toolchain program e.tool retries = .ok output ∧
        ran.1.result = .error (.cleanupFailed (done + retries + 1) output.stderr) := by
  induction retries generalizing done e with
  | zero =>
    obtain ⟨output, answer, reading⟩ := exists_of_retryable (all 0 (Nat.le_refl 0))
    have first : (toolchain.run program e.tool).1 = .ok output := answer
    rw [runProgram]
    simp only [first, reading]
    exact ⟨trivial, output, answer, rfl⟩
  | succ retries ih =>
    obtain ⟨same, left⟩ := runProgram_of_retryable toolchain program done retries e
      (all 0 (by omega))
    obtain ⟨counted, output, answer, result⟩ := ih (done + 1) (e.afterOne toolchain program)
      (fun i bounded => all (i + 1) (by omega))
    dsimp only at same left ⊢
    rw [same, left]
    refine ⟨?_, output, answer, ?_⟩
    · rw [counted, runs_afterOne]
      omega
    · rw [result, Nat.add_assoc done 1 retries, Nat.add_comm 1 retries]

end

/-! ## Programs whose value is not remembered -/

section

variable (toolchain : Toolchain σ) (retries : Nat) (program : Program) (key : MemoKey)

theorem execute_of_fresh {e : Executor σ} (fresh : e.memo.find? key = none)
    (writable : e.workspace ≠ .missing) :
    let written : Executor σ := { e with workspace := .holding (some program.source) }
    let ran := written.runProgram toolchain program 0 retries
    (e.execute toolchain retries program key).1.result = ran.1.result ∧
      (e.execute toolchain retries program key).2.runs = ran.2.runs := by
  intro written ran
  cases directory : e.workspace with
  | missing => exact absurd directory writable
  | holding present =>
    cases result : ran.1.result <;>
      simp only [ran, written] at result ⊢ <;>
      simp only [execute, fresh, directory, result, and_self]

/-- The executor of a toolchain that writes down what it is asked from now on. -/
def recording (e : Executor σ) : Executor (σ × List Query) :=
  ⟨e.memo, e.runs, e.workspace, e.tool, []⟩

/-- What the toolchain is asked when a program is executed, in order. -/
def processes (e : Executor σ) : List Query :=
  (e.recording.execute toolchain.recording retries program key).2.tool.2

theorem processes_of_runs {e : Executor σ} {n : Nat}
    (counted : (e.execute toolchain retries program key).2.runs = e.runs + n) :
    e.processes toolchain retries program key = List.replicate n (.run program) := by
  obtain ⟨same, k, -, -, runs, asked⟩ := perform_recording toolchain retries e.recording
    ⟨e.workspace, program, key⟩
  have recorded : (e.execute toolchain retries program key).2.runs =
      (e.recording.execute toolchain.recording retries program key).2.runs :=
    congrArg (fun done : Outcome × Executor σ => done.2.runs) same
  have started : n = k := Nat.add_left_cancel (counted.symm.trans (recorded.trans runs))
  rw [started]
  exact asked

/-- **The attempts at a program** whose value is not remembered and that can be written, for any
sequence of answers. Where an answer within the retries does not ask for another attempt, the first
such answer is the last: as many processes are started, and it gives the result. Where every answer
asks for another attempt, there is one process more than there are retries, and the result is the
failure of the last cleanup. -/
theorem attempts_decided (e : Executor σ) (answers : Nat → Except ExecutionError ProcessOutput)
    (given : ∀ n, answerAt toolchain program e.tool n = answers n)
    (fresh : e.memo.find? key = none) (writable : e.workspace ≠ .missing) :
    let done := e.execute toolchain retries program key
    let started := e.processes toolchain retries program key
    (∀ n ≤ retries, (∀ i < n, Retryable (answers i)) → ¬ Retryable (answers n) →
      started = List.replicate (n + 1) (.run program) ∧ done.2.runs = e.runs + (n + 1) ∧
      Decides (answers n) done.1.result) ∧
    ((∀ i ≤ retries, Retryable (answers i)) →
      started = List.replicate (retries + 1) (.run program) ∧
      done.2.runs = e.runs + (retries + 1) ∧ ∃ output, answers retries = .ok output ∧
        done.1.result = .error (.cleanupFailed (retries + 1) output.stderr)) := by
  intro done started
  obtain rfl : answerAt toolchain program e.tool = answers := funext given
  obtain ⟨result, runs⟩ := execute_of_fresh toolchain retries program key fresh writable
  constructor
  · intro n bounded before other
    obtain ⟨counted, decided⟩ := runProgram_decided toolchain program n 0 retries
      { e with workspace := .holding (some program.source) } bounded before other
    have counted := runs.trans counted
    refine ⟨processes_of_runs toolchain retries program key counted, counted, ?_⟩
    rw [result]
    exact decided
  · intro all
    obtain ⟨counted, output, last, failed⟩ := runProgram_exhausted toolchain program 0 retries
      { e with workspace := .holding (some program.source) } all
    have counted := runs.trans counted
    refine ⟨processes_of_runs toolchain retries program key counted, counted, output, last, ?_⟩
    rw [result, failed, Nat.zero_add]

end

/-- A toolchain that gives the answers of a sequence one after another, whatever it is to run. -/
def scripted (answers : Nat → Except ExecutionError ProcessOutput) : Toolchain Nat where
  run _ next := (answers next, next + 1)
  package _ next := (.ok none, next)

/-- Every sequence of answers is given by a toolchain. -/
theorem answerAt_scripted (answers : Nat → Except ExecutionError ProcessOutput)
    (program : Program) (first n : Nat) :
    answerAt (scripted answers) program first n = answers (first + n) := by
  induction n generalizing first with
  | zero => rfl
  | succ n ih =>
    rw [answerAt_succ, ih, Nat.add_comm n 1, ← Nat.add_assoc]
    rfl

/-- The first process printed nothing but blanks and the second a value, and both failed at the
cleanup only: with one retry there are two processes, and the value is the result. -/
theorem value_at_last_attempt :
    let noise := "\ngo: unlinkat /tmp/go-build1/b001/main.exe: Access is denied.\n".toList
    let answers : Nat → Except ExecutionError ProcessOutput := fun n =>
      .ok ⟨false, some 1, if n = 0 then " \n".toList else "8080\r\n".toList, noise⟩
    let e := Executor.start 0
    let program : Program := ⟨"package main".toList, "Port()".toList⟩
    let key : MemoKey := ⟨"ports.go#Port@0".toList, []⟩
    Retryable (answers 0) ∧ ¬ Retryable (answers 1) ∧
      e.processes (scripted answers) 1 program key = [.run program, .run program] ∧
      Decides (answers 1) (e.execute (scripted answers) 1 program key).1.result := by
  intro noise answers e program key
  have spoken : OnlyNoise noise := isCleanupNoise_iff.mp (by decide +kernel)
  have again : Retryable (answers 0) := ⟨rfl, spoken, by decide⟩
  have other : ¬ Retryable (answers 1) := fun retryable => absurd retryable.2.2 (by decide)
  have given (n : Nat) : answerAt (scripted answers) program e.tool n = answers n := by
    rw [answerAt_scripted]
    exact congrArg answers (Nat.zero_add n)
  obtain ⟨decided, -⟩ := attempts_decided (scripted answers) 1 program key e answers given rfl
    (by decide)
  obtain ⟨started, -, result⟩ := decided 1 (by decide)
    (fun i below => by
      obtain rfl : i = 0 := by omega
      exact again)
    other
  exact ⟨again, other, started, result⟩

end Executor

end Prefill
