import Prefill.Toolchain.Basic
import Prefill.Toolchain.Noise

/-!
Running programs. A program is run again when the toolchain failed at nothing but the cleanup after
it and the program printed nothing. A value is remembered for the rest of the run; a failure is not.
-/

namespace Prefill

open Text

/-- What a value is remembered under: the callee and the arguments written in Go. -/
structure MemoKey where
  target : Text
  arguments : List Text
  deriving DecidableEq, Repr

/-- The values found so far. -/
abbrev Memo := List (MemoKey × Text)

def Memo.find? (memo : Memo) (key : MemoKey) : Option Text :=
  (List.find? (fun entry => entry.1 = key) memo).map (·.2)

/-- The directory that programs are written into. -/
inductive Workspace where
  | missing
  | holding (program : Option Text)
  deriving DecidableEq, Repr

/-- The program in the directory. -/
def Workspace.program? : Workspace → Option Text
  | .missing => none
  | .holding program => program

/-- What running programs changes: the values found, the number of processes started, the directory
and the state of the toolchain. -/
structure Executor (σ : Type) where
  memo : Memo
  runs : Nat
  workspace : Workspace
  tool : σ

namespace Executor

def start {σ : Type} (tool : σ) : Executor σ := ⟨[], 0, .holding none, tool⟩

/-- Output without the line break at its end. -/
def withoutNewline (stdout : Text) : Text :=
  ((before? "\r\n" stdout).or (before? "\n" stdout)).getD stdout

/-- What the output of a process comes to. -/
inductive Reading where
  | value (output : Text)
  /-- The program printed a value and only the cleanup failed. -/
  | valueDespiteCleanup (output : Text)
  | failure (error : ExecutionError)
  /-- Only the cleanup failed, and the program printed nothing. -/
  | retry (stderr : Text)
  deriving DecidableEq, Repr

def read (output : ProcessOutput) : Reading :=
  if output.success then .value (withoutNewline output.stdout)
  else if !Toolchain.isCleanupNoise output.stderr then .failure (.failed output.code output.stderr)
  else if !blank output.stdout then .valueDespiteCleanup (withoutNewline output.stdout)
  else .retry output.stderr

/-- The result of running a program, and the notes on the way. -/
structure Outcome where
  result : Except ExecutionError Text
  notes : List String

/-- Runs a program, and again as long as `retries` are left; `done` attempts came before. -/
def runProgram {σ : Type} (toolchain : Toolchain σ) (program : Program) (done : Nat) :
    (retries : Nat) → Executor σ → Outcome × Executor σ
  | retries, e =>
    let attempt := done + 1
    let started := s!"running {str program.call} (attempt {attempt})"
    let (answer, tool) := toolchain.run program e.tool
    let e := { e with runs := e.runs + 1, tool }
    match answer with
    | .error error => (⟨.error error, [started]⟩, e)
    | .ok output =>
      match read output with
      | .value value => (⟨.ok value, [started]⟩, e)
      | .valueDespiteCleanup value =>
        (⟨.ok value, [started, s!"ignoring cleanup error for {str program.call}"]⟩, e)
      | .failure error => (⟨.error error, [started]⟩, e)
      | .retry stderr =>
        match retries with
        | 0 => (⟨.error (.cleanupFailed attempt stderr), [started]⟩, e)
        | retries + 1 =>
          let (outcome, e) := runProgram toolchain program attempt retries e
          (⟨outcome.result, started :: outcome.notes⟩, e)

/-- The value of a program: the one remembered under its key, or else what it prints. -/
def execute {σ : Type} (toolchain : Toolchain σ) (retries : Nat) (program : Program) (key : MemoKey)
    (e : Executor σ) : Outcome × Executor σ :=
  match e.memo.find? key with
  | some value => (⟨.ok value, [s!"cached result for {str program.call}"]⟩, e)
  | none =>
    match e.workspace with
    | .missing => (⟨.error (.notWritten "No such file or directory (os error 2)"), []⟩, e)
    | .holding _ =>
      let e := { e with workspace := .holding (some program.source) }
      let (outcome, e) := runProgram toolchain program 0 retries e
      match outcome.result with
      | .ok value => (outcome, { e with memo := e.memo ++ [(key, value)] })
      | .error _ => (outcome, e)

end Executor

end Prefill
