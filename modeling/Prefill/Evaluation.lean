import Prefill.Execution
import Prefill.Fill
import Prefill.Program

/-! The value of a placeholder in a project: find what it calls, write a program, run it. -/

namespace Prefill

open Text

/-- What evaluation changes: what is known of packages, and what running programs changes. -/
structure Session (σ : Type) where
  packages : PackageTable
  executor : Executor σ

namespace Session

def start {σ : Type} (tool : σ) : Session σ := ⟨[], .start tool⟩

end Session

namespace Evaluation

/-- What is said of a call with the wrong number of arguments. -/
def countMismatch (symbol : Symbol) (count : Nat) : String :=
  let expected := symbol.signature.parameters.length
  let plural := if expected = 1 then "" else "s"
  let types := str (joinWith ", " symbol.signature.parameterTypes)
  s!"{str symbol.name} takes {expected} argument{plural} ({types}), placeholder passes {count}"

/-- Why a target cannot be called with so many arguments. -/
def mismatch? (target : Target) (count : Nat) : Option String :=
  match target with
  | .helper symbol =>
    if symbol.signature.accepts count then none else some (countMismatch symbol count)
  | _ => none

/-- The arguments as they are written in Go for a target. -/
def argumentsFor (target : Target) (arguments : List Argument) : List Text :=
  arguments.zipIdx.map fun (argument, i) => argument.toGo (target.typeAt? i)

/-- What a value is remembered under. One name may see other declarations at another depth, so the
depth counts. -/
def memoKey (target : Target) (depth : Nat) (arguments : List Text) : MemoKey :=
  ⟨target.identity ++ '@' :: (toString depth).toList, arguments⟩

/-- The value of an output for a target: the kind that its type says, or else the one that the
output looks like. -/
def ofOutput (target : Target) (output : Text) : Evaluation :=
  ⟨output, (LiteralKind.ofType? target.outputType).getD (LiteralKind.infer output)⟩

/-- The value of a call. -/
def call {σ : Type} (project : Project) (toolchain : Toolchain σ) (retries : Nat) (target : Target)
    (depth : Nat) (arguments : List Text) (e : Executor σ) : Answer × Executor σ :=
  let key := memoKey target depth arguments
  match e.memo.find? key with
  | some output => (⟨.ok (ofOutput target output), []⟩, e)
  | none =>
    let (program, notes) := Program.synthesize project target depth arguments
    let (outcome, e) := e.execute toolchain retries program key
    let value := match outcome.result with
      | .ok output => .ok (ofOutput target output)
      | .error error => .error s!"{str program.call}: {error.message}"
    (⟨value, notes ++ outcome.notes⟩, e)

/-- Evaluates the placeholders of a project. -/
def evaluator {σ : Type} (project : Project) (toolchain : Toolchain σ) (config : Config) :
    Evaluator (Session σ) := fun placeholder depth session =>
  let resolution :=
    project.resolve toolchain placeholder.name depth session.packages session.executor.tool
  let session : Session σ :=
    ⟨resolution.packages, { session.executor with tool := resolution.tool }⟩
  match resolution.target with
  | .error error => (⟨.error error.message, resolution.notes⟩, session)
  | .ok target =>
    match mismatch? target placeholder.arguments.length with
    | some reason => (⟨.error reason, resolution.notes⟩, session)
    | none =>
      let arguments := argumentsFor target placeholder.arguments
      let (answer, executor) :=
        call project toolchain config.maxRetries target depth arguments session.executor
      (⟨answer.value, resolution.notes ++ answer.notes⟩, { session with executor })

end Evaluation

end Prefill
