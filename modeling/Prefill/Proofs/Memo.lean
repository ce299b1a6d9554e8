import Prefill.Evaluation
import Mathlib.Data.List.Induction

/-!
Where remembered values come from. Running a program leaves the values alone, and a value is entered
under the key of the placeholder that it was found for.

* `answer_memo`: what the evaluation of one placeholder enters;
* `exists_answered_of_mem_memo`: every value of a run was the answer to a placeholder before.
-/

namespace Prefill

open Text

variable {σ : Type}

namespace Executor

/-- Running a program leaves the values and the directory alone. -/
theorem runProgram_frame (toolchain : Toolchain σ) (program : Program) (done retries : Nat)
    (e : Executor σ) :
    (runProgram toolchain program done retries e).2.memo = e.memo ∧
      (runProgram toolchain program done retries e).2.workspace = e.workspace := by
  induction retries generalizing done e with
  | zero =>
    unfold runProgram
    dsimp only
    repeat' split
    all_goals exact ⟨rfl, rfl⟩
  | succ retries ih =>
    unfold runProgram
    dsimp only
    repeat' split
    case h_4 => exact ih ..
    all_goals exact ⟨rfl, rfl⟩

/-- **What can become of a program**: its value is remembered, it cannot be written, or it is
run. -/
theorem execute_cases (toolchain : Toolchain σ) (retries : Nat) (program : Program) (key : MemoKey)
    (e : Executor σ) :
    let done := e.execute toolchain retries program key
    let written : Executor σ := { e with workspace := .holding (some program.source) }
    let ran := written.runProgram toolchain program 0 retries
    (∃ value, e.memo.find? key = some value ∧ done.1.result = .ok value ∧ done.2 = e) ∨
    (e.memo.find? key = none ∧ e.workspace = .missing ∧
      (∃ error, done.1.result = .error error) ∧ done.2 = e) ∨
    (e.memo.find? key = none ∧ e.workspace ≠ .missing ∧
      ((∃ value, done.1.result = .ok value ∧
          done.2 = { ran.2 with memo := e.memo ++ [(key, value)] }) ∨
        ∃ error, done.1.result = .error error ∧ done.2 = ran.2)) := by
  intro done written ran
  cases found : e.memo.find? key with
  | some value =>
    refine .inl ⟨value, rfl, ?_, ?_⟩ <;> simp [done, execute, found]
  | none =>
    cases directory : e.workspace with
    | missing =>
      refine .inr (.inl ⟨rfl, rfl, ⟨.notWritten "No such file or directory (os error 2)", ?_⟩, ?_⟩)
      all_goals simp [done, execute, found, directory]
    | holding present =>
      have kept : ran.2.memo = e.memo := (runProgram_frame ..).1
      refine .inr (.inr ⟨rfl, by simp, ?_⟩)
      cases result : ran.1.result with
      | ok value =>
        have entered : done = (ran.1, { ran.2 with memo := ran.2.memo ++ [(key, value)] }) := by
          simp only [done, ran, written] at result ⊢
          simp only [execute, found, directory, result]
        rw [kept] at entered
        exact .inl ⟨value, entered ▸ result, entered ▸ rfl⟩
      | error error =>
        have left : done = (ran.1, ran.2) := by
          simp only [done, ran, written] at result ⊢
          simp only [execute, found, directory, result]
        exact .inr ⟨error, left ▸ result, left ▸ rfl⟩

theorem execute_memo (toolchain : Toolchain σ) (retries : Nat) (program : Program) (key : MemoKey)
    (e : Executor σ) :
    (e.execute toolchain retries program key).2.memo = e.memo ∨
      ∃ value, (e.execute toolchain retries program key).1.result = .ok value ∧
        (e.execute toolchain retries program key).2.memo = e.memo ++ [(key, value)] := by
  obtain ⟨-, -, -, same⟩ | ⟨-, -, -, same⟩ | ⟨-, -, ⟨value, result, entered⟩ | ⟨-, -, ran⟩⟩ :=
    execute_cases toolchain retries program key e
  · exact .inl (congrArg memo same)
  · exact .inl (congrArg memo same)
  · exact .inr ⟨value, result, congrArg memo entered⟩
  · rw [ran]
    exact .inl (runProgram_frame ..).1

end Executor

namespace Evaluation

/-- A placeholder that a file at some depth has. -/
structure Request where
  placeholder : Placeholder
  depth : Nat

namespace Request

/-- What the placeholder calls. -/
def Calls (project : Project) (toolchain : Toolchain σ) (request : Request) (session : Session σ)
    (target : Target) : Prop :=
  (project.resolve toolchain request.placeholder.name request.depth session.packages
    session.executor.tool).target = .ok target

/-- What the value is remembered under when the placeholder calls the target. -/
def key (request : Request) (target : Target) : MemoKey :=
  memoKey target request.depth (argumentsFor target request.placeholder.arguments)

end Request

section

variable (project : Project) (toolchain : Toolchain σ) (config : Config)

/-- The answer to a placeholder, and the session after it. -/
def answer (request : Request) (session : Session σ) : Answer × Session σ :=
  evaluator project toolchain config request.placeholder request.depth session

/-- The session after some placeholders. -/
def sessionAfter (tool : σ) (requests : List Request) : Session σ :=
  requests.foldl (fun session request => (answer project toolchain config request session).2)
    (.start tool)

/-- A placeholder of a run called a target, and the answer was the value of an output. -/
structure Answered (tool : σ) (requests before : List Request) (request : Request)
    (target : Target) (output : Text) : Prop where
  earlier : before ++ [request] <+: requests
  calls : request.Calls project toolchain (sessionAfter project toolchain config tool before) target
  value : (answer project toolchain config request
    (sessionAfter project toolchain config tool before)).1.value = .ok (ofOutput target output)

theorem call_memo (retries : Nat) (target : Target) (depth : Nat) (arguments : List Text)
    (e : Executor σ) :
    (call project toolchain retries target depth arguments e).2.memo = e.memo ∨
      ∃ output, (call project toolchain retries target depth arguments e).1.value =
          .ok (ofOutput target output) ∧
        (call project toolchain retries target depth arguments e).2.memo =
          e.memo ++ [(memoKey target depth arguments, output)] := by
  unfold call
  dsimp only
  split
  · exact .inl rfl
  · obtain same | ⟨value, result, entered⟩ := Executor.execute_memo toolchain retries
      (Program.synthesize project target depth arguments).1 (memoKey target depth arguments) e
    · exact .inl same
    · exact .inr ⟨value, by rw [result], entered⟩

/-- A placeholder enters at most one value: its answer, under its key. -/
theorem answer_memo (request : Request) (session : Session σ) :
    (answer project toolchain config request session).2.executor.memo = session.executor.memo ∨
      ∃ target output, request.Calls project toolchain session target ∧
        (answer project toolchain config request session).1.value =
          .ok (ofOutput target output) ∧
        (answer project toolchain config request session).2.executor.memo =
          session.executor.memo ++ [(request.key target, output)] := by
  unfold answer evaluator
  dsimp only
  split
  · exact .inl rfl
  · rename_i target resolved
    split
    · exact .inl rfl
    · obtain same | ⟨output, value, entered⟩ := call_memo project toolchain config.maxRetries target
        request.depth (argumentsFor target request.placeholder.arguments) _
      · exact .inl same
      · exact .inr ⟨target, output, resolved, value, entered⟩

/-- **Every remembered value has been an answer.** -/
theorem exists_answered_of_mem_memo {tool : σ} {requests : List Request} {key : MemoKey}
    {output : Text}
    (h : (key, output) ∈ (sessionAfter project toolchain config tool requests).executor.memo) :
    ∃ before request target,
      Answered project toolchain config tool requests before request target output ∧
      key = request.key target := by
  induction requests using List.reverseRecOn with
  | nil => cases h
  | append_singleton requests last ih =>
    rw [sessionAfter, List.foldl_append] at h
    have old (h : (key, output) ∈
        (sessionAfter project toolchain config tool requests).executor.memo) :
        ∃ before request target,
          Answered project toolchain config tool (requests ++ [last]) before request target output ∧
          key = request.key target := by
      obtain ⟨before, request, target, ⟨earlier, calls, value⟩, keyed⟩ := ih h
      exact ⟨before, request, target, ⟨earlier.trans (List.prefix_append ..), calls, value⟩, keyed⟩
    obtain same | ⟨target, value, calls, answered, entered⟩ :=
      answer_memo project toolchain config last
        (sessionAfter project toolchain config tool requests)
    · exact old (same ▸ h)
    · obtain before | last := List.mem_append.mp (entered ▸ h)
      · exact old before
      · obtain ⟨rfl, rfl⟩ := Prod.mk.inj (List.mem_singleton.mp last)
        exact ⟨requests, _, target, ⟨List.prefix_rfl, calls, answered⟩, rfl⟩

end

end Evaluation

end Prefill
