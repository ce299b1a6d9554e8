import Prefill.Text.Basic

/-!
The toolchain that runs generated programs. It is a value with a state: what it answers may depend on
what it was asked before.
-/

namespace Prefill

open Text

/-- A generated program. -/
structure Program where
  source : Text
  /-- The call that it prints the result of. -/
  call : Text
  deriving DecidableEq, Repr

/-- What a process left behind; it has no code when a signal ended it. -/
structure ProcessOutput where
  success : Bool
  code : Option Int
  stdout : Text
  stderr : Text
  deriving DecidableEq, Repr

/-- What the Go tool is needed for. -/
inductive Purpose where
  | runHelpers
  | resolvePackages
  deriving DecidableEq, Repr

def Purpose.describe : Purpose → String
  | .runHelpers => "run helper functions"
  | .resolvePackages => "resolve package names"

/-- Why a program gave no value. -/
inductive ExecutionError where
  | toolMissing (tool : Text) (purpose : Purpose) (cause : String)
  | failed (code : Option Int) (stderr : Text)
  | cleanupFailed (attempts : Nat) (stderr : Text)
  | notWritten (cause : String)
  deriving DecidableEq, Repr

def ExecutionError.message : ExecutionError → String
  | .toolMissing tool purpose cause =>
    s!"`{str tool}` is needed to {purpose.describe} but could not be started ({cause}); " ++
      "install Go or set go_binary in goahead.yaml"
  | .failed code stderr =>
    let status := match code with
      | some code => s!" (exit status {code})"
      | none => ""
    s!"helper failed{status}: {str (trim stderr)}"
  | .cleanupFailed attempts stderr =>
    s!"helper kept failing on build cleanup after {attempts} attempts: {str (trim stderr)}"
  | .notWritten cause => s!"cannot write driver: {cause}"

/-- Runs programs and finds packages. A package may be unknown without an error. -/
structure Toolchain (σ : Type) where
  run : Program → σ → Except ExecutionError ProcessOutput × σ
  package : Text → σ → Except ExecutionError (Option Text) × σ

end Prefill
