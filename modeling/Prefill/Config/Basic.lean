import Prefill.Glob
import Prefill.Text.Quoted

/-! Settings of a run. -/

namespace Prefill

structure Config where
  /-- The command that runs the Go tool. -/
  goBinary : Text := "go".toList
  /-- How often a program is run again when only the cleanup after it failed. -/
  maxRetries : Nat := 3
  /-- Milliseconds to wait before the first retry; the n-th waits n times as long. -/
  retryBackoff : Nat := 200
  /-- How many files may be probed at once. -/
  scanThreads : Nat := 8
  /-- Patterns for paths below the root of a project that are passed over. -/
  excludedPaths : List Text := []
  deriving DecidableEq, Repr

/-- A pattern that cannot be read. -/
structure BadPattern where
  pattern : Text
  fault : Glob.Fault
  deriving DecidableEq, Repr

def BadPattern.message (bad : BadPattern) : String :=
  "invalid excluded path pattern " ++ Text.quoted bad.pattern ++ ": error parsing glob '" ++
    Text.str bad.pattern ++ "': " ++ bad.fault.message

/-- Why settings make no sense. -/
inductive ConfigError where
  | emptyBinary
  | noThreads
  | badPattern (bad : BadPattern)
  deriving DecidableEq, Repr

def ConfigError.message : ConfigError → String
  | .emptyBinary => "go_binary must not be empty"
  | .noThreads => "scan_threads must be at least 1"
  | .badPattern bad => bad.message

namespace Config

/-- The patterns of excluded paths, up to the first that cannot be read. -/
def excluded (config : Config) : Except BadPattern (List Glob) :=
  config.excludedPaths.mapM fun pattern => (Glob.ofText pattern).mapError (BadPattern.mk pattern)

/-- Whether the settings make sense. -/
def validate (config : Config) : Except ConfigError Unit :=
  if Text.blank config.goBinary then .error .emptyBinary
  else if config.scanThreads = 0 then .error .noThreads
  else
    match config.excluded with
    | .ok _ => .ok ()
    | .error bad => .error (.badPattern bad)

end Config

end Prefill
