import Prefill.Text.Line

/-!
Cleanup noise. The toolchain may fail to delete its own build directory after the program ran well;
it then prints nothing but lines of a few known forms.
-/

namespace Prefill.Toolchain

open Text

/-- A character without its case. Two characters above ASCII fold to ASCII letters. -/
def foldCase (c : Char) : Char :=
  if c = 'ſ' then 's' else if c = 'K' then 'k' else c.toLower

/-- The operations whose failure is reported with the name of what they failed on. -/
def cleanupVerbs : List String := ["unlinkat", "remove", "removeall", "rename", "open"]

/-- Why a file could not be deleted. -/
def cleanupReasons : List String :=
  ["being used by another process", "access is denied", "permission denied",
   "directory not empty", "resource busy"]

/-- The reasons that a removal error may give. -/
def removalReasons : List String := ["being used by another process", "access is denied"]

def mentions (reasons : List String) (text : Text) : Bool :=
  reasons.any fun reason => occurs reason.toList text

/-- `go: VERB ... REASON` -/
def isFailedOperation (line : Text) : Bool :=
  match after? "go: " line with
  | none => false
  | some rest =>
    cleanupVerbs.any fun verb =>
      match (after? verb rest).bind (after? " ") with
      | some what => mentions cleanupReasons what
      | none => false

/-- `go: failed to remove` or `clean up` a work, temporary or build directory. -/
def isFailedCleanup (line : Text) : Bool :=
  match after? "go: failed to " line with
  | none => false
  | some rest =>
    match (after? "remove " rest).or (after? "clean up " rest) with
    | none => false
    | some what => ["work dir", "temporary", "build"].any fun lead => startsWith lead what

/-- `error removing ... REASON`, perhaps as a warning. -/
def isRemovalError (line : Text) : Bool :=
  match after? "error removing " ((after? "warning: " line).getD line) with
  | some what => mentions removalReasons what
  | none => false

/-- One line of cleanup noise, in any case. -/
def isNoiseLine (line : Text) : Bool :=
  let line := line.map foldCase
  isFailedOperation line || isFailedCleanup line || isRemovalError line

/-- The lines of an output that say something, trimmed. -/
def spokenLines (output : Text) : List Text :=
  ((lines output).map fun line => trim line.body).filter fun line => !line.isEmpty

/-- Whether an output says something and all of it is cleanup noise. -/
def isCleanupNoise (output : Text) : Bool :=
  let spoken := spokenLines output
  !spoken.isEmpty && spoken.all isNoiseLine

end Prefill.Toolchain
