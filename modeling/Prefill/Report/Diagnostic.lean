import Prefill.Text.Quoted

/-!
Diagnostics and the journal. What happens during a run is a list of events in order; the
diagnostics of its report are some of them, and the debug output shows all of them.
-/

namespace Prefill

inductive Severity where
  | error
  | warning
  deriving DecidableEq, Repr

def Severity.name : Severity → String
  | .error => "error"
  | .warning => "warning"

/-- A finding about a file. The file is empty when there is none, and line 0 names no line. -/
structure Diagnostic where
  severity : Severity
  message : String
  file : String
  line : Nat
  sourceLine : Option Text
  deriving DecidableEq, Repr

namespace Diagnostic

/-- The word every line of output starts with. -/
def tag : String := "[goahead]"

/-- Where a diagnostic points: the file, and its line when it has one. -/
def position (d : Diagnostic) : String :=
  if d.file.isEmpty then ""
  else if d.line = 0 then s!"{d.file}: "
  else s!"{d.file}:{d.line}: "

/-- The diagnostic as one line, with the source line it is about underneath. -/
def render (d : Diagnostic) : String :=
  let source := match d.sourceLine with
    | some line => "\n    | " ++ Text.str (Text.trimEnd line)
    | none => ""
  s!"{tag} {d.severity.name}: {d.position}{d.message}{source}"

end Diagnostic

/-- One thing that happened during a run. -/
inductive Event where
  /-- Shown in debug output only. -/
  | note (text : String)
  | diagnostic (d : Diagnostic)
  deriving DecidableEq, Repr

namespace Event

def warning (file : String) (line : Nat) (message : String) (sourceLine : Option Text) : Event :=
  .diagnostic ⟨.warning, message, file, line, sourceLine⟩

def error (file : String) (line : Nat) (message : String) (sourceLine : Option Text) : Event :=
  .diagnostic ⟨.error, message, file, line, sourceLine⟩

def diagnostic? : Event → Option Diagnostic
  | .note _ => none
  | .diagnostic d => some d

/-- The event as a line of debug output. -/
def debugLine (event : Event) : String :=
  let text := match event with
    | .note text => text
    | .diagnostic d => d.render
  s!"{Diagnostic.tag} [debug] {text}"

end Event

/-- The diagnostics among events, in order. -/
def diagnosticsOf (events : List Event) : List Diagnostic := events.filterMap Event.diagnostic?

theorem diagnosticsOf_append (front back : List Event) :
    diagnosticsOf (front ++ back) = diagnosticsOf front ++ diagnosticsOf back :=
  List.filterMap_append

end Prefill
