import Prefill.Argument
import Prefill.Marker
import Prefill.Patch
import Prefill.Report.Diagnostic

/-!
Filling in a file. A placeholder comment waits for the next line of code outside generated
regions: blank lines are passed over, another marker ends the wait with a warning, and any other
line is patched with the value of the placeholder. The comment stays, so a file can be filled again.

Every line of the file gives one `Outcome`, so the file keeps its lines and their endings unless a
result itself holds one.
-/

namespace Prefill

open Text

/-- A request for a value: the name, its arguments, and the line of the comment, counted from 1. -/
structure Placeholder where
  name : Text
  arguments : List Argument
  line : Nat
  deriving DecidableEq, Repr

/-- The value of a placeholder, as it was printed, and the kind of literal it is for. -/
structure Evaluation where
  output : Text
  kind : LiteralKind
  deriving DecidableEq, Repr

/-- What an evaluator says about a placeholder: the value or why there is none, and what it noted
on the way. -/
structure Answer where
  value : Except String Evaluation
  notes : List String

/-- Computes the value of a placeholder as seen from a directory depth. It may keep a state. -/
abbrev Evaluator (σ : Type) := Placeholder → Nat → σ → Answer × σ

namespace Fill

/-- Why a placeholder leaves its target alone. -/
inductive Warning where
  | notEvaluated (reason : String)
  | noLiteral (kind : LiteralKind)
  | followedByMarker
  | noTargetLine
  deriving DecidableEq, Repr

def Warning.message (name : Text) : Warning → String
  | .notEvaluated reason => reason
  | .noLiteral kind =>
    s!"no {kind.describe} literal or call to {str name} found on the line after placeholder " ++
      quoted name
  | .followedByMarker =>
    s!"placeholder {quoted name} is followed by another marker instead of code"
  | .noTargetLine => s!"placeholder {quoted name} has no target line"

/-- A placeholder that waits for its target, and the line of its comment. -/
structure Pending where
  placeholder : Placeholder
  comment : Text
  deriving DecidableEq, Repr

/-- A warning about a waiting placeholder, with the source line it is about. -/
def Pending.warn (pending : Pending) (file : String) (warning : Warning) (source : Text) : Event :=
  .warning file pending.placeholder.line (warning.message pending.placeholder.name) (some source)

/-- What the lines before the current one left behind. -/
structure State where
  inRegion : Bool
  pending : Option Pending
  deriving DecidableEq, Repr

def State.initial : State := ⟨false, none⟩

/-- What becomes of one line. -/
structure Outcome where
  text : Text
  replaced : Bool
  events : List Event

/-- A line that stays as it is. -/
def Outcome.kept (line : Line) (events : List Event) : Outcome := ⟨line.raw, false, events⟩

/-- Where a file stands: its name in messages and its directory depth. -/
structure Site where
  file : String
  depth : Nat

/-- Evaluates a waiting placeholder and patches its target. -/
def target {σ : Type} (evaluate : Evaluator σ) (site : Site) (pending : Pending) (line : Line)
    (s : σ) : Outcome × σ :=
  let (answer, s) := evaluate pending.placeholder site.depth s
  let notes := answer.notes.map Event.note
  match answer.value with
  | .error reason =>
    (.kept line (notes ++ [pending.warn site.file (.notEvaluated reason) pending.comment]), s)
  | .ok evaluation =>
    let name := pending.placeholder.name
    let result := Literal.ofOutput evaluation.output evaluation.kind
    match Patch.patchLine line.body name result evaluation.kind with
    | .replaced patched =>
      let note := s!"{site.file}:{pending.placeholder.line + 1}: {str name} -> {str result}"
      (⟨patched ++ line.ending, true, notes ++ [.note note]⟩, s)
    | .upToDate => (.kept line notes, s)
    | .noTarget =>
      (.kept line (notes ++ [pending.warn site.file (.noLiteral evaluation.kind) line.body]), s)

/-- What a line outside regions leaves behind when it is not a target. -/
def arm (number : Nat) (line : Line) (marker : Option Marker) : Option Pending :=
  match marker with
  | some (.placeholder name arguments) =>
    some ⟨⟨name, Argument.parse arguments, number⟩, line.body⟩
  | _ => none

/-- Handles the line with the given number. -/
def step {σ : Type} (evaluate : Evaluator σ) (site : Site) (number : Nat) (line : Line)
    (state : State) (s : σ) : Outcome × State × σ :=
  if state.inRegion then
    (.kept line [], { state with inRegion := !Marker.isRegionEnd line.body }, s)
  else if (Marker.regionBegin? line.body).isSome then
    (.kept line [], { state with inRegion := true }, s)
  else
    let marker := Marker.classify? line.body
    match state.pending with
    | none => (.kept line [], { state with pending := arm number line marker }, s)
    | some pending =>
      if blank line.body then (.kept line [], state, s)
      else if marker.isNone then
        let (outcome, s) := target evaluate site pending line s
        (outcome, { state with pending := none }, s)
      else
        (.kept line [pending.warn site.file .followedByMarker pending.comment],
          { state with pending := arm number line marker }, s)

/-- Handles lines from a number on. -/
def run {σ : Type} (evaluate : Evaluator σ) (site : Site) :
    Nat → List Line → State → σ → List Outcome × State × σ
  | _, [], state, s => ([], state, s)
  | number, line :: rest, state, s =>
    let (outcome, state, s) := step evaluate site number line state s
    let (more, state, s) := run evaluate site (number + 1) rest state s
    (outcome :: more, state, s)

/-- A placeholder that still waits at the end of the file. -/
def closing (site : Site) (state : State) : List Event :=
  match state.pending with
  | some pending => [pending.warn site.file .noTargetLine pending.comment]
  | none => []

/-- A filled file: its text, the number of lines that changed, and what happened. -/
structure Filled where
  text : Text
  replaced : Nat
  events : List Event

/-- Fills in every placeholder of a file. -/
def fill {σ : Type} (evaluate : Evaluator σ) (site : Site) (content : Text) (s : σ) : Filled × σ :=
  let (outcomes, state, s) := run evaluate site 1 (lines content) .initial s
  let filled : Filled :=
    { text := outcomes.flatMap Outcome.text
      replaced := outcomes.countP Outcome.replaced
      events := outcomes.flatMap Outcome.events ++ closing site state }
  (filled, s)

end Fill

end Prefill
