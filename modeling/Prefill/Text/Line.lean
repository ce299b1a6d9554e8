import Prefill.Text.Basic

/-!
Lines. A line keeps the ending it was written with, so a file is the concatenation of its lines.
-/

namespace Prefill

/-- A line without its ending, and the ending: a line feed, a carriage return and a line feed, or
nothing on a last line that is not terminated. -/
structure Line where
  body : Text
  ending : Text
  deriving DecidableEq, Repr

namespace Line

/-- The line as it stands in the file. -/
def raw (line : Line) : Text := line.body ++ line.ending

/-- Splits the ending off. A carriage return that no line feed follows belongs to the line. -/
def ofRaw : Text → Line
  | [] => ⟨[], []⟩
  | ['\n'] => ⟨[], ['\n']⟩
  | ['\r', '\n'] => ⟨[], ['\r', '\n']⟩
  | c :: rest =>
    let line := ofRaw rest
    ⟨c :: line.body, line.ending⟩

end Line

namespace Text

/-- The pieces of a text that each end with a line feed, the last one perhaps not. -/
def rawLines : Text → List Text
  | [] => []
  | c :: rest =>
    if c = '\n' then [c] :: rawLines rest
    else
      match rawLines rest with
      | [] => [[c]]
      | line :: more => (c :: line) :: more

/-- The lines of a text, each with its ending. -/
def lines (text : Text) : List Line := (rawLines text).map Line.ofRaw

end Text

end Prefill
