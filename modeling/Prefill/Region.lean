import Prefill.Marker

/-!
Generated regions: the lines from one that opens a region through the next one that closes it.
Stripping takes regions out of a file and splicing puts them in, each on the file's lines with their
endings. A region stands between two blank lines, so stripping also drops the blank lines after it.
-/

namespace Prefill

open Text

/-- A region that is never closed: the number of the line that opens it, and its method. -/
structure Unterminated where
  line : Nat
  method : Text
  deriving DecidableEq, Repr

namespace Region

/-- Where a line stands. -/
inductive Place where
  | outside
  /-- In a region that the given line opened. -/
  | inside (opened : Unterminated)
  /-- In the blank lines after a region. -/
  | behind
  deriving DecidableEq, Repr

/-- The lines that stay, from a line with the given number on. -/
def stripFrom : Place → (number : Nat) → List Text → Except Unterminated (List Text)
  | .inside opened, _, [] => .error opened
  | _, _, [] => .ok []
  | .inside opened, number, line :: rest =>
    stripFrom (if Marker.isRegionEnd line then .behind else .inside opened) (number + 1) rest
  | place, number, line :: rest =>
    if place = .behind && blank line then stripFrom .behind (number + 1) rest
    else
      match Marker.regionBegin? line with
      | some method => stripFrom (.inside ⟨number, method⟩) (number + 1) rest
      | none => (stripFrom .outside (number + 1) rest).map (line :: ·)

/-- The text without its regions and the blank lines behind each. -/
def strip (content : Text) : Except Unterminated Text :=
  (stripFrom .outside 1 (rawLines content)).map List.flatten

/-- The lines of a region that holds the given parts. -/
def linesOf (method : Text) (parts : List Text) : List Text :=
  let body := if parts.isEmpty then [] else joinWith "\n\n" parts ++ ['\n']
  rawLines (Marker.regionBegin.toList ++ ' ' :: method ++ '\n' :: body ++
    Marker.regionEnd.toList ++ ['\n'])

/-- Lines to put in after the line at an index. -/
structure Insertion where
  after : Nat
  lines : List Text
  deriving DecidableEq, Repr

/-- A line with a line feed at its end. -/
def terminated (line : Text) : Text := if line.getLast? = some '\n' then line else line ++ ['\n']

/-- Lines of which the last has a line feed at its end. -/
def terminateLast : List Text → List Text
  | [] => []
  | [line] => [terminated line]
  | line :: rest => line :: terminateLast rest

/-- Puts a region in, in place of the blank lines that follow: a blank line, the region, and a blank
line before whatever comes next. -/
def splice (lines : List Text) (insertion : Insertion) : List Text :=
  let count := min insertion.after (lines.length - 1) + 1
  let rest := (lines.drop count).dropWhile blank
  terminateLast (lines.take count) ++ ['\n'] :: insertion.lines ++
    (if rest.isEmpty then [] else ['\n'] :: rest)

/-- Puts regions in, the last first, so that the indices of the others stay right. -/
def spliceAll (lines : List Text) (insertions : List Insertion) : List Text :=
  insertions.foldr (fun insertion lines => splice lines insertion) lines

end Region

end Prefill
