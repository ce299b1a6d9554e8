import Prefill.Text.Basic

/-!
YAML documents: scalars, sequences and mappings, with their places. A scalar stays text; what it
means is for its reader to say.
-/

namespace Prefill

open Text

namespace Yaml

/-- A place in a document; lines and columns count from 1. -/
structure Mark where
  line : Nat
  column : Nat
  deriving DecidableEq, Repr

def Mark.describe (m : Mark) : String := s!"line {m.line} column {m.column}"

/-- The start of a document, which messages do not mention. -/
def Mark.start : Mark := ⟨1, 1⟩

/-- A place as it is added to a message. -/
def Mark.suffix (m : Mark) : String := if m = start then "" else s!" at {m.describe}"

/-- Why a document cannot be read: the problem, and what was being read when it was met. -/
structure Fault where
  problem : String
  mark : Mark
  context : Option (String × Mark) := none
  deriving DecidableEq, Repr

def Fault.message (fault : Fault) : String :=
  let head := fault.problem ++ fault.mark.suffix
  match fault.context with
  | none => head
  | some (context, mark) =>
    let place := if mark = fault.mark then "" else mark.suffix
    s!"{head}, {context}{place}"

end Yaml

/-- A node of a document. -/
inductive Yaml where
  | scalar (mark : Yaml.Mark) (plain : Bool) (text : Text)
  | sequence (mark : Yaml.Mark) (items : List Yaml)
  | mapping (mark : Yaml.Mark) (entries : List (Yaml × Yaml))

namespace Yaml

def mark : Yaml → Mark
  | .scalar mark _ _ => mark
  | .sequence mark _ => mark
  | .mapping mark _ => mark

/-- What is still to be read, and where it starts. `fresh` says that only blanks came before on the
line. -/
structure Cursor where
  rest : Text
  line : Nat
  column : Nat
  fresh : Bool

namespace Cursor

def start (text : Text) : Cursor := ⟨text, 1, 0, true⟩

def mark (cursor : Cursor) : Mark := ⟨cursor.line, cursor.column + 1⟩

/-- The cursor after one more character. -/
def step (cursor : Cursor) : Cursor :=
  match cursor.rest with
  | [] => cursor
  | '\r' :: '\n' :: rest => ⟨rest, cursor.line + 1, 0, true⟩
  | '\r' :: rest => ⟨rest, cursor.line + 1, 0, true⟩
  | '\n' :: rest => ⟨rest, cursor.line + 1, 0, true⟩
  | c :: rest => ⟨rest, cursor.line, cursor.column + 1, cursor.fresh && c = ' '⟩

/-- The cursor after so many more characters. -/
def advance (cursor : Cursor) : Nat → Cursor
  | 0 => cursor
  | count + 1 => cursor.step.advance count

end Cursor

def isBreak (c : Char) : Bool := c = '\n' || c = '\r'

def isSpace (c : Char) : Bool := c = ' ' || c = '\t'

/-- Whether a token ends here: a blank, a line break, or the end of the document. -/
def endsToken (text : Text) : Bool := text.head?.all fun c => isSpace c || isBreak c

/-- A mark that starts or ends a document. -/
def isDocumentMark (cursor : Cursor) : Bool :=
  cursor.column = 0 &&
    ["---", "..."].any fun mark => (after? mark cursor.rest).any endsToken

/-- Reads a document from a cursor on. -/
abbrev Reader := StateT Cursor (Except Fault)

namespace Reader

def refuse {α : Type} (problem : String) : Reader α := fun cursor => .error ⟨problem, cursor.mark, none⟩

/-- The characters that are still to be read. -/
def rest : Reader Text := do return (← get).rest

def skip (count : Nat) : Reader Unit := modify fun cursor => cursor.advance count

/-- Whether what comes next starts with a string. -/
def sees (lead : String) : Reader Bool := do return startsWith lead (← rest)

/-- Whether an indicator comes next that stands alone. -/
def seesIndicator (c : Char) : Reader Bool := do
  match ← rest with
  | first :: more => return first = c && endsToken more
  | [] => return false

end Reader

/-- The problem with a character that starts nothing. -/
def badCharacter (cursor : Cursor) : Fault :=
  ⟨"found character that cannot start any token", cursor.mark,
    some ("while scanning for the next token", cursor.mark)⟩

/-- Skips blanks, line breaks and comments. In a block, a tab must not indent a line. -/
def skipBlanks (block : Bool) : (fuel : Nat) → Cursor → Except Fault Cursor
  | 0, cursor => .ok cursor
  | fuel + 1, cursor =>
    match cursor.rest with
    | [] => .ok cursor
    | c :: rest =>
      if c = '\t' && block && cursor.fresh then .error (badCharacter cursor)
      else if isSpace c || isBreak c then skipBlanks block fuel cursor.step
      else if c = '#' then
        let comment := (c :: rest).takeWhile fun c => !isBreak c
        skipBlanks block fuel (cursor.advance comment.length)
      else .ok cursor

/-- Skips what stands between tokens. -/
def Reader.skipBetween (block : Bool) : Reader Unit := fun cursor =>
  match skipBlanks block cursor.rest.length cursor with
  | .ok cursor => .ok ((), cursor)
  | .error fault => .error fault

end Yaml

end Prefill
