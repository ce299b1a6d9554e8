import Prefill.Yaml.Scalar

/-!
Collections of YAML. In a block, indentation says what belongs together; between brackets or braces
it has no meaning. Every call reads something or goes one level down, so the fuel that a document
gets from its length is enough.
-/

namespace Prefill.Yaml

open Text
open Reader

/-- An absent value. -/
def absent : Reader Yaml := do return .scalar (← get).mark true []

mutual

/-- A node between brackets or braces. -/
def flowNode : (fuel : Nat) → Reader Yaml
  | 0 => refuse "exceeded max recursion depth"
  | fuel + 1 => do
    let mark := (← get).mark
    if ← sees "[" then
      skip 1
      return .sequence mark (← flowItems fuel)
    else if ← sees "\x7b" then
      skip 1
      return .mapping mark (← flowEntries fuel)
    else return (← readScalar true 0).1

/-- A key, and the value that a colon gives it. -/
def flowPair : (fuel : Nat) → Reader (Yaml × Option Yaml)
  | 0 => refuse "exceeded max recursion depth"
  | fuel + 1 => do
    let key ← if ← sees ":" then absent else flowNode fuel
    skipBetween false
    if ← sees ":" then
      skip 1
      skipBetween false
      match ← rest with
      | ',' :: _ | ']' :: _ | '\x7d' :: _ => return (key, some (← absent))
      | _ => return (key, some (← flowNode fuel))
    else return (key, none)

/-- The items of a sequence up to its bracket. A pair among them is a mapping of its own. -/
def flowItems : (fuel : Nat) → Reader (List Yaml)
  | 0 => refuse "exceeded max recursion depth"
  | fuel + 1 => do
    skipBetween false
    if ← sees "]" then
      skip 1
      return []
    else
      let mark := (← get).mark
      let item := match ← flowPair fuel with
        | (key, none) => key
        | (key, some value) => .mapping mark [(key, value)]
      skipBetween false
      if ← sees "," then
        skip 1
        return item :: (← flowItems fuel)
      else if ← sees "]" then
        skip 1
        return [item]
      else refuse "did not find expected ',' or ']'"

/-- The entries of a mapping up to its brace. -/
def flowEntries : (fuel : Nat) → Reader (List (Yaml × Yaml))
  | 0 => refuse "exceeded max recursion depth"
  | fuel + 1 => do
    skipBetween false
    if ← sees "\x7d" then
      skip 1
      return []
    else
      let (key, value) ← flowPair fuel
      let pair := (key, value.getD (← absent))
      skipBetween false
      if ← sees "," then
        skip 1
        return pair :: (← flowEntries fuel)
      else if ← sees "\x7d" then
        skip 1
        return [pair]
      else refuse "did not find expected ',' or '\x7d'"

end

/-- Whether the document ends here. -/
def atEnd : Reader Bool := do
  let cursor ← get
  return cursor.rest.isEmpty || isDocumentMark cursor

/-- What may stand at a place in a block. -/
structure Slot where
  /-- The least column of what belongs here. -/
  least : Nat
  /-- Whether a collection may start here. -/
  collections : Bool

/-- Blanks on the rest of a line. -/
def skipOnLine : Reader Unit := do
  let blanks := (← rest).takeWhile isSpace
  skip blanks.length

mutual

/-- A node in a block. -/
def blockNode (slot : Slot) : (fuel : Nat) → Reader Yaml
  | 0 => refuse "exceeded max recursion depth"
  | fuel + 1 => do
    let cursor ← get
    if (← atEnd) || (cursor.fresh && cursor.column < slot.least) then absent
    else if ← seesIndicator '-' then
      if slot.collections then return .sequence cursor.mark (← blockItems cursor.column fuel)
      else refuse "block sequence entries are not allowed in this context"
    else
      let (node, onLine) ←
        if (← sees "[") || (← sees "\x7b") then do
          let node ← flowNode cursor.rest.length
          pure (node, decide ((← get).line = cursor.line))
        else readScalar false slot.least
      let after ← get
      skipOnLine
      if ← seesIndicator ':' then
        if slot.collections && onLine then
          skip 1
          let value ← blockValue cursor.column fuel
          return .mapping cursor.mark ((node, value) :: (← blockEntries cursor.column fuel))
        else refuse "mapping values are not allowed in this context"
      else
        set after
        return node

/-- The value after the colon of a key. A sequence below it may start at the column of the key. -/
def blockValue (column : Nat) : (fuel : Nat) → Reader Yaml
  | 0 => refuse "exceeded max recursion depth"
  | fuel + 1 => do
    let line := (← get).line
    skipBetween true
    let cursor ← get
    if cursor.line = line then blockNode ⟨column + 1, false⟩ fuel
    else if (← seesIndicator '-') && cursor.column = column && !(← atEnd) then
      return .sequence cursor.mark (← blockItems column fuel)
    else blockNode ⟨column + 1, true⟩ fuel

/-- The further entries of a mapping whose keys start at a column. -/
def blockEntries (column : Nat) : (fuel : Nat) → Reader (List (Yaml × Yaml))
  | 0 => refuse "exceeded max recursion depth"
  | fuel + 1 => do
    skipBetween true
    let cursor ← get
    if (← atEnd) || (cursor.fresh && cursor.column < column) then return []
    else if !(cursor.fresh && cursor.column = column) || (← seesIndicator '-') then
      refuse "did not find expected key"
    else
      let (key, onLine) ← readScalar false (column + 1)
      skipOnLine
      if (← seesIndicator ':') && onLine then
        skip 1
        let value ← blockValue column fuel
        return (key, value) :: (← blockEntries column fuel)
      else refuse "could not find expected ':'"

/-- The items of a sequence whose hyphens stand at a column. -/
def blockItems (column : Nat) : (fuel : Nat) → Reader (List Yaml)
  | 0 => refuse "exceeded max recursion depth"
  | fuel + 1 => do
    skip 1
    skipBetween true
    let item ← blockNode ⟨column + 1, true⟩ fuel
    skipBetween true
    let cursor ← get
    if (← atEnd) || !cursor.fresh || cursor.column < column then return [item]
    else if cursor.column = column then
      if ← seesIndicator '-' then return item :: (← blockItems column fuel)
      else return [item]
    else refuse "did not find expected '-' indicator"

end

/-- Reads a stream of at most one document; none where there is nothing but blanks and comments. -/
def document : Reader (Option Yaml) := do
  skipBetween true
  let explicit := (← sees "---") && isDocumentMark (← get)
  if (← rest).isEmpty then return none
  else
    if explicit then skip 3
    skipBetween true
    let node ← blockNode ⟨0, true⟩ (2 * (← rest).length + 2)
    skipBetween true
    if (← sees "...") && isDocumentMark (← get) then
      skip 3
      skipBetween true
    if (← rest).isEmpty then return some node
    else if isDocumentMark (← get) then
      fun _ =>
        .error ⟨"deserializing from YAML containing more than one document is not supported",
          .start, none⟩
    else refuse "did not find expected <document start>"

/-- Whether a document may hold a character: no control characters but tabs and line ends. -/
def isAllowed (c : Char) : Bool :=
  c = '\t' || isBreak c || (' ' ≤ c && c ≤ '~') || c = '\u0085' ||
    ('\u00a0' ≤ c && c ≠ '\ufeff' && c ≠ '\ufffe' && c ≠ '\uffff')

/-- The problem with the first character that is not allowed. -/
def forbidden? (text : Text) : Option Fault :=
  match text.dropWhile isAllowed with
  | [] => none
  | _ :: _ =>
    let offset := byteLength (text.takeWhile isAllowed)
    let place := if offset = 0 then "" else s!" at position {offset}"
    some ⟨s!"control characters are not allowed{place}", .start, none⟩

/-- Reads a document; a byte order mark at its start is passed over. -/
def parse (text : Text) : Except Fault (Option Yaml) :=
  let text := (after? "\ufeff" text).getD text
  match forbidden? text with
  | some fault => .error fault
  | none =>
    match document (.start text) with
    | .ok (node, _) => .ok node
    | .error fault => .error fault

end Prefill.Yaml
