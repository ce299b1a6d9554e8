import Prefill.Yaml.Basic

/-! Scalars of YAML: plain, in single quotes, and in double quotes. -/

namespace Prefill.Yaml

open Text

/-- The characters that structure a flow collection. -/
def isFlowIndicator (c : Char) : Bool := [',', '[', ']', '\x7b', '\x7d'].contains c

/-- Whether a plain scalar may start with this text. -/
def startsPlain (flow : Bool) : Text → Bool
  | [] => false
  | c :: rest =>
    if ['-', '?', ':'].contains c then
      !endsToken rest && !(flow && rest.head?.any isFlowIndicator)
    else
      !(isSpace c || isBreak c || isFlowIndicator c ||
        ['#', '&', '*', '!', '|', '>', '\'', '"', '%', '@', '`'].contains c)

/-- The part of a line that belongs to a plain scalar, with the blanks at its end: up to a colon
that ends a key, a comment, the end of the line, or in a flow collection one of its indicators. -/
def plainPart (flow : Bool) (afterBlank : Bool) : Text → Text
  | [] => []
  | c :: rest =>
    if isBreak c || (c = '#' && afterBlank) || (flow && isFlowIndicator c) then []
    else if c = ':' && (endsToken rest || (flow && rest.head?.any isFlowIndicator)) then []
    else c :: plainPart flow (isSpace c) rest

/-- The cursor at the next line with something on it, and how many lines end before it. -/
def nextLine : (fuel : Nat) → Cursor → Nat × Cursor
  | 0, cursor => (0, cursor)
  | fuel + 1, cursor =>
    match cursor.rest with
    | [] => (0, cursor)
    | c :: _ =>
      if isBreak c then
        let (count, found) := nextLine fuel cursor.step
        (count + 1, found)
      else if isSpace c then nextLine fuel cursor.step
      else (0, cursor)

/-- What line breaks between two parts of a scalar come to: one is a blank, and of more the first
is dropped. -/
def folded (breaks : Nat) : Text := if breaks ≤ 1 then [' '] else List.replicate (breaks - 1) '\n'

/-- Reads a plain scalar. It goes on over lines that are indented enough. -/
def plainText (flow : Bool) (least : Nat) : (fuel : Nat) → Cursor → Text × Cursor
  | 0, cursor => ([], cursor)
  | fuel + 1, cursor =>
    let part := plainPart flow true cursor.rest
    let text := (part.reverse.dropWhile isSpace).reverse
    let after := cursor.advance part.length
    let (breaks, next) := nextLine after.rest.length after
    let goesOn := 0 < breaks && !next.rest.isEmpty && !isDocumentMark next &&
      (flow || least ≤ next.column) && !(plainPart flow true next.rest).isEmpty
    if goesOn then
      let (more, stop) := plainText flow least fuel next
      (text ++ folded breaks ++ more, stop)
    else (text, cursor.advance text.length)

/-- The problem with a quoted scalar that never ends. -/
def unclosedQuote (start cursor : Cursor) : Fault :=
  ⟨"found unexpected end of stream", cursor.mark,
    some ("while scanning a quoted scalar", start.mark)⟩

/-- The escapes of one character in double quotes. -/
def shortEscapes : List (Char × Nat) :=
  [('0', 0), ('a', 7), ('b', 8), ('t', 9), ('\t', 9), ('n', 10), ('v', 11), ('f', 12), ('r', 13),
   ('e', 0x1b), (' ', 0x20), ('"', 0x22), ('/', 0x2f), ('\\', 0x5c), ('N', 0x85), ('_', 0xa0),
   ('L', 0x2028), ('P', 0x2029)]

/-- How many digits follow an escape that gives a code point. -/
def codeLengths : List (Char × Nat) := [('x', 2), ('u', 4), ('U', 8)]

/-- The value of hexadecimal digits. -/
def hexCode? (digits : Text) : Option Nat :=
  digits.foldl (fun code? c => do
    let code ← code?
    let digit ← hexValue? c
    return code * 16 + digit) (some 0)

/-- Reads an escape after its backslash: the character, and how many characters were read. -/
def escape? (text : Text) : Option (Char × Nat) :=
  match text with
  | [] => none
  | c :: rest =>
    match shortEscapes.find? fun entry => entry.1 = c with
    | some (_, code) => some (Char.ofNat code, 1)
    | none => do
      let (_, count) ← codeLengths.find? fun entry => entry.1 = c
      let digits := rest.take count
      let code ← hexCode? digits
      if digits.length = count && code.isValidChar then some (Char.ofNat code, count + 1) else none

/-- Joins what was read with what follows line breaks: the blanks around them are dropped. -/
def foldOnto (text : Text) (breaks : Nat) : Text :=
  (text.reverse.dropWhile isSpace).reverse ++ folded breaks

/-- Reads a quoted scalar after its opening quote; `text` is what was read of it. -/
def quotedText (double : Bool) (start : Cursor) (text : Text) :
    (fuel : Nat) → Cursor → Except Fault (Text × Cursor)
  | 0, cursor => .error (unclosedQuote start cursor)
  | fuel + 1, cursor =>
    match cursor.rest with
    | [] => .error (unclosedQuote start cursor)
    | c :: rest =>
      if isBreak c then
        let (breaks, next) := nextLine cursor.rest.length cursor
        quotedText double start (foldOnto text breaks) fuel next
      else if double then
        if c = '"' then .ok (text, cursor.step)
        else if c = '\\' then
          match rest with
          | d :: _ =>
            if isBreak d then
              let (breaks, next) := nextLine rest.length cursor.step
              let gap := if breaks ≤ 1 then [] else folded breaks
              quotedText double start (text ++ gap) fuel next
            else
              match escape? rest with
              | some (e, count) => quotedText double start (text ++ [e]) fuel (cursor.advance (count + 1))
              | none =>
                .error ⟨"found unknown escape character", start.mark,
                  some ("while parsing a quoted scalar", start.mark)⟩
          | [] => .error (unclosedQuote start cursor)
        else quotedText double start (text ++ [c]) fuel cursor.step
      else if c = '\'' then
        match rest with
        | '\'' :: _ => quotedText double start (text ++ ['\'']) fuel (cursor.advance 2)
        | _ => .ok (text, cursor.step)
      else quotedText double start (text ++ [c]) fuel cursor.step

/-- Reads a scalar: its node, and whether it stands on one line. -/
def readScalar (flow : Bool) (least : Nat) : Reader (Yaml × Bool) := fun cursor =>
  let finish (plain : Bool) (text : Text) (stop : Cursor) :=
    .ok ((Yaml.scalar cursor.mark plain text, stop.line = cursor.line), stop)
  let quoted (double : Bool) :=
    match quotedText double cursor [] cursor.rest.length cursor.step with
    | .ok (text, stop) => finish false text stop
    | .error fault => .error fault
  match cursor.rest with
  | '"' :: _ => quoted true
  | '\'' :: _ => quoted false
  | rest =>
    if startsPlain flow rest then
      let (text, stop) := plainText flow least rest.length cursor
      finish true text stop
    else .error (badCharacter cursor)

end Prefill.Yaml
