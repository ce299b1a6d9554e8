import Prefill.Go.Syntax

/-!
Reading lexemes. A parser takes lexemes off the front of a list or fails; a choice tries its
alternatives in order. Repetition goes on only while lexemes are taken, so it ends whatever it
repeats.

The grammar is recursive through `Rules`: every production is an ordinary function of the rules for
what it contains, and `Grammar.rules` ties the knot.
-/

namespace Prefill.Go

/-- Takes lexemes off the front of a list, or fails. -/
abbrev Parser := StateT (List Lexeme) Option

/-- Where an expression or a type stands. -/
structure Context where
  /-- Whether a line feed may end what is being read. -/
  newlineEnds : Bool
  /-- Whether a brace after a name opens the body of a statement. -/
  beforeBody : Bool
  /-- Whether `x.(type)` may stand here. -/
  guard : Bool

namespace Context

/-- Inside brackets: line feeds and braces have no special meaning. -/
def inner : Context := ⟨false, false, false⟩

/-- Directly in a statement or declaration. -/
def line : Context := ⟨true, false, false⟩

/-- Between the keyword of a statement and its body. -/
def head : Context := ⟨false, true, false⟩

/-- Between `switch` and its cases. -/
def switchHead : Context := ⟨false, true, true⟩

end Context

namespace Parser

/-- The next lexeme, which stays. -/
def peek : Parser Lexeme := fun
  | t :: rest => some (t, t :: rest)
  | [] => none

/-- The next lexeme, if it is wanted. -/
def accept (wanted : Lexeme → Bool) : Parser Lexeme := fun
  | t :: rest => if wanted t then some (t, rest) else none
  | [] => none

def isOperator (text : String) (t : Lexeme) : Bool := t.kind = .operator && t.text = text.toList

def isWord (text : String) (t : Lexeme) : Bool := t.kind = .word && t.text = text.toList

/-- The next lexeme must be the given operator. -/
def operator (text : String) : Parser Unit := do
  let _ ← accept (isOperator text)

/-- The next lexeme must be the given keyword. -/
def keyword (text : String) : Parser Unit := do
  let _ ← accept (isWord text)

/-- Any word. -/
def word : Parser Text := do
  let t ← accept fun t => t.kind = .word
  return t.text

/-- A word other than the given keywords. -/
def nameExcept (keywords : List String) : Parser Text := do
  let t ← accept fun t => t.kind = .word && !keywords.any fun k => k.toList = t.text
  return t.text

/-- Whether the next lexeme is as asked. -/
def sees (wanted : Lexeme → Bool) : Parser Bool := do return wanted (← peek)

def seesOperator (text : String) : Parser Bool := sees (isOperator text)

/-- Succeeds when the condition holds. -/
def ensure (condition : Bool) : Parser Unit := if condition then pure () else failure

/-- Fails where a line feed ends what is being read. -/
def continues (context : Context) : Parser Unit := do
  let t ← peek
  ensure !(context.newlineEnds && t.afterNewline)

/-- An operator that must not stand after a line feed that ends what is being read. -/
def follows (context : Context) (text : String) : Parser Unit := do
  continues context
  operator text

/-- What the parser reads, or nothing. -/
def possibly {α : Type} (p : Parser α) : Parser (Option α) := fun ts =>
  match p ts with
  | some (a, rest) => some (some a, rest)
  | none => some (none, ts)

/-- Succeeds, taking nothing, when the parser would fail. -/
def refuses {α : Type} (p : Parser α) : Parser Unit := fun ts =>
  match p ts with
  | some _ => none
  | none => some ((), ts)

/-- Repeats at most `fuel` times, as long as lexemes are taken. -/
def repeatUpTo {α : Type} (p : Parser α) : (fuel : Nat) → Parser (List α)
  | 0 => pure []
  | fuel + 1 => fun ts =>
    match p ts with
    | none => some ([], ts)
    | some (a, rest) =>
      if rest.length < ts.length then
        match repeatUpTo p fuel rest with
        | some (more, left) => some (a :: more, left)
        | none => some ([a], rest)
      else some ([], ts)

/-- Repeats as often as possible. -/
def many {α : Type} (p : Parser α) : Parser (List α) := fun ts => repeatUpTo p ts.length ts

/-- One or more, with a separator between them. -/
def separated {α : Type} (separator : Parser Unit) (p : Parser α) : Parser (List α) := do
  let first ← p
  let more ← many (do separator; p)
  return first :: more

/-- Any number in brackets, with commas between and perhaps one after the last. -/
def bracketed {α : Type} (opening closing : String) (p : Parser α) : Parser (List α) := do
  operator opening
  let items ← possibly (separated (operator ",") p)
  let _ ← possibly (operator ",")
  operator closing
  return items.getD []

/-- The line feed or the semicolon after a statement. A line feed is taken once. -/
def terminator : Parser Unit := fun
  | t :: rest =>
    if t.afterNewline then some ((), { t with afterNewline := false } :: rest)
    else if isOperator ";" t then some ((), rest)
    else none
  | [] => none

/-- Any number in braces, with terminators between and perhaps one after the last. -/
def listed {α : Type} (opening closing : String) (p : Parser α) : Parser (List α) := do
  operator opening
  let items ← possibly (separated terminator p)
  let _ ← if items.isSome then possibly terminator else pure none
  operator closing
  return items.getD []

/-- Where the lexemes taken between two points begin and end. -/
def taken (before after : List Lexeme) : Span :=
  let count := before.length - after.length
  match before.head?, before[count - 1]? with
  | some first, some last => ⟨first.span.start, last.span.stop⟩
  | _, _ => ⟨.origin, .origin⟩

/-- What the parser reads, and where it stands. -/
def placed {α : Type} (p : Parser α) : Parser (α × Span) := fun ts =>
  match p ts with
  | some (a, rest) => some ((a, taken ts rest), rest)
  | none => none

end Parser

/-- The productions that contain themselves. -/
structure Rules where
  type : Context → Parser Term
  expression : Context → Parser Term
  /-- Statements in braces. -/
  block : Parser (List Term)
  statement : Parser Term

/-- Rules that read nothing. -/
def Rules.nothing : Rules := ⟨fun _ => failure, fun _ => failure, failure, failure⟩

end Prefill.Go
