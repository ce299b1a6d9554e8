import Prefill.Literal.Quote
import Prefill.Text.Letter

/-!
The arguments of a placeholder. They are separated by colons; a colon inside quotes or brackets
belongs to the argument.
-/

namespace Prefill

open Text

/-- One argument of a placeholder. -/
inductive Argument where
  /-- A string or rune literal, as written. -/
  | quoted (text : Text)
  | number (text : Text)
  | bool (text : Text)
  /-- `=expression`, passed on as it is. -/
  | raw (text : Text)
  /-- A word without quotes. -/
  | bare (text : Text)
  deriving DecidableEq, Repr

namespace Argument

/-- Digits of a base after its letter; underscores may stand anywhere among them. -/
def basedDigits (isDigit : Char → Bool) (text : Text) : Bool :=
  !text.isEmpty && text.all fun c => isDigit c || c == '_'

/-- Nothing, or an exponent: its letter, perhaps a sign, and digits. -/
def isExponent : Text → Bool
  | [] => true
  | e :: rest =>
    let digits := match rest with
      | '+' :: tail => tail
      | '-' :: tail => tail
      | _ => rest
    (e == 'e' || e == 'E') && !digits.isEmpty && digits.all isDecimal

/-- A decimal number: digits with at most one point, which may also come first, and perhaps an
exponent. -/
def isDecimalNumber (text : Text) : Bool :=
  match text with
  | '.' :: rest => rest.head?.any isDecimal && isExponent (rest.dropWhile isDecimal)
  | c :: rest =>
    isDecimal c &&
      match rest.dropWhile fun d => isDecimal d || d == '_' with
      | '.' :: tail => isExponent (tail.dropWhile isDecimal)
      | tail => isExponent tail
  | [] => false

/-- A number, with at most one sign before it. -/
def isNumber (text : Text) : Bool :=
  let unsigned := match text with
    | '+' :: rest => rest
    | '-' :: rest => rest
    | _ => text
  (match unsigned with
    | '0' :: base :: digits =>
      ((base == 'x' || base == 'X') && basedDigits (fun c => (hexValue? c).isSome) digits) ||
        ((base == 'b' || base == 'B') && basedDigits (fun c => c == '0' || c == '1') digits) ||
        ((base == 'o' || base == 'O') && basedDigits (fun c => '0' ≤ c && c ≤ '7') digits)
    | _ => false) ||
    isDecimalNumber unsigned

/-- The argument that a piece between colons stands for. -/
def ofText (text : Text) : Argument :=
  let text := trim text
  match text with
  | '=' :: expression => .raw (trim expression)
  | _ =>
    if text.head?.any fun c => c == '"' || c == '`' || c == '\'' then .quoted text
    else if text = "true".toList || text = "false".toList then .bool text
    else if isNumber text then .number text
    else .bare text

/-- The Go expression for an argument. A word, number or truth value that goes to a string
parameter is quoted. -/
def toGo (argument : Argument) (parameterType : Option Text) : Text :=
  match argument with
  | .quoted text => text
  | .raw text => text
  | .number text | .bool text | .bare text =>
    if parameterType.map trim = some "string".toList then Literal.quote text else text

/-- The argument as a placeholder writes it. -/
def render : Argument → Text
  | .raw text => '=' :: text
  | .quoted text | .number text | .bool text | .bare text => text

/-- Where the scan for colons stands: inside a quote, after a backslash in one, or in brackets. -/
structure Scan where
  quote : Option Char
  escaped : Bool
  depth : Nat

/-- What one character does to the scan. -/
def Scan.step (scan : Scan) (c : Char) : Scan :=
  match scan.quote with
  | some quote =>
    if scan.escaped then { scan with escaped := false }
    else if c = '\\' && quote != '`' then { scan with escaped := true }
    else if c = quote then { scan with quote := none }
    else scan
  | none =>
    if c = '"' || c = '`' || c = '\'' then { scan with quote := some c }
    else if c = '(' || c = '[' || c = '\x7b' then { scan with depth := scan.depth + 1 }
    else if c = ')' || c = ']' || c = '\x7d' then { scan with depth := scan.depth - 1 }
    else scan

/-- Whether a character ends an argument here. -/
def Scan.separates (scan : Scan) (c : Char) : Bool :=
  c == ':' && scan.quote.isNone && scan.depth == 0

/-- The pieces between the colons that separate arguments; always at least one. -/
def cutAtColons (scan : Scan) : Text → List Text
  | [] => [[]]
  | c :: rest =>
    if scan.separates c then [] :: cutAtColons scan rest
    else
      match cutAtColons (scan.step c) rest with
      | [] => [[c]]
      | piece :: more => (c :: piece) :: more

/-- The pieces of the text after a placeholder's name, trimmed, without the empty ones. -/
def split (tail : Text) : List Text :=
  ((cutAtColons ⟨none, false, 0⟩ tail).map trim).filter fun piece => !piece.isEmpty

/-- The arguments of a placeholder. -/
def parse (tail : Text) : List Argument := (split tail).map ofText

end Argument

end Prefill
