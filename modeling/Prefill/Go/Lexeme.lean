import Prefill.Go.Number
import Prefill.Go.Position
import Prefill.Text.Word

/-!
Lexemes of a Go file. Comments are kept apart, with their positions. Line feeds are no lexemes: a
lexeme knows whether one stands before it, and the grammar decides whether that ends a statement.
-/

namespace Prefill.Go

open Text

namespace Lexeme

inductive Kind where
  /-- A name or a keyword; the grammar tells them apart. -/
  | word
  | number
  | string
  | rune
  | operator
  /-- A character that starts no lexeme, or a literal that is not well formed. -/
  | bad
  /-- The end of the file. -/
  | finish
  deriving DecidableEq, Repr

end Lexeme

structure Lexeme where
  kind : Lexeme.Kind
  text : Text
  span : Span
  /-- Whether a line feed outside comments stands before the lexeme. -/
  afterNewline : Bool
  identifier : kind = .word → isIdentifier text = true
  deriving DecidableEq, Repr

structure Comment where
  text : Text
  span : Span
  deriving DecidableEq, Repr

namespace Lexeme

/-- The operators and brackets, the longer ones first. -/
def operators : List String :=
  ["...", "<<=", ">>=", "&^=", "&&", "||", "<-", "++", "--", "==", "!=", "<=", ">=", ":=", "+=",
   "-=", "*=", "/=", "%=", "&=", "|=", "^=", "<<", ">>", "&^", "+", "-", "*", "/", "%", "&", "|",
   "^", "<", ">", "=", "!", "(", ")", "[", "]", "\x7b", "\x7d", ",", ";", ".", ":", "~"]

/-- The number of hexadecimal digits that an escape needs. -/
def escapeDigits (c : Char) : Nat :=
  match c with
  | 'x' => 2
  | 'u' => 4
  | 'U' => 8
  | _ => 0

/-- An interpreted string after its opening quote: its length, if it ends on its line and its
escapes are complete. -/
def stringLength? : Text → Option Nat
  | [] => none
  | '"' :: _ => some 1
  | '\n' :: _ => none
  | '\\' :: c :: rest =>
    if (rest.takeWhile Number.isHexDigit).length < escapeDigits c then none
    else (stringLength? rest).map (· + 2)
  | _ :: rest => (stringLength? rest).map (· + 1)

/-- The length of the escape after a backslash in a rune literal. -/
def runeEscapeLength? : Text → Option Nat
  | [] => none
  | c :: rest =>
    if "abfnrtv\\'\"".toList.contains c then some 1
    else if 0 < escapeDigits c then
      if (rest.take (escapeDigits c)).length = escapeDigits c &&
          (rest.take (escapeDigits c)).all Number.isHexDigit then
        some (1 + escapeDigits c)
      else none
    else if Number.isOctalDigit c && (rest.take 2).length = 2 &&
        (rest.take 2).all Number.isOctalDigit then
      some 3
    else none

/-- The length of a rune literal after its opening quote. -/
def runeLength? : Text → Option Nat
  | '\\' :: rest =>
    (runeEscapeLength? rest).bind fun n =>
      if (rest.drop n).head? = some '\'' then some (n + 2) else none
  | c :: '\'' :: _ => if c = '\'' then none else some 2
  | _ => none

/-- What stands at the front of a text. -/
inductive Front where
  | blank
  | comment
  | lexeme (kind : Kind)
  deriving DecidableEq, Repr

/-- The nature and the length of the first piece where neither a blank nor a comment stands. -/
def lexemeFront (c : Char) (rest : Text) : Front × Nat :=
  if isIdentifierStart c then (.lexeme .word, 1 + (rest.takeWhile isIdentifierPart).length)
  else if isAsciiDigit c || (c = '.' && rest.head?.any isAsciiDigit) then
    match Number.scan (c :: rest) with
    | some left => (.lexeme .number, 1 + rest.length - left.length)
    | none => (.lexeme .bad, 1)
  else if c = '"' then
    match stringLength? rest with
    | some n => (.lexeme .string, 1 + n)
    | none => (.lexeme .bad, 1)
  else if c = '`' then
    match cutAt? ['`'] rest with
    | some (inner, _) => (.lexeme .string, inner.length + 2)
    | none => (.lexeme .bad, 1)
  else if c = '\'' then
    match runeLength? rest with
    | some n => (.lexeme .rune, 1 + n)
    | none => (.lexeme .bad, 1)
  else
    match operators.find? fun op => startsWith op (c :: rest) with
    | some op => (.lexeme .operator, op.length)
    | none => (.lexeme .bad, 1)

/-- The text of a comment in `/*` and `*/`. -/
def blockComment? (c : Char) (rest : Text) : Option (Text × Text) :=
  if c = '/' then (after? "*" rest).bind (cutAt? "*/".toList) else none

/-- The nature and the length of the first piece of a text that starts with `c`. -/
def front (c : Char) (rest : Text) : Front × Nat :=
  if isBlank c then (.blank, 1)
  else if c = '/' && rest.head? = some '/' then
    (.comment, 1 + (rest.takeWhile (· != '\n')).length)
  else
    match blockComment? c rest with
    | some (inner, _) => (.comment, inner.length + 4)
    | none => lexemeFront c rest

/-- A word is read as long as it goes on. -/
theorem front_word {c : Char} {rest : Text} : (front c rest).1 = .lexeme .word →
    isIdentifierStart c = true ∧
      (front c rest).2 = 1 + (rest.takeWhile isIdentifierPart).length := by
  unfold front lexemeFront
  repeat' split
  all_goals simp_all

theorem isIdentifier_of_front {c : Char} {rest : Text} (h : (front c rest).1 = .lexeme .word) :
    isIdentifier (c :: rest.take ((front c rest).2 - 1)) = true := by
  obtain ⟨start, size⟩ := front_word h
  have piece : rest.takeWhile isIdentifierPart = rest.take ((front c rest).2 - 1) := by
    rw [size, Nat.add_sub_cancel_left]
    exact List.prefix_iff_eq_take.mp (List.takeWhile_prefix _)
  rw [← piece]
  simp [isIdentifier, start]

/-- The end of the file at a position. -/
def ending (position : Position) (newline : Bool) : Lexeme :=
  ⟨.finish, [], ⟨position, position⟩, newline, nofun⟩

/-- The lexemes and the comments of a file. -/
structure Stream where
  lexemes : List Lexeme
  comments : List Comment

/-- Reads at most `fuel` pieces of a text that starts at a position; `newline` says whether a line
feed has been passed since the last lexeme. -/
def scanFrom : (fuel : Nat) → Position → (newline : Bool) → Text → Stream
  | 0, position, newline, _ => ⟨[ending position newline], []⟩
  | _ + 1, position, newline, [] => ⟨[ending position newline], []⟩
  | fuel + 1, position, newline, c :: rest =>
    let found := front c rest
    let piece := c :: rest.take (found.2 - 1)
    let stop := position.past piece
    let left := rest.drop (found.2 - 1)
    match h : found.1 with
    | .blank => scanFrom fuel stop (newline || c = '\n') left
    | .comment =>
      let stream := scanFrom fuel stop newline left
      { stream with comments := ⟨piece, ⟨position, stop⟩⟩ :: stream.comments }
    | .lexeme kind =>
      let stream := scanFrom fuel stop false left
      let word := fun isWord : kind = .word => isIdentifier_of_front (isWord ▸ h)
      { stream with lexemes := ⟨kind, piece, ⟨position, stop⟩, newline, word⟩ :: stream.lexemes }

/-- Reads a file. Every piece has at least one character, so its length is fuel enough; a
byte-order mark at the start is passed over. -/
def scan (source : Text) : Stream :=
  match source with
  | '\uFEFF' :: rest => scanFrom rest.length (Position.origin.next '\uFEFF') false rest
  | _ => scanFrom source.length .origin false source

end Lexeme

end Prefill.Go
