import Prefill.Literal.Kind

/-!
Putting a result into a line of code.

The part of the line that may change starts after the `=` of an assignment, or after the
indentation when there is none. There the first zero literal of the result's kind is replaced, then
the first call of the placeholder's name; a line that holds neither and is no assignment is replaced
as a whole.
-/

namespace Prefill

open Text

/-- What patching a line gives. -/
inductive Patch where
  | replaced (line : Text)
  /-- The line holds the result already. -/
  | upToDate
  | noTarget
  deriving DecidableEq, Repr

namespace Patch

/-- A name that a declaration may bind. -/
def binder? : Text → Option Text
  | [] => none
  | c :: rest =>
    if isLetter c || c == '_' then
      some (rest.dropWhile fun d => isLetter d || isNumeric d || d == '_')
    else none

/-- What an assignment may write to: names with points and brackets between them. -/
def place? : Text → Option Text
  | [] => none
  | c :: rest =>
    if isLetter c || c == '_' then
      some (rest.dropWhile fun d =>
        isLetter d || isNumeric d || d == '_' || d == '.' || d == '[' || d == ']')
    else none

/-- The rest of `var a, b T`: after a name comes the end, a comma and another name, or a blank and
whatever type follows. -/
def declares : Nat → Text → Bool
  | 0, _ => false
  | fuel + 1, text =>
    match binder? text with
    | none => false
    | some [] => true
    | some (c :: rest) =>
      isBlank c || (c == ',' && declares fuel (trimStart rest))

/-- Whether a text can stand before the `=` of a `var` or `const` declaration. -/
def isDeclaration (text : Text) : Bool :=
  let text := trimStart text
  match ((after? "var" text).or (after? "const" text)).bind blanks? with
  | some rest => declares rest.length rest
  | none => false

/-- The rest of `a, b`: after a place comes a comma and another place, or at most one character of
an operator. -/
def assigns : Nat → Text → Bool
  | 0, _ => false
  | fuel + 1, text =>
    match (place? text).map trimStart with
    | none => false
    | some [] => true
    | some (',' :: rest) => assigns fuel (trimStart rest)
    | some [c] => ":-+*/%&|^".toList.contains c
    | some _ => false

/-- Whether a text can stand before the `=` of an assignment. -/
def isAssignment (text : Text) : Bool :=
  let text := trimStart text
  assigns text.length text

/-- Splits an assignment after its `=`. The head ends at the first `=` of the line, because nothing
that may stand before it holds one; `==` is no assignment. -/
def splitHead? (line : Text) : Option (Text × Text) :=
  match cutAt? ['='] line with
  | some (head, value) =>
    if (isDeclaration head || isAssignment head) && value.head? != some '=' then
      some (head ++ ['='], value)
    else none
  | none => none

/-- A byte range of a text. -/
structure Span where
  start : Nat
  stop : Nat
  deriving DecidableEq, Repr

def Span.ofToken (token : Token) : Span := ⟨token.start, token.stop⟩

/-- The first token of a kind with one of the given texts. -/
def findToken? (tokens : List Token) (kind : Token.Kind) (texts : List String) : Option Span :=
  (tokens.find? fun token => token.kind = kind && texts.any fun text => token.text = text.toList).map
    Span.ofToken

/-- The first literal of a kind that holds its zero value. For a float, `0.0` comes before `0`. -/
def zeroLiteral? (text : Text) (kind : LiteralKind) : Option Span :=
  let tokens := Token.tokenize text
  match kind with
  | .string => findToken? tokens .string ["\"\"", "``"]
  | .int | .uint => findToken? tokens .number ["0"]
  | .float => (findToken? tokens .number ["0.0"]).or (findToken? tokens .number ["0"])
  | .bool => findToken? tokens .name ["false"]
  | .other => none

/-- Whether a token is a literal of a kind. -/
def isLiteralOf (kind : LiteralKind) (token : Token) : Bool :=
  match kind with
  | .string => token.kind = .string
  | .int | .uint | .float => token.kind = .number
  | .bool => token.kind = .name && (token.text = "true".toList || token.text = "false".toList)
  | .other => false

/-- The first literal of a kind among tokens, with a minus sign that touches a number. -/
def firstLiteralAfter (kind : LiteralKind) (previous : Option Token) : List Token → Option Text
  | [] => none
  | token :: more =>
    if isLiteralOf kind token then
      match previous with
      | some sign =>
        if token.kind = .number && sign.text = ['-'] && sign.stop = token.start then
          some ('-' :: token.text)
        else some token.text
      | none => some token.text
    else firstLiteralAfter kind (some token) more

/-- The text of the first literal of a kind. -/
def firstLiteral? (text : Text) (kind : LiteralKind) : Option Text :=
  firstLiteralAfter kind none (Token.tokenize text)

/-- The tokens after a dotted name at the start of the tokens. -/
def afterName? : List Text → List Token → Option (List Token)
  | [], tokens => some tokens
  | [part], token :: rest => if token.kind = .name && token.text = part then some rest else none
  | part :: parts, token :: point :: rest =>
    if token.kind = .name && token.text = part && point.text = ['.'] then afterName? parts rest
    else none
  | _ :: _, _ => none

/-- The end of the parenthesis that closes `depth` open ones. -/
def closing? (depth : Nat) : List Token → Option Nat
  | [] => none
  | token :: rest =>
    if token.text = ['('] then closing? (depth + 1) rest
    else if token.text = [')'] then
      if depth ≤ 1 then some token.stop else closing? (depth - 1) rest
    else closing? depth rest

/-- The first call of a dotted name among tokens. A name after a point is part of a longer one, and
a call that is not closed ends the search. -/
def callAmong (parts : List Text) (afterPoint : Bool) : List Token → Option Span
  | [] => none
  | token :: rest =>
    let opened := if afterPoint then none else afterName? parts (token :: rest)
    match opened with
    | some (paren :: inner) =>
      if paren.text = ['('] then (closing? 1 inner).map fun stop => ⟨token.start, stop⟩
      else callAmong parts (token.text = ['.']) rest
    | _ => callAmong parts (token.text = ['.']) rest

/-- The first call `name(...)` of a dotted name, up to the parenthesis that closes it. -/
def call? (text name : Text) : Option Span :=
  callAmong (pieces '.' name) false (Token.tokenize text)

/-- Whether a text holds a result: as one of its tokens when the result is a single token. -/
def holds (text result : Text) : Bool :=
  match Token.tokenize result with
  | [single] => (Token.tokenize text).any fun token => token.text = single.text
  | _ => occurs result text

/-- A text with a span of it replaced. -/
def splice (text : Text) (span : Span) (result : Text) : Text :=
  takeBytes span.start text ++ result ++ dropBytes span.stop text

/-- Patches the value of a line. Earlier runs filled the literals from the left: when the first one
holds the result, the zero literals after it belong to the code. -/
def patchValue? (value name result : Text) (kind : LiteralKind) : Option Patch :=
  match zeroLiteral? value kind with
  | some span =>
    if firstLiteral? value kind = some result then some .upToDate
    else some (.replaced (splice value span result))
  | none =>
    match call? value name with
    | some span => some (.replaced (splice value span result))
    | none => if holds value result then some .upToDate else none

/-- Puts text before a replaced line. -/
def under (head : Text) : Patch → Patch
  | .replaced line => .replaced (head ++ line)
  | patch => patch

/-- Patches a line with a result of a kind. -/
def patchLine (line name result : Text) (kind : LiteralKind) : Patch :=
  match splitHead? line with
  | some (head, value) => under head ((patchValue? value name result kind).getD .noTarget)
  | none =>
    let indent := line.takeWhile isBlank
    let code := line.dropWhile isBlank
    match patchValue? code name result kind with
    | some patch => under indent patch
    | none =>
      .replaced (indent ++ result ++ if (trimEnd line).getLast? = some ',' then [','] else [])

end Patch

end Prefill
