import Prefill.Text.Line
import Prefill.Text.Utf8
import Prefill.Text.Word

/-!
The comment markers of a Go file.

A helper file says `//go:ahead functions` in its first lines and may name packages with
`//go:ahead import NAME=PATH`. Any other file asks for a value with `//:Name` or `//:Name:arguments`
and for generated code with `//:inject:Name`. Generated code stands between a begin and an end line.
-/

namespace Prefill

open Text

/-- A request found on a source line. -/
inductive Marker where
  /-- `//:Name` or `//:Name:arguments`, the arguments as written. -/
  | placeholder (name arguments : Text)
  /-- `//:inject:Method` -/
  | injection (method : Text)
  deriving DecidableEq, Repr

/-- A package name that a helper file declares for an import path. -/
structure ImportAlias where
  label : Text
  path : Text
  deriving DecidableEq, Repr

namespace Marker

/-- The number of leading lines in which a helper file may say that it is one. -/
def activationWindow : Nat := 10

/-- The start of the line that opens a generated region; a method name follows. -/
def regionBegin : String := "// goahead:inject-begin"

/-- The line that closes a generated region. -/
def regionEnd : String := "// End of goahead generated code."

/-- An ASCII identifier at the start of the text, as long as possible. -/
def word? : Text → Option (Text × Text)
  | [] => none
  | c :: rest =>
    if isAsciiWordStart c then
      some (c :: rest.takeWhile isAsciiWordPart, rest.dropWhile isAsciiWordPart)
    else none

/-- The rest of a dotted name after its first word. A point that no word follows is left over. -/
def moreWords : Nat → Text → Text × Text
  | 0, text => ([], text)
  | fuel + 1, '.' :: rest =>
    match word? rest with
    | some (word, tail) =>
      let (more, left) := moreWords fuel tail
      ('.' :: word ++ more, left)
    | none => ([], '.' :: rest)
  | _ + 1, text => ([], text)

/-- Identifiers joined by points at the start of the text. -/
def dottedName? (text : Text) : Option (Text × Text) :=
  (word? text).map fun (word, rest) =>
    let (more, left) := moreWords rest.length rest
    (word ++ more, left)

/-- What follows the two slashes of a comment line, without the blanks around them. -/
def comment? (line : Text) : Option Text := (after? "//" (trimStart line)).map trimStart

/-- The method of an injection comment. -/
def injection? (comment : Text) : Option Text := do
  let (method, rest) ← word? (← after? ":inject:" comment)
  if blank rest then some method else none

/-- The name and the arguments of a placeholder comment. -/
def placeholder? (comment : Text) : Option (Text × Text) := do
  let (name, rest) ← dottedName? (← after? ":" comment)
  match rest with
  | [] => some (name, [])
  | ':' :: tail => if '\n' ∈ tail then none else some (name, tail)
  | _ => none

/-- Reads a source line as a marker. `inject` alone names no placeholder. -/
def classify? (line : Text) : Option Marker := do
  let comment ← comment? (trimEnd line)
  match injection? comment with
  | some method => some (.injection method)
  | none =>
    let (name, arguments) ← placeholder? comment
    if name = "inject".toList then none else some (.placeholder name arguments)

/-- Whether a line of the text is a marker. -/
def anyIn (text : Text) : Bool := (lines text).any fun line => (classify? line.body).isSome

/-- Whether a line of the text asks for generated code. -/
def anyInjectionIn (text : Text) : Bool :=
  (lines text).any fun line =>
    match classify? line.body with
    | some (.injection _) => true
    | _ => false

/-- What follows `//go:ahead` and at least one blank. -/
def directive? (line : Text) : Option Text := do
  blanks? (← after? "//go:ahead" (trimStart line))

/-- The line that makes a file a helper file. -/
def isActivation (line : Text) : Bool :=
  match (directive? line).bind (after? "functions") with
  | some rest => blank rest
  | none => false

/-- Whether the first lines of a text make it a helper file. -/
def activates (text : Text) : Bool :=
  ((lines text).take activationWindow).any fun line => isActivation line.body

/-- The lines of a file as bytes, without their line feeds and the carriage returns before them. -/
def byteLines : Utf8.Bytes → List Utf8.Bytes
  | [] => []
  | 0x0d :: 0x0a :: rest => [] :: byteLines rest
  | 0x0a :: rest => [] :: byteLines rest
  | b :: rest =>
    match byteLines rest with
    | [] => [[b]]
    | line :: more => (b :: line) :: more

/-- Reads the lines of a file until the activation line, a line that is not UTF-8, or the end of
the window. -/
def probeLines : List Utf8.Bytes → Bool
  | [] => false
  | line :: more =>
    match Utf8.decode? line with
    | none => false
    | some text => isActivation text || probeLines more

/-- Whether a file is a helper file, read line by line: a line that is not UTF-8 before the
activation line says that it is not. -/
def probe (bytes : Utf8.Bytes) : Bool := probeLines ((byteLines bytes).take activationWindow)

/-- Whether `word` occurs with no word character right before or after it. The first argument is
the character before the text. -/
def occursAsWord (word : Text) (before : Char) : Text → Bool
  | [] => false
  | c :: rest =>
    (match strip? word (c :: rest) with
      | some tail => !isWordPart before && !(tail.head?.any isWordPart)
      | none => false) ||
      occursAsWord word c rest

/-- A build constraint that names `ignore`. -/
def isBuildIgnore (line : Text) : Bool :=
  match comment? line with
  | none => false
  | some comment =>
    match (after? "go:build" comment).or (after? "+build" comment) with
    | some (c :: rest) => isBlank c && occursAsWord "ignore".toList c rest
    | _ => false

/-- Whether a file keeps itself out of the build: a constraint before the package clause. -/
def buildIgnored (text : Text) : Bool :=
  ((lines text).takeWhile fun line => !startsWith "package " (trimStart line.body)).any fun line =>
    isBuildIgnore line.body

/-- Reads `//go:ahead import NAME=PATH`; the path may stand in double quotes. -/
def importAlias? (line : Text) : Option ImportAlias := do
  let rest ← blanks? (← (directive? (trimEnd line)).bind (after? "import"))
  let (label, rest) ← word? rest
  let rest := trimStart (← after? "=" (trimStart rest))
  let rest := (after? "\"" rest).getD rest
  let path := rest.takeWhile fun c => c != '"' && !isBlank c
  let left := rest.drop path.length
  if !path.isEmpty && (left = [] || left = ['"']) then some ⟨label, path⟩ else none

/-- The package names a helper file declares, in order. -/
def importAliases (text : Text) : List ImportAlias :=
  (lines text).filterMap fun line => importAlias? line.body

/-- The method name on a line that opens a generated region. -/
def regionBegin? (line : Text) : Option Text := do
  let name := trim (← after? regionBegin (trim line))
  if name.isEmpty then none else some name

/-- The line that closes a generated region. -/
def isRegionEnd (line : Text) : Bool := trim line = regionEnd.toList

/-- Whether a line of the text opens a generated region. -/
def anyRegionIn (text : Text) : Bool := (lines text).any fun line => (regionBegin? line.body).isSome

end Marker

end Prefill
