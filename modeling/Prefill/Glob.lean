import Prefill.Text.Utf8

/-!
Patterns for paths. A pattern is matched against the bytes of a whole path; a star matches any
bytes, slashes included. Two stars between slashes match any directories, none included.
-/

namespace Prefill

namespace Glob

open Text
open Text.Utf8 (Bytes)

inductive Token where
  | literal (c : Char)
  | anyByte
  | anyBytes
  /-- Two stars at the start: any directories, or a slash. -/
  | leading
  /-- Two stars at the end: everything below. -/
  | trailing
  /-- Two stars between slashes: any directories. -/
  | between
  | oneOf (negated : Bool) (ranges : List (Char × Char))
  | alternatives (branches : List (List Token))

/-- Why a pattern cannot be read. -/
inductive Fault where
  | unclosedClass
  | invalidRange (first last : Char)
  | unclosedGroup
  | unopenedGroup
  | danglingEscape
  deriving DecidableEq, Repr

def Fault.message : Fault → String
  | .unclosedClass => "unclosed character class; missing ']'"
  | .invalidRange first last =>
    "invalid range; '" ++ first.toString ++ "' > '" ++ last.toString ++ "'"
  | .unclosedGroup =>
    "unclosed alternate group; missing '\x7d' (maybe escape '\x7b' with '[\x7b]'?)"
  | .unopenedGroup =>
    "unopened alternate group; missing '\x7b' (maybe escape '\x7d' with '[\x7d]'?)"
  | .danglingEscape => "dangling '\\'"

/-- A group that is still open: what stands before it, and its finished branches. Lists of tokens
are kept in reverse while they grow. -/
structure Group where
  before : List Token
  branches : List (List Token)

/-- A pattern read in part: the tokens of the current branch, the open groups, the innermost first,
and the last character read. -/
structure Draft where
  tokens : List Token
  groups : List Group
  last : Option Char

namespace Draft

def start : Draft := ⟨[], [], none⟩

/-- With one more token, which ends with the given character. -/
def push (p : Draft) (token : Token) (last : Char) : Draft :=
  ⟨token :: p.tokens, p.groups, some last⟩

/-- With a new group open. -/
def openGroup (p : Draft) : Draft := ⟨[], ⟨p.tokens, []⟩ :: p.groups, some '\x7b'⟩

/-- With the innermost group closed. -/
def closeGroup (p : Draft) : Except Fault Draft :=
  match p.groups with
  | [] => .error .unopenedGroup
  | group :: rest =>
    let branches := group.branches ++ [p.tokens.reverse]
    .ok ⟨.alternatives branches :: group.before, rest, some '\x7d'⟩

/-- A comma divides branches inside a group and is a character outside. -/
def comma (p : Draft) : Draft :=
  match p.groups with
  | [] => p.push (.literal ',') ','
  | group :: rest =>
    ⟨[], ⟨group.before, group.branches ++ [p.tokens.reverse]⟩ :: rest, some ','⟩

/-- Two stars that stand for two single ones. -/
def plainStars (p : Draft) : Draft := (p.push .anyBytes '*').push .anyBytes '*'

/-- Two stars after a slash, in place of the token before them; the slash or the end decides what
they stand for. -/
def recursive (p : Draft) (token : Token) (last : Char) : Draft :=
  match p.tokens with
  | .leading :: _ => { p with last := some last }
  | .trailing :: _ => { p with last := some last }
  | _ :: before => ⟨token :: before, p.groups, some last⟩
  | [] => ⟨[token], p.groups, some last⟩

/-- Reads what follows two stars. -/
def doubleStar (p : Draft) (rest : Text) : Draft × Text :=
  if p.tokens.isEmpty then
    match rest with
    | [] => (p.push .leading '*', [])
    | '/' :: rest => (p.push .leading '/', rest)
    | rest => (p.plainStars, rest)
  else if p.last != some '/' then (p.plainStars, rest)
  else
    match rest with
    | [] => (p.recursive .trailing '*', [])
    | '/' :: rest => (p.recursive .between '/', rest)
    | c :: rest =>
      if (c = ',' || c = '\x7d') && !p.groups.isEmpty then (p.recursive .trailing '*', c :: rest)
      else (p.plainStars, c :: rest)

end Draft

/-- Puts the end of the last range of a class, given in reverse. -/
def endRange (c : Char) : List (Char × Char) → Except Fault (List (Char × Char))
  | [] => .ok []
  | (first, _) :: rest =>
    if c < first then .error (.invalidRange first c) else .ok ((first, c) :: rest)

/-- Reads the ranges of a class, in reverse, up to its closing bracket. A bracket or a hyphen that
comes first stands for itself, and so does a hyphen that comes last. -/
def readRanges (isFirst inRange : Bool) (ranges : List (Char × Char)) :
    Text → Except Fault (List (Char × Char) × Text)
  | [] => .error .unclosedClass
  | c :: rest =>
    if c = ']' && !isFirst then .ok (if inRange then ('-', '-') :: ranges else ranges, rest)
    else if c = '-' && !isFirst && !inRange then readRanges false true ranges rest
    else if inRange then
      match endRange c ranges with
      | .ok ranges => readRanges false false ranges rest
      | .error fault => .error fault
    else readRanges false false ((c, c) :: ranges) rest

/-- Reads a class after its opening bracket. -/
def readClass (text : Text) : Except Fault (Token × Text) :=
  let (negated, body) := match text with
    | '!' :: rest => (true, rest)
    | '^' :: rest => (true, rest)
    | rest => (false, rest)
  match readRanges true false [] body with
  | .ok (ranges, rest) => .ok (.oneOf negated ranges.reverse, rest)
  | .error fault => .error fault

/-- Reads a pattern; every step takes a character, so the length of the text is enough fuel. -/
def read : (fuel : Nat) → Draft → Text → Except Fault Draft
  | 0, p, _ => .ok p
  | _ + 1, p, [] => .ok p
  | fuel + 1, p, c :: rest =>
    match c with
    | '?' => read fuel (p.push .anyByte '?') rest
    | '*' =>
      match rest with
      | '*' :: rest =>
        let (p, rest) := p.doubleStar rest
        read fuel p rest
      | rest => read fuel (p.push .anyBytes '*') rest
    | '[' =>
      match readClass rest with
      | .ok (token, rest) => read fuel (p.push token ']') rest
      | .error fault => .error fault
    | '\x7b' => read fuel p.openGroup rest
    | '\x7d' =>
      match p.closeGroup with
      | .ok p => read fuel p rest
      | .error fault => .error fault
    | ',' => read fuel p.comma rest
    | '\\' =>
      match rest with
      | [] => .error .danglingEscape
      | c :: rest => read fuel (p.push (.literal c) c) rest
    | c => read fuel (p.push (.literal c) c) rest

/-- All ends of a list, itself included. -/
def ends : Bytes → List Bytes
  | [] => [[]]
  | b :: rest => (b :: rest) :: ends rest

/-- What follows each slash. -/
def afterSlashes : Bytes → List Bytes
  | [] => []
  | b :: rest => if b = 0x2f then rest :: afterSlashes rest else afterSlashes rest

/-- The bytes in a range of a class. The ends of a range are characters; of a character of several
bytes, the last byte begins a range, the first byte ends one, and the others stand alone. -/
def inRange (b : UInt8) (range : Char × Char) : Bool :=
  let first := Utf8.encode [range.1]
  let last := Utf8.encode [range.2]
  if range.1 = range.2 then first.contains b
  else
    first.dropLast.contains b || last.tail.contains b ||
      match first.getLast?, last.head? with
      | some low, some high => low ≤ b && b ≤ high
      | _, _ => false

mutual

/-- Whether a token leaves nothing to match: a group without a branch that has something. -/
def Token.isVoid : Token → Bool
  | .alternatives branches => allVoid branches
  | _ => false

def tokensVoid : List Token → Bool
  | [] => true
  | token :: rest => token.isVoid && tokensVoid rest

def allVoid : List (List Token) → Bool
  | [] => true
  | branch :: rest => tokensVoid branch && allVoid rest

end

mutual

/-- What may be left of some bytes after a token. Branches with nothing in them are passed over. -/
def Token.rests (bytes : Bytes) : Token → List Bytes
  | .literal c =>
    match (Utf8.encode [c]).isPrefixOf bytes with
    | true => [bytes.drop (Utf8.encode [c]).length]
    | false => []
  | .anyByte => if bytes.isEmpty then [] else [bytes.tail]
  | .anyBytes => ends bytes
  | .leading => bytes :: (if bytes.head? = some 0x2f then [bytes.drop 1] else []) ++ afterSlashes bytes
  | .trailing => if bytes.head? = some 0x2f then ends (bytes.drop 1) else []
  | .between =>
    if bytes.head? = some 0x2f then bytes.drop 1 :: afterSlashes (bytes.drop 1) else []
  | .oneOf negated ranges =>
    match bytes with
    | [] => []
    | b :: rest => if ranges.any (inRange b) != negated then [rest] else []
  | .alternatives branches =>
    if allVoid branches then [bytes] else branchRests [bytes] branches

/-- What may be left of each of some bytes after tokens. -/
def restsOf (starts : List Bytes) : List Token → List Bytes
  | [] => starts
  | token :: rest => restsOf (starts.flatMap fun bytes => token.rests bytes).eraseDups rest

def branchRests (starts : List Bytes) : List (List Token) → List Bytes
  | [] => []
  | branch :: rest =>
    (if tokensVoid branch then [] else restsOf starts branch) ++ branchRests starts rest

end

end Glob

/-- A pattern that has been read. -/
structure Glob where
  tokens : List Glob.Token

namespace Glob

open Text

/-- Reads a pattern. -/
def ofText (text : Text) : Except Fault Glob :=
  match read text.length .start text with
  | .error fault => .error fault
  | .ok p => if p.groups.isEmpty then .ok ⟨p.tokens.reverse⟩ else .error .unclosedGroup

/-- Whether a pattern matches a whole path. Two leading stars alone match everything. -/
def isMatch (glob : Glob) (path : Text) : Bool :=
  match glob.tokens with
  | [.leading] => true
  | tokens => (restsOf [Utf8.encode path] tokens).contains []

end Glob

end Prefill
