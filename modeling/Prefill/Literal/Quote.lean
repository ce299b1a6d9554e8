import Prefill.Text.Utf8

/-!
Go string literals. `quote` writes a value as an interpreted literal; `unquote?` reads an
interpreted or a raw literal back.
-/

namespace Prefill.Literal

open Text

/-- The control characters: those below the space, the delete character, and those from 0x80 to
0x9f. -/
def isControl (c : Char) : Bool := c.toNat < 0x20 || (0x7f ≤ c.toNat && c.toNat < 0xa0)

/-- One character of an interpreted literal. -/
def escape (c : Char) : Text :=
  match c with
  | '"' => ['\\', '"']
  | '\\' => ['\\', '\\']
  | '\n' => ['\\', 'n']
  | '\r' => ['\\', 'r']
  | '\t' => ['\\', 't']
  | '\x07' => ['\\', 'a']
  | '\x08' => ['\\', 'b']
  | '\x0b' => ['\\', 'v']
  | '\x0c' => ['\\', 'f']
  | c =>
    if c.toNat < 0x20 || c.toNat = 0x7f then '\\' :: 'x' :: hex 2 c.toNat
    else if isControl c then '\\' :: 'u' :: hex 4 c.toNat
    else [c]

/-- A value as an interpreted literal. -/
def quote (value : Text) : Text := '"' :: (value.flatMap escape ++ ['"'])

/-- The value of a digit in a base up to sixteen. -/
def digit? (base : Nat) (c : Char) : Option Nat :=
  (hexValue? c).bind fun value => if value < base then some value else none

/-- The number that digits denote; at least one digit. -/
def digits? (base : Nat) : Text → Option Nat
  | [] => none
  | text => text.foldlM (fun value c => (digit? base c).map (value * base + ·)) 0

/-- A number below `limit`; one plus sign may stand before its digits. -/
def number? (base limit : Nat) (text : Text) : Option Nat :=
  let value := match text with
    | '+' :: rest => digits? base rest
    | _ => digits? base text
  value.bind fun n => if n < limit then some n else none

/-- The next `count` characters and those after them. -/
def exactly? (count : Nat) (text : Text) : Option (Text × Text) :=
  if count ≤ text.length then some (text.take count, text.drop count) else none

/-- The character with a code point, if there is one. -/
def char? (code : Nat) : Option Char :=
  if code < 0xd800 || (0xdfff < code && code < 0x110000) then some (Char.ofNat code) else none

/-- The byte that a one-letter escape stands for. -/
def named? (c : Char) : Option UInt8 :=
  match c with
  | 'a' => some 0x07
  | 'b' => some 0x08
  | 'f' => some 0x0c
  | 'n' => some 0x0a
  | 'r' => some 0x0d
  | 't' => some 0x09
  | 'v' => some 0x0b
  | '\\' => some 0x5c
  | '"' => some 0x22
  | '\'' => some 0x27
  | _ => none

/-- How an escape is written: one letter, or a number of digits in a base, which gives one byte or
the UTF-8 form of a character. -/
inductive Escape where
  | byte (value : UInt8)
  | bytes (base count : Nat) (lead : Text)
  | point (count : Nat)

/-- The form of the escape that a character after a backslash opens. -/
def escapeForm? (c : Char) : Option Escape :=
  match named? c with
  | some value => some (.byte value)
  | none =>
    if c = 'x' then some (.bytes 16 2 [])
    else if c = 'u' then some (.point 4)
    else if c = 'U' then some (.point 8)
    else if '0' ≤ c && c ≤ '7' then some (.bytes 8 2 [c])
    else none

/-- The bytes of the escape that starts with `c`, and the text after it. -/
def unescape? (c : Char) (rest : Text) : Option (Utf8.Bytes × Text) := do
  match ← escapeForm? c with
  | .byte value => some ([value], rest)
  | .bytes base count lead =>
    let (digits, left) ← exactly? count rest
    let value ← number? base 256 (lead ++ digits)
    some ([value.toUInt8], left)
  | .point count =>
    let (digits, left) ← exactly? count rest
    let value ← (number? 16 0x100000000 digits).bind char?
    some (String.utf8EncodeChar value, left)

theorem exactly?_length {count : Nat} {text front back : Text}
    (h : exactly? count text = some (front, back)) : back.length ≤ text.length := by
  unfold exactly? at h
  split at h
  · obtain ⟨-, rfl⟩ := by simpa using h
    simp
  · simp at h

theorem unescape?_length {c : Char} {rest left : Text} {bytes : Utf8.Bytes}
    (h : unescape? c rest = some (bytes, left)) : left.length ≤ rest.length := by
  unfold unescape? at h
  obtain ⟨form, -, h⟩ := Option.bind_eq_some_iff.1 h
  cases form with
  | byte value =>
    obtain ⟨-, rfl⟩ := by simpa using h
    exact Nat.le_refl _
  | bytes base count lead =>
    obtain ⟨⟨digits, back⟩, taken, h⟩ := Option.bind_eq_some_iff.1 h
    obtain ⟨value, -, h⟩ := Option.bind_eq_some_iff.1 h
    obtain ⟨-, rfl⟩ := by simpa using h
    exact exactly?_length taken
  | point count =>
    obtain ⟨⟨digits, back⟩, taken, h⟩ := Option.bind_eq_some_iff.1 h
    obtain ⟨value, -, h⟩ := Option.bind_eq_some_iff.1 h
    obtain ⟨-, rfl⟩ := by simpa using h
    exact exactly?_length taken

/-- The bytes between the quotes of an interpreted literal. -/
def bytes? : Text → Option Utf8.Bytes
  | [] => some []
  | '\\' :: [] => none
  | '\\' :: c :: rest =>
    match _h : unescape? c rest with
    | none => none
    | some (bytes, left) => (bytes? left).map (bytes ++ ·)
  | c :: rest => (bytes? rest).map (String.utf8EncodeChar c ++ ·)
termination_by text => text.length
decreasing_by
  · have := unescape?_length _h
    simp only [List.length_cons]
    omega
  · simp

/-- What stands between two equal quotes. -/
def between? (mark : Char) : Text → Option Text
  | [] => none
  | c :: rest => if c = mark && rest.getLast? = some mark then some rest.dropLast else none

/-- The value of an interpreted or a raw literal. A raw literal loses its carriage returns; bytes
that form no character give a replacement character. -/
def unquote? (literal : Text) : Option Text :=
  match between? '`' literal with
  | some inner => some (inner.filter (· != '\r'))
  | none => ((between? '"' literal).bind bytes?).map Utf8.decodeLossy

end Prefill.Literal
