import Prefill.Text.Letter
import Prefill.Text.Utf8

/-!
Tokens of one line of Go, as far as replacing literals needs them: strings, runes, numbers, names
and single characters of punctuation. Blanks and closed block comments separate tokens; a line
comment, or a block comment that is not closed, ends the scan.

The scan goes over the bytes of the UTF-8 form. What looks for ASCII characters steps by bytes, and
what looks at others reads the text from where it stands. A part of the text can only be read where
it starts and ends between two characters; otherwise the scan has no result.
-/

namespace Prefill

open Text

namespace Token

inductive Kind where
  | string
  | rune
  | number
  | name
  | punctuation
  deriving DecidableEq, Repr

end Token

/-- A token and its byte range in the scanned text. -/
structure Token where
  kind : Token.Kind
  text : Text
  start : Nat
  stop : Nat
  deriving DecidableEq, Repr

namespace Token

/-- The blanks between tokens. -/
def isGap (c : Char) : Bool := c == ' ' || c == '\t' || c == '\r' || c == '\n'

/-- The characters that start a name. -/
def isNameStart (c : Char) : Bool := isAlphabetic c || c == '_'

/-- The characters that continue a name. -/
def isNamePart (c : Char) : Bool := isAlphanumeric c || c == '_'

/-- Whether the digits read so far are hexadecimal without an exponent. -/
def isHex (digits : Text) : Bool :=
  match digits with
  | '0' :: x :: _ => (x == 'x' || x == 'X') && !digits.contains 'p'
  | _ => false

/-- A sign belongs to a number right after the letter of an exponent. -/
def isExponentSign (digits : Text) (c : Char) : Bool :=
  (c == '+' || c == '-') &&
    (digits.getLast?.any fun e => e == 'e' || e == 'E' || e == 'p' || e == 'P') && !isHex digits

/-- The character of an ASCII byte. Any other byte gives a character above ASCII, so it is taken for
none that the scan looks for. -/
def asChar (b : UInt8) : Char := Char.ofNat b.toNat

/-- The length of a quoted literal after its opening quote, up to the closing one or the end of the
text. A backslash takes the next byte with it, which may be the first of several that make up a
character. -/
def quotedLength (quote : Char) : Utf8.Bytes → Nat
  | [] => 0
  | b :: rest =>
    if asChar b = '\\' then
      match rest with
      | [] => 1
      | _ :: rest => quotedLength quote rest + 2
    else if asChar b = quote then 1
    else quotedLength quote rest + 1

/-- The length of the rest of a number whose first bytes have been read. -/
def numberLength (read : Utf8.Bytes) : Utf8.Bytes → Nat
  | [] => 0
  | b :: rest =>
    if isAsciiWordPart (asChar b) || asChar b == '.' ||
        isExponentSign (read.map asChar) (asChar b) then
      numberLength (read ++ [b]) rest + 1
    else 0

/-- What the scan comes upon. -/
inductive Found where
  /-- The scan ends here. -/
  | ending
  /-- A token of some length, or a gap between tokens when it has no kind. -/
  | piece (kind : Option Kind) (length : Nat)

/-- What stands at a byte; there is no result where a part of the text cannot be read. -/
def look? (b : UInt8) (rest : Utf8.Bytes) : Option Found :=
  let here := asChar b
  let next := rest.head?.map asChar
  if isGap here then some (.piece none 1)
  else if here = '/' ∧ next = some '/' then some .ending
  else if here = '/' ∧ next = some '*' then
    (Utf8.decode? rest.tail).map fun inner =>
      match cutAt? "*/".toList inner with
      | some cut => .piece none (byteLength cut.1 + 4)
      | none => .ending
  else if here = '"' then some (.piece (some .string) (quotedLength here rest + 1))
  else if here = '\'' then some (.piece (some .rune) (quotedLength here rest + 1))
  else if here = '`' then
    (Utf8.decode? rest).map fun inner =>
      match cutAt? ['`'] inner with
      | some cut => .piece (some .string) (byteLength cut.1 + 2)
      | none => .piece (some .string) (rest.length + 1)
  else if isAsciiDigit here || (here = '.' && next.any isAsciiDigit) then
    some (.piece (some .number) (numberLength [] (b :: rest)))
  else
    (Utf8.decode? (b :: rest)).map fun text =>
      match text with
      | [] => .ending
      | c :: _ =>
        if isNameStart c then .piece (some .name) (byteLength (text.takeWhile isNamePart))
        else .piece (some .punctuation) c.utf8Size

theorem isNamePart_of_isNameStart {c : Char} (h : isNameStart c = true) : isNamePart c = true := by
  obtain letter | underscore := Bool.or_eq_true .. |>.mp h
  · simp [isNamePart, isAlphanumeric, letter]
  · simp [isNamePart, underscore]

theorem numberLength_pos {b : UInt8} (h : isAsciiDigit (asChar b) = true ∨ asChar b = '.')
    (read rest : Utf8.Bytes) : 0 < numberLength read (b :: rest) := by
  have first : (isAsciiWordPart (asChar b) || asChar b == '.') = true := by
    obtain digit | point := h
    · simp [isAsciiWordPart, digit]
    · simp [point]
  rw [numberLength, if_pos (by simp [first])]
  exact Nat.succ_pos _

/-- Every piece is at least one byte long. -/
theorem look?_length_pos {b : UInt8} {rest : Utf8.Bytes} {kind : Option Kind} {length : Nat}
    (h : look? b rest = some (.piece kind length)) : 0 < length := by
  unfold look? at h
  dsimp only at h
  split at h
  · cases h
    exact Nat.one_pos
  split at h
  · cases h
  split at h
  · obtain ⟨inner, -, shown⟩ := Option.map_eq_some_iff.mp h
    split at shown <;> cases shown
    exact Nat.succ_pos _
  split at h
  · cases h
    exact Nat.succ_pos _
  split at h
  · cases h
    exact Nat.succ_pos _
  split at h
  · obtain ⟨inner, -, shown⟩ := Option.map_eq_some_iff.mp h
    split at shown <;> cases shown <;> exact Nat.succ_pos _
  split at h
  · rename_i number
    cases h
    refine numberLength_pos ?_ [] rest
    obtain digit | point := Bool.or_eq_true .. |>.mp number
    · exact .inl digit
    · exact .inr (of_decide_eq_true (Bool.and_eq_true .. |>.mp point).1)
  · obtain ⟨text, -, shown⟩ := Option.map_eq_some_iff.mp h
    split at shown
    · cases shown
    · rename_i c after
      split at shown
      · rename_i start
        cases shown
        rw [List.takeWhile_cons, if_pos (isNamePart_of_isNameStart start)]
        exact Nat.add_pos_left c.utf8Size_pos _
      · cases shown
        exact c.utf8Size_pos

/-- The tokens of some bytes that stand at an offset. -/
def scanFrom? (offset : Nat) : Utf8.Bytes → Option (List Token)
  | [] => some []
  | b :: rest =>
    match _h : look? b rest with
    | none => none
    | some .ending => some []
    | some (.piece kind length) => do
      let more ← scanFrom? (offset + length) ((b :: rest).drop length)
      match kind with
      | none => return more
      | some kind =>
        let text ← Utf8.decode? ((b :: rest).take length)
        return ⟨kind, text, offset, offset + length⟩ :: more
termination_by bytes => bytes.length
decreasing_by
  have advances := look?_length_pos _h
  rw [List.length_drop, List.length_cons]
  omega

/-- A scan of a text. -/
def scan? (text : Text) : Option (List Token) := scanFrom? 0 (Utf8.encode text)

/-- The tokens of a text, in order. -/
def tokenize (text : Text) : List Token := (scan? text).getD []

end Token

end Prefill
