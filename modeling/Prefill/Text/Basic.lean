/-!
Source text. Text is a list of characters, so every scanner is a recursion on it; offsets are
counted in bytes of its UTF-8 form.
-/

namespace Prefill

/-- Text of a source file or a piece of it. -/
abbrev Text := List Char

namespace Text

/-- Closed ranges of code points, in ascending order. -/
abbrev Ranges := List (Nat × Nat)

/-- Whether a code point lies in one of the ranges. -/
def Ranges.has (ranges : Ranges) (code : Nat) : Bool :=
  ranges.any fun (first, last) => first ≤ code && code ≤ last

def isAsciiLetter (c : Char) : Bool := ('a' ≤ c && c ≤ 'z') || ('A' ≤ c && c ≤ 'Z')

def isAsciiDigit (c : Char) : Bool := '0' ≤ c && c ≤ '9'

/-- The characters of an ASCII identifier. -/
def isAsciiWordPart (c : Char) : Bool := isAsciiLetter c || isAsciiDigit c || c == '_'

/-- The first character of an ASCII identifier. -/
def isAsciiWordStart (c : Char) : Bool := isAsciiLetter c || c == '_'

/-- White space: the ASCII blanks, the next-line and no-break characters, and the spaces and
separators above them. The zero-width space and the byte-order mark are not blank. -/
def isBlank (c : Char) : Bool :=
  c == ' ' || ('\t' ≤ c && c ≤ '\r') ||
    (128 ≤ c.toNat &&
      Ranges.has [(0x85, 0x85), (0xa0, 0xa0), (0x1680, 0x1680), (0x2000, 0x200a),
        (0x2028, 0x2029), (0x202f, 0x202f), (0x205f, 0x205f), (0x3000, 0x3000)] c.toNat)

def trimStart (text : Text) : Text := text.dropWhile isBlank

def trimEnd (text : Text) : Text := (text.reverse.dropWhile isBlank).reverse

def trim (text : Text) : Text := trimEnd (trimStart text)

/-- Nothing but white space. -/
def blank (text : Text) : Bool := text.all isBlank

/-- The text after `lead`, when it starts with it. -/
def strip? : (lead text : Text) → Option Text
  | [], text => some text
  | _ :: _, [] => none
  | a :: lead, b :: text => if a = b then strip? lead text else none

theorem strip?_eq_some_iff {lead text tail : Text} :
    strip? lead text = some tail ↔ text = lead ++ tail := by
  fun_induction strip? lead text with
  | case1 => simp [eq_comm]
  | case2 => simp
  | case3 b lead text ih => simp [ih]
  | case4 a lead b text differ => simp [Ne.symm differ]

/-- The text after the string `lead`, when it starts with it. -/
def after? (lead : String) (text : Text) : Option Text := strip? lead.toList text

def startsWith (lead : String) (text : Text) : Bool := (after? lead text).isSome

/-- The text before `tail`, when it ends with it. -/
def before? (tail : String) (text : Text) : Option Text :=
  (strip? tail.toList.reverse text.reverse).map List.reverse

def endsWith (tail : String) (text : Text) : Bool := (before? tail text).isSome

/-- At least one blank, then the rest without leading blanks. -/
def blanks? : Text → Option Text
  | [] => none
  | c :: rest => if isBlank c then some (trimStart rest) else none

/-- Whether `needle` occurs in the text. -/
def occurs (needle : Text) : Text → Bool
  | [] => needle.isEmpty
  | c :: rest => (strip? needle (c :: rest)).isSome || occurs needle rest

/-- The text up to the first occurrence of `needle` and the text after it. -/
def cutAt? (needle : Text) : Text → Option (Text × Text)
  | [] => if needle.isEmpty then some ([], []) else none
  | c :: rest =>
    match strip? needle (c :: rest) with
    | some tail => some ([], tail)
    | none => (cutAt? needle rest).map fun cut => (c :: cut.1, cut.2)

theorem cutAt?_append {needle text front tail : Text} (h : cutAt? needle text = some (front, tail)) :
    text = front ++ needle ++ tail := by
  fun_induction cutAt? needle text generalizing front tail with
  | case1 => simp_all
  | case2 => simp_all
  | case3 c rest left found =>
    obtain ⟨rfl, rfl⟩ := by simpa using h
    simpa using strip?_eq_some_iff.1 found
  | case4 c rest _ ih =>
    obtain ⟨⟨front', tail'⟩, found, restEq⟩ := Option.map_eq_some_iff.1 h
    obtain ⟨rfl, rfl⟩ := by simpa using restEq
    simp [ih found]

/-- The pieces between the occurrences of `mark`; always at least one. -/
def pieces (mark : Char) : Text → List Text
  | [] => [[]]
  | c :: rest =>
    if c = mark then [] :: pieces mark rest
    else
      match pieces mark rest with
      | [] => [[c]]
      | piece :: more => (c :: piece) :: more

theorem pieces_ne_nil (mark : Char) (text : Text) : pieces mark text ≠ [] := by
  cases text with
  | nil => exact nofun
  | cons c rest =>
    unfold pieces
    split
    · exact nofun
    · split <;> exact nofun

/-- Pieces written one after the other with `mark` between them. -/
def joinWith (mark : String) (parts : List Text) : Text := mark.toList.intercalate parts

/-- The length of the UTF-8 form. -/
def byteLength : Text → Nat
  | [] => 0
  | c :: rest => c.utf8Size + byteLength rest

/-- Texts in the order of their code points, a text before what it begins. -/
def notAfter : Text → Text → Bool
  | [], _ => true
  | _ :: _, [] => false
  | a :: as, b :: bs => if a = b then notAfter as bs else a.toNat < b.toNat

/-- The text up to a byte offset and the text from it on. A character that the offset would cut
belongs to the second part. -/
def splitAtByte : Nat → Text → Text × Text
  | _, [] => ([], [])
  | offset, c :: rest =>
    if c.utf8Size ≤ offset then
      let (front, back) := splitAtByte (offset - c.utf8Size) rest
      (c :: front, back)
    else ([], c :: rest)

def takeBytes (offset : Nat) (text : Text) : Text := (splitAtByte offset text).1

def dropBytes (offset : Nat) (text : Text) : Text := (splitAtByte offset text).2

/-- The text between two byte offsets. -/
def slice (start stop : Nat) (text : Text) : Text := takeBytes (stop - start) (dropBytes start text)

/-- Text as a string, for messages. -/
def str (text : Text) : String := String.ofList text

/-- The value of a hexadecimal digit of either case. -/
def hexValue? (c : Char) : Option Nat :=
  if '0' ≤ c && c ≤ '9' then some (c.toNat - '0'.toNat)
  else if 'a' ≤ c && c ≤ 'f' then some (c.toNat - 'a'.toNat + 10)
  else if 'A' ≤ c && c ≤ 'F' then some (c.toNat - 'A'.toNat + 10)
  else none

/-- The lower-case hexadecimal digits of a number, padded with zeros to `width`. -/
def hex (width value : Nat) : Text :=
  let digits := Nat.toDigits 16 value
  List.replicate (width - digits.length) '0' ++ digits

end Text

end Prefill
