import Prefill.Text.Basic

/-!
UTF-8. Decoding reads one character at a time; where no character can be read, the longest start
of one is skipped, and the lossy reading puts one replacement character in its place.
-/

namespace Prefill.Text.Utf8

abbrev Bytes := List UInt8

def encode (text : Text) : Bytes := text.flatMap String.utf8EncodeChar

/-- How a character may go on after its first byte: the range of the second byte and the number of
bytes after the first. -/
structure Lead where
  low : UInt8
  high : UInt8
  more : Nat
  bits : Nat

/-- What a first byte of 0x80 or above announces. -/
def lead? (b : UInt8) : Option Lead :=
  if 0xc2 ≤ b && b ≤ 0xdf then some ⟨0x80, 0xbf, 1, b.toNat - 0xc0⟩
  else if b == 0xe0 then some ⟨0xa0, 0xbf, 2, 0⟩
  else if b == 0xed then some ⟨0x80, 0x9f, 2, 0xd⟩
  else if 0xe1 ≤ b && b ≤ 0xef then some ⟨0x80, 0xbf, 2, b.toNat - 0xe0⟩
  else if b == 0xf0 then some ⟨0x90, 0xbf, 3, 0⟩
  else if 0xf1 ≤ b && b ≤ 0xf3 then some ⟨0x80, 0xbf, 3, b.toNat - 0xf0⟩
  else if b == 0xf4 then some ⟨0x80, 0x8f, 3, 4⟩
  else none

/-- Reads `more` continuation bytes onto `bits`; the first of them must lie between `low` and
`high`. The character is missing when one does not fit; the rest starts at the byte that failed. -/
def continuation : (more : Nat) → (low high : UInt8) → (bits : Nat) → Bytes → Option Char × Bytes
  | 0, _, _, bits, rest => (some (Char.ofNat bits), rest)
  | _ + 1, _, _, _, [] => (none, [])
  | more + 1, low, high, bits, b :: rest =>
    if low ≤ b && b ≤ high then
      continuation more 0x80 0xbf (bits * 64 + (b.toNat - 0x80)) rest
    else (none, b :: rest)

/-- The first character, if the bytes start with one, and the bytes after it or after the
longest start of one. -/
def next (b : UInt8) (rest : Bytes) : Option Char × Bytes :=
  if b < 0x80 then (some (Char.ofNat b.toNat), rest)
  else
    match lead? b with
    | none => (none, rest)
    | some lead => continuation lead.more lead.low lead.high lead.bits rest

theorem continuation_length_le (more : Nat) (low high : UInt8) (bits : Nat) (bytes : Bytes) :
    (continuation more low high bits bytes).2.length ≤ bytes.length := by
  induction more generalizing low high bits bytes with
  | zero => simp [continuation]
  | succ more ih =>
    cases bytes with
    | nil => simp [continuation]
    | cons b rest =>
      unfold continuation
      split
      · exact Nat.le_succ_of_le (ih _ _ _ _)
      · exact Nat.le_refl _

theorem next_length_le (b : UInt8) (rest : Bytes) : (next b rest).2.length ≤ rest.length := by
  unfold next
  split
  · exact Nat.le_refl _
  · split
    · exact Nat.le_refl _
    · exact continuation_length_le _ _ _ _ _

/-- The text, if every byte belongs to a character. -/
def decode? : Bytes → Option Text
  | [] => some []
  | b :: rest =>
    match (next b rest).1 with
    | some c => (decode? (next b rest).2).map (c :: ·)
    | none => none
termination_by bytes => bytes.length
decreasing_by exact Nat.lt_succ_of_le (next_length_le b rest)

/-- The text, with a replacement character for each piece that is no character. -/
def decodeLossy : Bytes → Text
  | [] => []
  | b :: rest => (next b rest).1.getD '\uFFFD' :: decodeLossy (next b rest).2
termination_by bytes => bytes.length
decreasing_by exact Nat.lt_succ_of_le (next_length_le b rest)

end Prefill.Text.Utf8
