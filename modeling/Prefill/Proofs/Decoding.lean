import Prefill.Proofs.Encoding

/-!
Writing what was read. Bytes that are read as a text are the UTF-8 form of that text, so a text has
one form and bytes are valid exactly when they are the form of a text.

* `encodeChar_of_next`: the bytes that one character was read from;
* `decode?_eq_some_iff`, `decode?_encode_append`: the bytes of a text;
* `mem_encode_iff`, `getLast?_encode_iff`: ASCII bytes are ASCII characters of the text.
-/

namespace Prefill.Text.Utf8

/-! ## One character -/

theorem val_ofNat {v : Nat} (valid : v.isValidChar) : (Char.ofNat v).val.toNat = v := by
  rw [Char.ofNat, dif_pos valid]
  rfl

theorem encodeChar_two {a n : Nat} (above : 2 ≤ a) (first : a < 32) (last : n < 64) :
    String.utf8EncodeChar (Char.ofNat (a * 64 + n)) =
      [UInt8.ofNat (a + 192), UInt8.ofNat (n + 128)] := by
  rw [String.utf8EncodeChar, val_ofNat (.inl (by omega)), if_neg (by omega), if_pos (by omega)]
  congr 2
  · omega
  · congr 1
    omega

theorem encodeChar_three {a n m : Nat} (first : a < 16) (second : n < 64) (last : m < 64)
    (above : 2047 < (a * 64 + n) * 64 + m) (valid : ((a * 64 + n) * 64 + m).isValidChar) :
    String.utf8EncodeChar (Char.ofNat ((a * 64 + n) * 64 + m)) =
      [UInt8.ofNat (a + 224), UInt8.ofNat (n + 128), UInt8.ofNat (m + 128)] := by
  have parts : ((a * 64 + n) * 64 + m) / 4096 % 16 = a ∧ ((a * 64 + n) * 64 + m) / 64 % 64 = n ∧
      ((a * 64 + n) * 64 + m) % 64 = m := by omega
  rw [String.utf8EncodeChar, val_ofNat valid, if_neg (by omega), if_neg (by omega),
    if_pos (by omega), parts.1, parts.2.1, parts.2.2]

theorem encodeChar_four {a n m k : Nat} (first : a < 8) (second : n < 64) (third : m < 64)
    (last : k < 64) (above : 65535 < ((a * 64 + n) * 64 + m) * 64 + k)
    (valid : (((a * 64 + n) * 64 + m) * 64 + k).isValidChar) :
    String.utf8EncodeChar (Char.ofNat (((a * 64 + n) * 64 + m) * 64 + k)) =
      [UInt8.ofNat (a + 240), UInt8.ofNat (n + 128), UInt8.ofNat (m + 128),
        UInt8.ofNat (k + 128)] := by
  have parts : (((a * 64 + n) * 64 + m) * 64 + k) / 262144 % 8 = a ∧
      (((a * 64 + n) * 64 + m) * 64 + k) / 4096 % 64 = n ∧
      (((a * 64 + n) * 64 + m) * 64 + k) / 64 % 64 = m ∧
      (((a * 64 + n) * 64 + m) * 64 + k) % 64 = k := by omega
  rw [String.utf8EncodeChar, val_ofNat valid, if_neg (by omega), if_neg (by omega),
    if_neg (by omega), parts.1, parts.2.1, parts.2.2.1, parts.2.2.2]

/-- A byte after the first one was read for its six bits. -/
theorem exists_of_continuation {more bits : Nat} {low high : UInt8} {bytes tail : Bytes} {c : Char}
    (bottom : 0x80 ≤ low.toNat) (top : high.toNat ≤ 0xbf)
    (h : continuation (more + 1) low high bits bytes = (some c, tail)) :
    ∃ n rest, bytes = UInt8.ofNat (n + 128) :: rest ∧ n < 64 ∧ low.toNat ≤ n + 128 ∧
      n + 128 ≤ high.toNat ∧ continuation more 0x80 0xbf (bits * 64 + n) rest = (some c, tail) := by
  cases bytes with
  | nil => cases h
  | cons b rest =>
    rw [continuation] at h
    split at h
    · rename_i inRange
      simp only [Bool.and_eq_true, decide_eq_true_eq, UInt8.le_iff_toNat_le] at inRange
      have value : b.toNat - 128 + 128 = b.toNat := by omega
      refine ⟨b.toNat - 128, rest, ?_, ?_, ?_, ?_, h⟩
      · rw [value, UInt8.ofNat_toNat]
      all_goals omega
    · cases h

section

variable {a : Nat} {low high : UInt8} {bytes tail : Bytes} {c : Char}
  (bottom : 0x80 ≤ low.toNat) (top : high.toNat ≤ 0xbf)

include bottom top

theorem two_of_continuation (above : 2 ≤ a) (first : a < 32)
    (h : continuation 1 low high a bytes = (some c, tail)) :
    UInt8.ofNat (a + 192) :: bytes = String.utf8EncodeChar c ++ tail := by
  obtain ⟨n, rest, rfl, last, -, -, h⟩ := exists_of_continuation bottom top h
  obtain ⟨rfl, rfl⟩ := by simpa [continuation] using h
  rw [encodeChar_two above first last]
  rfl

/-- After the least first byte the second may not be small, after that of the surrogates not
large. -/
theorem three_of_continuation (first : a < 16) (least : a = 0 → 0xa0 ≤ low.toNat)
    (surrogates : a = 13 → high.toNat ≤ 0x9f)
    (h : continuation 2 low high a bytes = (some c, tail)) :
    UInt8.ofNat (a + 224) :: bytes = String.utf8EncodeChar c ++ tail := by
  obtain ⟨n, rest, rfl, second, atLeast, atMost, h⟩ := exists_of_continuation bottom top h
  obtain ⟨m, rest, rfl, last, -, -, h⟩ := exists_of_continuation (by decide) (by decide) h
  obtain ⟨rfl, rfl⟩ := by simpa [continuation] using h
  have valid : ((a * 64 + n) * 64 + m).isValidChar := by
    rw [Nat.isValidChar]
    omega
  rw [encodeChar_three first second last (by omega) valid]
  rfl

theorem four_of_continuation (first : a ≤ 4) (least : a = 0 → 0x90 ≤ low.toNat)
    (greatest : a = 4 → high.toNat ≤ 0x8f)
    (h : continuation 3 low high a bytes = (some c, tail)) :
    UInt8.ofNat (a + 240) :: bytes = String.utf8EncodeChar c ++ tail := by
  obtain ⟨n, rest, rfl, second, atLeast, atMost, h⟩ := exists_of_continuation bottom top h
  obtain ⟨m, rest, rfl, third, -, -, h⟩ := exists_of_continuation (by decide) (by decide) h
  obtain ⟨k, rest, rfl, last, -, -, h⟩ := exists_of_continuation (by decide) (by decide) h
  obtain ⟨rfl, rfl⟩ := by simpa [continuation] using h
  have valid : (((a * 64 + n) * 64 + m) * 64 + k).isValidChar := by
    rw [Nat.isValidChar]
    omega
  rw [encodeChar_four (by omega) second third last (by omega) valid]
  rfl

end

/-- **The bytes of a character** are those it was read from. -/
theorem encodeChar_of_next {b : UInt8} {rest tail : Bytes} {c : Char}
    (h : next b rest = (some c, tail)) : b :: rest = String.utf8EncodeChar c ++ tail := by
  have below := b.toNat_lt
  have same : UInt8.ofNat b.toNat = b := UInt8.ofNat_toNat
  rw [next] at h
  split at h
  · rename_i ascii
    rw [UInt8.lt_iff_toNat_lt] at ascii
    obtain ⟨rfl, rfl⟩ := by simpa using h
    have small : b.toNat ≤ 127 := Nat.le_of_lt_succ ascii
    rw [String.utf8EncodeChar, val_ofNat (.inl (by omega)), if_pos small, same]
    rfl
  · split at h
    · cases h
    · rename_i lead announced
      have table := lead?_ofNat below
      rw [same, announced] at table
      generalize b.toNat = n at same below table
      subst same
      have free : 0x80 ≤ UInt8.toNat 0x80 ∧ UInt8.toNat 0xbf ≤ 0xbf := by decide
      -- One row for each way in which a first byte bounds the second.
      split at table
      · obtain rfl := Option.some.inj table
        have first : n = n - 0xc0 + 192 := by omega
        rw [first]
        exact two_of_continuation free.1 free.2 (by omega) (by omega) h
      split at table
      · obtain rfl := Option.some.inj table
        subst n
        exact three_of_continuation (by decide) (by decide) (by decide) (by decide) (by decide) h
      split at table
      · obtain rfl := Option.some.inj table
        subst n
        exact three_of_continuation (by decide) (by decide) (by decide) (by decide) (by decide) h
      split at table
      · obtain rfl := Option.some.inj table
        have first : n = n - 0xe0 + 224 := by omega
        rw [first]
        exact three_of_continuation free.1 free.2 (by omega) (by omega) (by omega) h
      split at table
      · obtain rfl := Option.some.inj table
        subst n
        exact four_of_continuation (by decide) (by decide) (by decide) (by decide) (by decide) h
      split at table
      · obtain rfl := Option.some.inj table
        have first : n = n - 0xf0 + 240 := by omega
        rw [first]
        exact four_of_continuation free.1 free.2 (by omega) (by omega) (by omega) h
      split at table
      · obtain rfl := Option.some.inj table
        subst n
        exact four_of_continuation (by decide) (by decide) (by decide) (by decide) (by decide) h
      · cases table

/-! ## Texts -/

theorem encode_append (front back : Text) : encode (front ++ back) = encode front ++ encode back :=
  List.flatMap_append

theorem encode_ne_nil {text : Text} (h : text ≠ []) : encode text ≠ [] := by
  obtain ⟨c, rest, rfl⟩ := List.exists_cons_of_ne_nil h
  obtain ⟨b, more, bytes, -⟩ := next_encodeChar c []
  simp [encode_cons, bytes]

theorem encode_of_decode? {bytes : Bytes} {text : Text} (h : decode? bytes = some text) :
    encode text = bytes := by
  induction bytes using decode?.induct generalizing text with
  | case1 =>
    rw [decode?] at h
    obtain rfl := Option.some.inj h
    rfl
  | case2 b rest c read ih =>
    rw [decode?, read] at h
    obtain ⟨more, decoded, rfl⟩ := Option.map_eq_some_iff.mp h
    rw [encode_cons, ih decoded]
    exact (encodeChar_of_next (Prod.ext read rfl)).symm
  | case3 b rest unread =>
    rw [decode?, unread] at h
    cases h

/-- **Valid bytes.** Bytes are read as a text exactly when they are its UTF-8 form. -/
theorem decode?_eq_some_iff {bytes : Bytes} {text : Text} :
    decode? bytes = some text ↔ bytes = encode text := by
  constructor
  · intro decoded
    exact (encode_of_decode? decoded).symm
  · rintro rfl
    exact decode?_encode text

/-- Bytes behind a text are valid exactly when they are valid alone. -/
theorem decode?_encode_append (text : Text) (rest : Bytes) :
    decode? (encode text ++ rest) = (decode? rest).map (text ++ ·) := by
  induction text with
  | nil => simp [encode]
  | cons c text ih =>
    obtain ⟨b, more, bytes, read⟩ := next_encodeChar c (encode text ++ rest)
    rw [encode_cons, bytes, List.append_assoc, List.cons_append, decode?, read]
    simp [ih, Function.comp_def]

/-- The form of a character that is not ASCII has no ASCII byte. -/
theorem high_of_mem_encodeChar {c : Char} (notAscii : ¬ c.val.toNat ≤ 127) {b : UInt8}
    (member : b ∈ String.utf8EncodeChar c) : 128 ≤ b.toNat := by
  have high {n : Nat} (above : 128 ≤ n) (below : n < 256) : 128 ≤ (UInt8.ofNat n).toNat := by
    rwa [toNat_ofNat below]
  rw [String.utf8EncodeChar, if_neg notAscii] at member
  split at member
  · simp only [List.mem_cons, List.not_mem_nil, or_false] at member
    obtain rfl | rfl := member <;> exact high (by omega) (by omega)
  · split at member
    · simp only [List.mem_cons, List.not_mem_nil, or_false] at member
      obtain rfl | rfl | rfl := member <;> exact high (by omega) (by omega)
    · simp only [List.mem_cons, List.not_mem_nil, or_false] at member
      obtain rfl | rfl | rfl | rfl := member <;> exact high (by omega) (by omega)

/-- An ASCII byte stands in the form of one character only. -/
theorem eq_of_mem_encodeChar {c d : Char} {b : UInt8} (member : b ∈ String.utf8EncodeChar c)
    (ascii : d.toNat < 0x80) (same : b.toNat = d.toNat) : c = d := by
  by_cases small : c.val.toNat ≤ 127
  · rw [String.utf8EncodeChar, if_pos small] at member
    obtain rfl := List.mem_singleton.mp member
    rw [toNat_ofNat (by omega)] at same
    rw [← Char.ofNat_toNat c, ← Char.ofNat_toNat d]
    exact congrArg Char.ofNat same
  · have high := high_of_mem_encodeChar small member
    omega

section

variable {d : Char} {b : UInt8} (ascii : d.toNat < 0x80) (same : b = UInt8.ofNat d.toNat)

include ascii same

/-- The ASCII bytes of a form are the ASCII characters of the text. -/
theorem mem_encode_iff {text : Text} : b ∈ encode text ↔ d ∈ text := by
  subst same
  constructor
  · intro member
    obtain ⟨c, inText, inForm⟩ := List.mem_flatMap.mp member
    exact eq_of_mem_encodeChar inForm ascii (toNat_ofNat (by omega)) ▸ inText
  · intro member
    exact List.mem_flatMap.mpr ⟨d, member, by simp [encodeChar_ascii ascii]⟩

/-- A form ends in an ASCII byte where the text ends in that character. -/
theorem getLast?_encode_iff {text : Text} :
    (encode text).getLast? = some b ↔ text.getLast? = some d := by
  subst same
  obtain rfl | ⟨front, c, rfl⟩ := List.eq_nil_or_concat text
  · simp [encode]
  · obtain ⟨first, more, bytes, -⟩ := next_encodeChar c []
    have last : (encode (front.concat c)).getLast? = (String.utf8EncodeChar c).getLast? := by
      rw [List.concat_eq_append, encode_append, encode_cons, bytes]
      simp [encode, List.getLast?_append, List.getLast?_cons]
    rw [last, List.concat_eq_append, List.getLast?_concat, Option.some.injEq]
    constructor
    · intro isLast
      exact eq_of_mem_encodeChar (List.mem_of_getLast? isLast) ascii (toNat_ofNat (by omega))
    · rintro rfl
      rw [encodeChar_ascii ascii]
      rfl

end

end Prefill.Text.Utf8
