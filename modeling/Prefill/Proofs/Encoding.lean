import Prefill.Text.Utf8

/-!
Reading what was written. The UTF-8 form of a text is read back as that text, by the strict reading
and by the lossy one.

* `next_encodeChar`: the bytes of one character, one lemma for each number of bytes;
* `decode?_encode`, `decodeLossy_encode`: the bytes of a text.
-/

namespace Prefill.Text.Utf8

theorem toNat_ofNat {n : Nat} (h : n < 256) : (UInt8.ofNat n).toNat = n := by
  simpa using Nat.mod_eq_of_lt h

/-- A byte after the first one adds six bits. -/
theorem continuation_byte {more n bits : Nat} {low high : UInt8} (six : n < 64)
    (bottom : low.toNat ≤ n + 128) (top : n + 128 ≤ high.toNat) (rest : Bytes) :
    continuation (more + 1) low high bits (UInt8.ofNat (n + 128) :: rest) =
      continuation more 0x80 0xbf (bits * 64 + n) rest := by
  have value : (UInt8.ofNat (n + 128)).toNat = n + 128 := toNat_ofNat (by omega)
  have inRange : (low ≤ UInt8.ofNat (n + 128) && UInt8.ofNat (n + 128) ≤ high) = true := by
    simpa only [Bool.and_eq_true, decide_eq_true_eq, UInt8.le_iff_toNat_le, value] using
      And.intro bottom top
  rw [continuation, if_pos inRange, value, Nat.add_sub_cancel]

/-- A byte after the second one may have any six bits. -/
theorem continuation_free {more n bits : Nat} (six : n < 64) (rest : Bytes) :
    continuation (more + 1) 0x80 0xbf bits (UInt8.ofNat (n + 128) :: rest) =
      continuation more 0x80 0xbf (bits * 64 + n) rest := by
  have top : UInt8.toNat 0xbf = 191 := rfl
  exact continuation_byte six (Nat.le_add_left ..) (by omega) rest

/-- What the first byte of a character announces, by its value. -/
theorem lead?_ofNat {n : Nat} (h : n < 256) :
    lead? (UInt8.ofNat n) =
      if 0xc2 ≤ n ∧ n ≤ 0xdf then some ⟨0x80, 0xbf, 1, n - 0xc0⟩
      else if n = 0xe0 then some ⟨0xa0, 0xbf, 2, 0⟩
      else if n = 0xed then some ⟨0x80, 0x9f, 2, 0xd⟩
      else if 0xe1 ≤ n ∧ n ≤ 0xef then some ⟨0x80, 0xbf, 2, n - 0xe0⟩
      else if n = 0xf0 then some ⟨0x90, 0xbf, 3, 0⟩
      else if 0xf1 ≤ n ∧ n ≤ 0xf3 then some ⟨0x80, 0xbf, 3, n - 0xf0⟩
      else if n = 0xf4 then some ⟨0x80, 0x8f, 3, 4⟩
      else none := by
  have value := toNat_ofNat h
  simp only [lead?, UInt8.le_iff_toNat_le, beq_iff_eq, ← UInt8.toNat_inj, value, Bool.and_eq_true,
    decide_eq_true_eq]
  rfl

theorem next_one {v : Nat} (below : v ≤ 127) (rest : Bytes) :
    next (UInt8.ofNat v) rest = (some (Char.ofNat v), rest) := by
  have value := toNat_ofNat (n := v) (by omega)
  rw [next, if_pos, value]
  rw [UInt8.lt_iff_toNat_lt, value]
  exact Nat.lt_succ_of_le below

theorem next_lead {n : Nat} (above : 0x80 ≤ n) (below : n < 256) {lead : Lead}
    (h : lead? (UInt8.ofNat n) = some lead) (rest : Bytes) :
    next (UInt8.ofNat n) rest = continuation lead.more lead.low lead.high lead.bits rest := by
  rw [next, if_neg, h]
  rw [UInt8.lt_iff_toNat_lt, toNat_ofNat below, Nat.not_lt]
  exact above

theorem next_two {v : Nat} (above : 127 < v) (below : v ≤ 2047) (rest : Bytes) :
    next (UInt8.ofNat (v / 64 % 32 + 192)) (UInt8.ofNat (v % 64 + 128) :: rest) =
      (some (Char.ofNat v), rest) := by
  have first : v / 64 % 32 + 192 < 256 := by omega
  have lead := lead?_ofNat first
  rw [if_pos (by omega)] at lead
  have bits : (v / 64 % 32 + 192 - 192) * 64 + v % 64 = v := by omega
  rw [next_lead (by omega) first lead, continuation_free (Nat.mod_lt _ (by decide)), bits,
    continuation]

/-- The bytes after the first of three. -/
theorem continuation_two {v : Nat} {low high : UInt8} (bottom : low.toNat ≤ v / 64 % 64 + 128)
    (top : v / 64 % 64 + 128 ≤ high.toNat) (rest : Bytes) :
    continuation 2 low high (v / 4096)
        (UInt8.ofNat (v / 64 % 64 + 128) :: UInt8.ofNat (v % 64 + 128) :: rest) =
      (some (Char.ofNat v), rest) := by
  have bits : (v / 4096 * 64 + v / 64 % 64) * 64 + v % 64 = v := by omega
  rw [continuation_byte (Nat.mod_lt _ (by decide)) bottom top,
    continuation_free (Nat.mod_lt _ (by decide)), bits,
    continuation]

theorem next_three {v : Nat} (above : 2047 < v) (below : v ≤ 65535)
    (valid : v < 0xd800 ∨ 0xdfff < v) (rest : Bytes) :
    next (UInt8.ofNat (v / 4096 % 16 + 224))
        (UInt8.ofNat (v / 64 % 64 + 128) :: UInt8.ofNat (v % 64 + 128) :: rest) =
      (some (Char.ofNat v), rest) := by
  have first : v / 4096 % 16 + 224 < 256 := by omega
  have lead := lead?_ofNat first
  rw [if_neg (by omega)] at lead
  -- After the least first byte the second may not be small, after that of the surrogates not large.
  split at lead
  · have bits : v / 4096 = 0 := by omega
    rw [next_lead (by omega) first lead, ← bits]
    exact continuation_two (by simp; omega) (by simp; omega) rest
  · split at lead
    · have bits : v / 4096 = 0xd := by omega
      rw [next_lead (by omega) first lead, ← bits]
      exact continuation_two (by simp) (by simp; omega) rest
    · rw [if_pos (by omega)] at lead
      have bits : v / 4096 % 16 + 224 - 224 = v / 4096 := by omega
      rw [next_lead (by omega) first lead, bits]
      exact continuation_two (by simp) (by simp; omega) rest

/-- The bytes after the first of four. -/
theorem continuation_three {v : Nat} {low high : UInt8} (bottom : low.toNat ≤ v / 4096 % 64 + 128)
    (top : v / 4096 % 64 + 128 ≤ high.toNat) (rest : Bytes) :
    continuation 3 low high (v / 262144)
        (UInt8.ofNat (v / 4096 % 64 + 128) :: UInt8.ofNat (v / 64 % 64 + 128) ::
          UInt8.ofNat (v % 64 + 128) :: rest) =
      (some (Char.ofNat v), rest) := by
  have bits : ((v / 262144 * 64 + v / 4096 % 64) * 64 + v / 64 % 64) * 64 + v % 64 = v := by omega
  rw [continuation_byte (Nat.mod_lt _ (by decide)) bottom top,
    continuation_free (Nat.mod_lt _ (by decide)), continuation_free (Nat.mod_lt _ (by decide)), bits,
    continuation]

theorem next_four {v : Nat} (above : 65535 < v) (below : v < 0x110000) (rest : Bytes) :
    next (UInt8.ofNat (v / 262144 % 8 + 240))
        (UInt8.ofNat (v / 4096 % 64 + 128) :: UInt8.ofNat (v / 64 % 64 + 128) ::
          UInt8.ofNat (v % 64 + 128) :: rest) =
      (some (Char.ofNat v), rest) := by
  have first : v / 262144 % 8 + 240 < 256 := by omega
  have lead := lead?_ofNat first
  rw [if_neg (by omega), if_neg (by omega), if_neg (by omega), if_neg (by omega)] at lead
  split at lead
  · have bits : v / 262144 = 0 := by omega
    rw [next_lead (by omega) first lead, ← bits]
    exact continuation_three (by simp; omega) (by simp; omega) rest
  · split at lead
    · have bits : v / 262144 % 8 + 240 - 240 = v / 262144 := by omega
      rw [next_lead (by omega) first lead, bits]
      exact continuation_three (by simp) (by simp; omega) rest
    · rw [if_pos (by omega)] at lead
      have bits : v / 262144 = 4 := by omega
      rw [next_lead (by omega) first lead, ← bits]
      exact continuation_three (by simp) (by simp; omega) rest

/-- **One character.** The bytes of a character are read as that character, whatever follows. -/
theorem next_encodeChar (c : Char) (rest : Bytes) :
    ∃ b more, String.utf8EncodeChar c = b :: more ∧ next b (more ++ rest) = (some c, rest) := by
  have valid : c.val.toNat < 0xd800 ∨ 0xdfff < c.val.toNat ∧ c.val.toNat < 0x110000 := c.valid
  have code : some c = some (Char.ofNat c.val.toNat) := congrArg some (Char.ofNat_toNat c).symm
  rw [code, String.utf8EncodeChar]
  generalize c.val.toNat = v at valid
  split
  · exact ⟨_, _, rfl, next_one (by omega) rest⟩
  · split
    · exact ⟨_, _, rfl, next_two (by omega) (by omega) rest⟩
    · split
      · exact ⟨_, _, rfl, next_three (by omega) (by omega) (by omega) rest⟩
      · exact ⟨_, _, rfl, next_four (by omega) (by omega) rest⟩

theorem encodeChar_ascii {c : Char} (ascii : c.toNat < 0x80) :
    String.utf8EncodeChar c = [UInt8.ofNat c.toNat] := by
  have small : c.val.toNat ≤ 127 := Nat.le_of_lt_succ ascii
  rw [String.utf8EncodeChar, if_pos small]
  rfl

theorem encode_cons (c : Char) (text : Text) :
    encode (c :: text) = String.utf8EncodeChar c ++ encode text := rfl

/-- **Strict reading.** The UTF-8 form of a text is read as that text. -/
@[simp] theorem decode?_encode (text : Text) : decode? (encode text) = some text := by
  induction text with
  | nil => simp [encode, decode?]
  | cons c text ih =>
    obtain ⟨b, more, bytes, read⟩ := next_encodeChar c (encode text)
    rw [encode_cons, bytes, List.cons_append, decode?, read]
    simp [ih]

/-- **Lossy reading.** Nothing is lost of the UTF-8 form of a text. -/
@[simp] theorem decodeLossy_encode (text : Text) : decodeLossy (encode text) = text := by
  induction text with
  | nil => simp [encode, decodeLossy]
  | cons c text ih =>
    obtain ⟨b, more, bytes, read⟩ := next_encodeChar c (encode text)
    rw [encode_cons, bytes, List.cons_append, decodeLossy, read]
    simp [ih]

end Prefill.Text.Utf8
