import Prefill.Proofs.StringValue

/-!
What is read as a literal. Reading takes every string literal (`Denotes`), and it takes more:
between double quotes a quote or a line feed that stands there as it is, an escaped apostrophe, and
a number with a plus sign in place of its first digit (`Slip`); between backquotes another
backquote. A text is read exactly when it is a literal up to such slips (`Reads`), the text says how
many there are (`Reads.unique`), and it is a literal exactly when there are none
(`unquote?_isSome_iff`). So two literals with an operator between them are read as one (`sum_read`).
-/

namespace Prefill.Literal

open Text

/-! ### Slips -/

/-- A character or an escape that no interpreted literal has, and the bytes that it is read as. -/
inductive Slip : Text → Utf8.Bytes → Prop
  | char {c : Char} (bare : c = '"' ∨ c = '\n') : Slip [c] (String.utf8EncodeChar c)
  | apostrophe : Slip ['\\', '\''] [0x27]
  | hex {digits : Text} {value : Nat} (one : digits.length = 1)
      (number : Numeral 16 digits value) : Slip ('\\' :: 'x' :: '+' :: digits) [UInt8.ofNat value]
  | point {mark : Char} {digits : Text} {c : Char}
      (form : mark = 'u' ∧ digits.length = 3 ∨ mark = 'U' ∧ digits.length = 7)
      (number : Numeral 16 digits c.toNat) :
      Slip ('\\' :: mark :: '+' :: digits) (String.utf8EncodeChar c)

/-- What is read between double quotes, the number of slips in it, and the bytes that it is read
as. -/
inductive Inside : Text → Nat → Utf8.Bytes → Prop
  | nil : Inside [] 0 []
  | piece {piece text : Text} {slips : Nat} {bytes more : Utf8.Bytes} (first : Piece piece bytes)
      (rest : Inside text slips more) : Inside (piece ++ text) slips (bytes ++ more)
  | slip {piece text : Text} {slips : Nat} {bytes more : Utf8.Bytes} (first : Slip piece bytes)
      (rest : Inside text slips more) : Inside (piece ++ text) (slips + 1) (bytes ++ more)

/-- What is read as a literal, and the number of slips in it. -/
inductive Reads : Text → Nat → Prop
  | interpreted {inner : Text} {slips : Nat} {bytes : Utf8.Bytes} (h : Inside inner slips bytes) :
      Reads ('"' :: (inner ++ ['"'])) slips
  | raw (inner : Text) : Reads ('`' :: (inner ++ ['`'])) (inner.count '`')

theorem inside_of_inner {text : Text} {bytes : Utf8.Bytes} (h : Inner text bytes) :
    Inside text 0 bytes := by
  induction h with
  | nil => exact .nil
  | cons first _ ih => exact .piece first ih

theorem Inside.inner {text : Text} {slips : Nat} {bytes : Utf8.Bytes}
    (h : Inside text slips bytes) (none : slips = 0) : Inner text bytes := by
  induction h with
  | nil => exact .nil
  | piece first _ ih => exact .cons first (ih none)
  | slip => cases none

/-- Without a slip it is a literal. -/
theorem reads_zero_iff {text : Text} : Reads text 0 ↔ ∃ bytes, Denotes text bytes := by
  constructor
  · intro h
    generalize none : 0 = slips at h
    cases h with
    | interpreted inside => exact ⟨_, .interpreted ⟨_, rfl, inside.inner none.symm⟩⟩
    | raw inner => exact ⟨_, .raw (List.count_eq_zero.mp none.symm)⟩
  · rintro ⟨bytes, denoted⟩
    cases denoted with
    | interpreted h =>
      obtain ⟨inner, rfl, denoted⟩ := h
      exact .interpreted (inside_of_inner denoted)
    | @raw inner closed =>
      have none : inner.count '`' = 0 := List.count_eq_zero.mpr closed
      exact none ▸ .raw inner

/-! ### Slips are read -/

theorem number?_of_signed {base limit value : Nat} {text : Text} (someText : text ≠ [])
    (number : Numeral base text value) (small : value < limit) :
    number? base limit ('+' :: text) = some value := by
  simp [number?, digits?_of_numeral someText number, small]

/-- **One slip.** Reading takes a slip off the front like any piece. -/
theorem first?_slip {piece : Text} {bytes : Utf8.Bytes} (h : Slip piece bytes) (rest : Text) :
    first? (piece ++ rest) = some (bytes, rest) := by
  cases h with
  | @char c bare =>
    have notSlash : c ≠ '\\' := by
      rintro rfl
      exact absurd bare (by decide)
    exact first?_char notSlash rest
  | apostrophe => rfl
  | @hex digits value one number =>
    have someText : digits ≠ [] := by
      rintro rfl
      cases one
    have small : value < 256 := by
      have bound := number.lt_pow
      rw [one] at bound
      omega
    have read := number?_of_signed someText number small
    exact unescape?_bytes [] rfl (by simp [one]) read rest
  | @point mark digits c form number =>
    have someText : digits ≠ [] := by
      rintro rfl
      simp at form
    have read := number?_of_signed someText number (toNat_small c)
    obtain ⟨rfl, size⟩ | ⟨rfl, size⟩ := form
    · exact unescape?_point rfl (by simp [size]) read rest
    · exact unescape?_point rfl (by simp [size]) read rest

theorem Inside.bytes?_eq {text : Text} {slips : Nat} {bytes : Utf8.Bytes}
    (h : Inside text slips bytes) : bytes? text = some bytes := by
  induction h with
  | nil => simp [bytes?]
  | @piece piece text _ _ _ first _ ih => simp [bytes?_of_first? (first?_piece first text), ih]
  | @slip piece text _ _ _ first _ ih => simp [bytes?_of_first? (first?_slip first text), ih]

/-! ### Nothing else is read -/

theorem numeral_of_foldlM {base start value : Nat} {text : Text}
    (h : text.foldlM (fun value c => (digit? base c).map (value * base + ·)) start = some value) :
    ∃ digits : List Nat, text.map hexValue? = digits.map some ∧ ∀ d ∈ digits, d < base := by
  induction text generalizing start with
  | nil => exact ⟨[], rfl, by simp⟩
  | cons c text ih =>
    rw [List.foldlM_cons, Option.bind_eq_bind, Option.bind_eq_some_iff] at h
    obtain ⟨next, first, rest⟩ := h
    obtain ⟨d, isDigit, -⟩ := Option.map_eq_some_iff.mp first
    obtain ⟨digits, known, below⟩ := ih rest
    obtain ⟨value, small⟩ := digit?_eq_some_iff.mp isDigit
    exact ⟨d :: digits, by simp [value, known], by simpa using ⟨small, below⟩⟩

theorem numeral_of_digits? {base value : Nat} {text : Text} (h : digits? base text = some value) :
    Numeral base text value := by
  cases text with
  | nil => cases h
  | cons c text =>
    have read : (c :: text).foldlM (fun value c => (digit? base c).map (value * base + ·)) 0 =
        some value := h
    obtain ⟨digits, known, below⟩ := numeral_of_foldlM read
    refine ⟨digits, known, below, ?_⟩
    simpa using read.symm.trans (foldlM_digit? known below 0)

/-- A number is digits, perhaps after a plus sign. -/
theorem numeral_of_number? {base limit value : Nat} {text : Text}
    (h : number? base limit text = some value) :
    value < limit ∧
      (Numeral base text value ∨ ∃ digits, text = '+' :: digits ∧ Numeral base digits value) := by
  obtain ⟨n, read, h⟩ := Option.bind_eq_some_iff.mp h
  split at h
  · rename_i small
    obtain rfl := Option.some.inj h
    refine ⟨small, ?_⟩
    split at read
    · rename_i digits
      exact .inr ⟨digits, rfl, numeral_of_digits? read⟩
    · exact .inl (numeral_of_digits? read)
  · cases h

theorem exactly?_eq_some {count : Nat} {text front back : Text}
    (h : exactly? count text = some (front, back)) :
    text = front ++ back ∧ front.length = count := by
  unfold exactly? at h
  split at h
  · obtain ⟨rfl, rfl⟩ := Prod.mk.inj (Option.some.inj h)
    exact ⟨(List.take_append_drop ..).symm, by simpa using ‹_›⟩
  · cases h

theorem char?_eq_some {code : Nat} {c : Char} (h : char? code = some c) : c.toNat = code := by
  unfold char? at h
  split at h
  · rename_i valid
    obtain rfl := Option.some.inj h
    have valid : code.isValidChar := by simpa [Nat.isValidChar] using valid
    rw [Char.ofNat, dif_pos valid]
    rfl
  · cases h

theorem named?_eq_some {c : Char} {b : UInt8} (h : named? c = some b) :
    (c, b) ∈ letterEscapes ∨ c = '\'' ∧ b = 0x27 := by
  unfold named? at h
  split at h
  all_goals cases h
  all_goals decide

theorem escapeForm?_eq_some {c : Char} {form : Escape} (h : escapeForm? c = some form) :
    (∃ b, named? c = some b ∧ form = .byte b) ∨ (c = 'x' ∧ form = .bytes 16 2 []) ∨
      (c = 'u' ∧ form = .point 4 ∨ c = 'U' ∧ form = .point 8) ∨
      (c ≠ '+' ∧ form = .bytes 8 2 [c]) := by
  unfold escapeForm? at h
  split at h
  · rename_i b found
    exact .inl ⟨b, found, (Option.some.inj h).symm⟩
  · have octal : ('0' ≤ c && c ≤ '7') = true → c ≠ '+' := by
      rintro range rfl
      exact absurd range (by decide)
    repeat' split at h
    all_goals simp_all

theorem exists_of_unescape?_bytes {c : Char} {base count : Nat} {lead rest left : Text}
    {bytes : Utf8.Bytes} (form : escapeForm? c = some (.bytes base count lead))
    (h : unescape? c rest = some (bytes, left)) :
    ∃ digits value, rest = digits ++ left ∧ digits.length = count ∧
      number? base 256 (lead ++ digits) = some value ∧ bytes = [UInt8.ofNat value] := by
  obtain ⟨found, opened, h⟩ := Option.bind_eq_some_iff.mp h
  obtain rfl := Option.some.inj (form.symm.trans opened)
  obtain ⟨⟨digits, back⟩, taken, h⟩ := Option.bind_eq_some_iff.mp h
  obtain ⟨value, read, h⟩ := Option.bind_eq_some_iff.mp h
  obtain ⟨rfl, rfl⟩ := Prod.mk.inj (Option.some.inj h)
  obtain ⟨whole, size⟩ := exactly?_eq_some taken
  exact ⟨digits, value, whole, size, read, rfl⟩

theorem exists_of_unescape?_point {mark : Char} {count : Nat} {rest left : Text}
    {bytes : Utf8.Bytes} (form : escapeForm? mark = some (.point count))
    (h : unescape? mark rest = some (bytes, left)) :
    ∃ (digits : Text) (c : Char), rest = digits ++ left ∧ digits.length = count ∧
      number? 16 0x100000000 digits = some c.toNat ∧ bytes = String.utf8EncodeChar c := by
  obtain ⟨found, opened, h⟩ := Option.bind_eq_some_iff.mp h
  obtain rfl := Option.some.inj (form.symm.trans opened)
  obtain ⟨⟨digits, back⟩, taken, h⟩ := Option.bind_eq_some_iff.mp h
  obtain ⟨c, read, h⟩ := Option.bind_eq_some_iff.mp h
  obtain ⟨rfl, rfl⟩ := Prod.mk.inj (Option.some.inj h)
  obtain ⟨code, read, isChar⟩ := Option.bind_eq_some_iff.mp read
  obtain rfl := char?_eq_some isChar
  obtain ⟨whole, size⟩ := exactly?_eq_some taken
  exact ⟨digits, c, whole, size, read, rfl⟩

/-- An escape that is read is a piece of a literal or a slip. -/
theorem exists_of_unescape? {c : Char} {rest left : Text} {bytes : Utf8.Bytes}
    (h : unescape? c rest = some (bytes, left)) :
    ∃ piece, '\\' :: c :: rest = piece ++ left ∧ (Piece piece bytes ∨ Slip piece bytes) := by
  obtain ⟨form, opened, -⟩ := Option.bind_eq_some_iff.mp h
  obtain ⟨b, named, rfl⟩ | ⟨rfl, rfl⟩ | mark | ⟨notSign, rfl⟩ := escapeForm?_eq_some opened
  · have read : some ([b], rest) = some (bytes, left) := by
      rw [← h, unescape?, opened]
      rfl
    obtain ⟨rfl, rfl⟩ := Prod.mk.inj (Option.some.inj read)
    refine ⟨['\\', c], rfl, ?_⟩
    obtain known | ⟨rfl, rfl⟩ := named?_eq_some named
    · exact .inl (.letter known)
    · exact .inr .apostrophe
  · obtain ⟨digits, value, rfl, two, read, rfl⟩ := exists_of_unescape?_bytes opened h
    refine ⟨'\\' :: 'x' :: digits, rfl, ?_⟩
    obtain number | ⟨more, rfl, number⟩ := (numeral_of_number? read).2
    · exact .inl (.hex two number)
    · exact .inr (.hex (by simpa using two) number)
  · obtain ⟨count, isPoint, sizes⟩ : ∃ count, form = .point count ∧
        (c = 'u' ∧ count = 4 ∨ c = 'U' ∧ count = 8) := by
      obtain ⟨rfl, rfl⟩ | ⟨rfl, rfl⟩ := mark
      · exact ⟨4, rfl, .inl ⟨rfl, rfl⟩⟩
      · exact ⟨8, rfl, .inr ⟨rfl, rfl⟩⟩
    rw [isPoint] at opened
    obtain ⟨digits, d, rfl, rfl, read, rfl⟩ := exists_of_unescape?_point opened h
    refine ⟨'\\' :: c :: digits, rfl, ?_⟩
    obtain number | ⟨more, rfl, number⟩ := (numeral_of_number? read).2
    · exact .inl (.point sizes number)
    · exact .inr (.point (by simpa using sizes) number)
  · obtain ⟨digits, value, rfl, two, read, rfl⟩ := exists_of_unescape?_bytes opened h
    refine ⟨'\\' :: c :: digits, rfl, .inl ?_⟩
    -- The digit that opens the escape is the first of its number, so no sign can stand before it.
    obtain ⟨small, number | ⟨more, shown, -⟩⟩ := numeral_of_number? read
    · exact .octal (by simp [two]) number small
    · exact absurd (List.cons.inj shown).1 notSign

/-- **Nothing else** is read. -/
theorem exists_inside {text : Text} {bytes : Utf8.Bytes} (h : bytes? text = some bytes) :
    ∃ slips, Inside text slips bytes := by
  fun_induction bytes? text generalizing bytes with
  | case1 =>
    obtain rfl := Option.some.inj h
    exact ⟨0, .nil⟩
  | case2 => cases h
  | case3 => cases h
  | case4 c rest front left read ih =>
    obtain ⟨more, found, rfl⟩ := Option.map_eq_some_iff.mp h
    obtain ⟨slips, inside⟩ := ih found
    obtain ⟨piece, whole, isPiece | isSlip⟩ := exists_of_unescape? read
    · exact ⟨slips, whole ▸ .piece isPiece inside⟩
    · exact ⟨slips + 1, whole ▸ .slip isSlip inside⟩
  | case5 c rest last escape ih =>
    obtain ⟨more, found, rfl⟩ := Option.map_eq_some_iff.mp h
    obtain ⟨slips, inside⟩ := ih found
    by_cases bare : c = '"' ∨ c = '\n'
    · exact ⟨slips + 1, .slip (.char bare) inside⟩
    · have notSlash : c ≠ '\\' := by
        rintro rfl
        cases rest with
        | nil => exact last rfl rfl
        | cons d rest => exact escape d rest rfl rfl
      rw [not_or] at bare
      exact ⟨slips, .piece (.char ⟨bare.1, notSlash, bare.2⟩) inside⟩

/-! ### The number of slips -/

/-- No slip is a piece of a literal. -/
theorem Slip.not_piece {text : Text} {bytes others : Utf8.Bytes} (slip : Slip text bytes) :
    ¬ Piece text others := by
  have starts {base value : Nat} {c : Char} {digits : Text} (other : hexValue? c = none) :
      ¬ Numeral base (c :: digits) value := by
    intro number
    obtain ⟨d, -, isDigit⟩ := number.head
    exact absurd (other.symm.trans isDigit) (by simp)
  intro piece
  cases slip with
  | char bare =>
    cases piece with
    | char plain => exact bare.elim plain.1 plain.2.2
    | octal three => cases three
  | apostrophe =>
    cases piece with
    | letter known => exact absurd known (by simp [letterEscapes])
    | octal three => cases three
    | point form _ => simp at form
  | hex _ _ =>
    cases piece with
    | hex _ number => exact starts (by decide) number
    | octal _ number => exact starts (by decide) number
    | point form _ => simp at form
  | point form _ =>
    cases piece with
    | hex _ number => exact starts (by decide) number
    | octal three _ =>
      simp only [List.length_cons] at three
      omega
    | point _ number => exact starts (by decide) number

/-- What is left after the first piece, and whether that piece is a slip. -/
theorem Inside.uncons {piece rest : Text} {slips : Nat} {bytes all : Utf8.Bytes}
    (read : first? (piece ++ rest) = some (bytes, rest)) (h : Inside (piece ++ rest) slips all) :
    ∃ more, (Piece piece bytes ∧ Inside rest slips more) ∨
      (Slip piece bytes ∧ ∃ fewer, slips = fewer + 1 ∧ Inside rest fewer more) := by
  -- The rest after the first piece is what reading leaves, so both ways to cut are the same.
  generalize whole : piece ++ rest = text at h read
  cases h with
  | nil => cases read
  | @piece front text _ _ more first inside =>
    obtain ⟨rfl, rfl⟩ := Prod.mk.inj (Option.some.inj ((first?_piece first text).symm.trans read))
    obtain rfl := List.append_cancel_right whole
    exact ⟨more, .inl ⟨first, inside⟩⟩
  | @slip front text fewer _ more first inside =>
    obtain ⟨rfl, rfl⟩ := Prod.mk.inj (Option.some.inj ((first?_slip first text).symm.trans read))
    obtain rfl := List.append_cancel_right whole
    exact ⟨more, .inr ⟨first, fewer, rfl, inside⟩⟩

theorem Inside.unique {text : Text} {slips others : Nat} {bytes more : Utf8.Bytes}
    (h : Inside text slips bytes) (h' : Inside text others more) : slips = others := by
  induction h generalizing others more with
  | nil =>
    -- Nothing can be read first of an empty text, so no piece is empty.
    generalize none : [] = text at h'
    cases h' with
    | nil => rfl
    | @piece front text _ _ _ first _ =>
      have read := first?_piece first text
      rw [← none] at read
      cases read
    | @slip front text _ _ _ first _ =>
      have read := first?_slip first text
      rw [← none] at read
      cases read
  | @piece front text _ _ _ first _ ih =>
    obtain ⟨_, ⟨-, inside⟩ | ⟨isSlip, -⟩⟩ := h'.uncons (first?_piece first text)
    · exact ih inside
    · exact absurd first isSlip.not_piece
  | @slip front text _ _ _ first _ ih =>
    obtain ⟨_, ⟨isPiece, -⟩ | ⟨-, fewer, rfl, inside⟩⟩ := h'.uncons (first?_slip first text)
    · exact absurd isPiece first.not_piece
    · rw [ih inside]

/-- **A text has one number of slips.** -/
theorem Reads.unique {text : Text} {slips others : Nat} (h : Reads text slips)
    (h' : Reads text others) : slips = others := by
  cases h with
  | @interpreted inner _ _ inside =>
    generalize shape : '"' :: (inner ++ ['"']) = text at h'
    cases h' with
    | @interpreted again _ _ insideToo =>
      obtain rfl : inner = again := by simpa using shape
      exact inside.unique insideToo
    | raw again => cases shape
  | raw inner =>
    generalize shape : '`' :: (inner ++ ['`']) = text at h'
    cases h' with
    | interpreted => cases shape
    | raw again =>
      obtain rfl : inner = again := by simpa using shape
      rfl

/-! ### What is read -/

theorem between?_eq_some {mark : Char} {text inner : Text} (h : between? mark text = some inner) :
    text = mark :: (inner ++ [mark]) := by
  cases text with
  | nil => cases h
  | cons c rest =>
    rw [between?] at h
    split at h
    · rename_i quoted
      obtain ⟨rfl, last⟩ : c = mark ∧ rest.getLast? = some mark := by simpa using quoted
      obtain ⟨front, rfl⟩ := List.getLast?_eq_some_iff.mp last
      obtain rfl : front = inner := by simpa using h
      rfl
    · cases h

theorem exists_reads_iff {text : Text} :
    (unquote? text).isSome = true ↔ ∃ slips, Reads text slips := by
  constructor
  · intro h
    obtain ⟨value, read⟩ := Option.isSome_iff_exists.mp h
    unfold unquote? at read
    split at read
    · rename_i inner raw
      rw [between?_eq_some raw]
      exact ⟨_, .raw inner⟩
    · obtain ⟨bytes, read, -⟩ := Option.map_eq_some_iff.mp read
      obtain ⟨inner, quoted, read⟩ := Option.bind_eq_some_iff.mp read
      obtain ⟨slips, inside⟩ := exists_inside read
      rw [between?_eq_some quoted]
      exact ⟨slips, .interpreted inside⟩
  · rintro ⟨slips, reads⟩
    cases reads with
    | @interpreted inner _ bytes inside =>
      have notRaw : between? '`' ('"' :: (inner ++ ['"'])) = none := by simp [between?]
      simp [unquote?, notRaw, between?_quotes, inside.bytes?_eq]
    | raw inner => simp [unquote?, between?_quotes]

/-- **What is read as a literal.** A text is read exactly when it is a literal up to slips, and it
is a literal exactly when it is read and has no slip. So every literal is read, and what is read
besides is a text with a slip in it. -/
theorem unquote?_isSome_iff (text : Text) :
    ((unquote? text).isSome = true ↔ ∃ slips, Reads text slips) ∧
      ((∃ bytes, Denotes text bytes) ↔
        (unquote? text).isSome = true ∧ ∀ slips, Reads text slips → slips = 0) := by
  refine ⟨exists_reads_iff, ?_⟩
  rw [← reads_zero_iff]
  constructor
  · intro none
    exact ⟨exists_reads_iff.mpr ⟨0, none⟩, fun slips reads => reads.unique none⟩
  · rintro ⟨read, none⟩
    obtain ⟨slips, reads⟩ := exists_reads_iff.mp read
    exact none slips reads ▸ reads

/-- Two literals with an operator between them are read as one literal. -/
theorem sum_read :
    (unquote? "\"a\" + \"b\"".toList).isSome = true ∧
      ¬ ∃ bytes, Denotes "\"a\" + \"b\"".toList bytes := by
  have plain {c : Char} (h : c ≠ '"' ∧ c ≠ '\\' ∧ c ≠ '\n') {text : Text} {slips : Nat}
      {bytes : Utf8.Bytes} (rest : Inside text slips bytes) :
      Inside (c :: text) slips (String.utf8EncodeChar c ++ bytes) := .piece (.char h) rest
  have quote {text : Text} {slips : Nat} {bytes : Utf8.Bytes} (rest : Inside text slips bytes) :
      Inside ('"' :: text) (slips + 1) (String.utf8EncodeChar '"' ++ bytes) :=
    .slip (.char (.inl rfl)) rest
  have reads : Reads "\"a\" + \"b\"".toList 2 :=
    .interpreted (plain (by decide) (quote (plain (by decide) (plain (by decide)
      (plain (by decide) (quote (plain (by decide) .nil)))))))
  refine ⟨exists_reads_iff.mpr ⟨2, reads⟩, fun literal => ?_⟩
  exact absurd (reads.unique (reads_zero_iff.mpr literal)) (by decide)

end Prefill.Literal
