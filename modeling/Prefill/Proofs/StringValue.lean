import Mathlib.Data.Nat.Digits.Defs
import Prefill.Literal.Kind
import Prefill.Proofs.Encoding

/-!
The value of a string. A string literal denotes a sequence of bytes (`Denotes`), which need not be
the UTF-8 form of a text. A result is read from one literal and written as another.

* `bytes?_of_inner`: reading an interpreted literal gives the bytes that it denotes;
* `denotes_ofString`: a text is written as a literal that denotes its UTF-8 form;
* `ofOutput_denotes_iff`: the written literal denotes the bytes of the printed one exactly when
  these are the UTF-8 form of a text.
-/

namespace Prefill.Literal

open Text

/-! ## What a literal denotes -/

/-- Digits of a base, and the number that they are. -/
def Numeral (base : Nat) (text : Text) (value : Nat) : Prop :=
  ∃ digits : List Nat, text.map hexValue? = digits.map some ∧ (∀ d ∈ digits, d < base) ∧
    value = Nat.ofDigits base digits.reverse

/-- The escapes of one letter, each with its byte. -/
def letterEscapes : List (Char × UInt8) :=
  [('a', 0x07), ('b', 0x08), ('f', 0x0c), ('n', 0x0a), ('r', 0x0d), ('t', 0x09), ('v', 0x0b),
   ('\\', 0x5c), ('"', 0x22)]

/-- One character or escape of an interpreted literal, and the bytes that it denotes. -/
inductive Piece : Text → Utf8.Bytes → Prop
  | char {c : Char} (plain : c ≠ '"' ∧ c ≠ '\\' ∧ c ≠ '\n') : Piece [c] (String.utf8EncodeChar c)
  | letter {c : Char} {b : UInt8} (known : (c, b) ∈ letterEscapes) : Piece ['\\', c] [b]
  | hex {digits : Text} {value : Nat} (two : digits.length = 2)
      (number : Numeral 16 digits value) : Piece ('\\' :: 'x' :: digits) [UInt8.ofNat value]
  | octal {digits : Text} {value : Nat} (three : digits.length = 3)
      (number : Numeral 8 digits value) (small : value < 256) :
      Piece ('\\' :: digits) [UInt8.ofNat value]
  | point {mark : Char} {digits : Text} {c : Char}
      (form : mark = 'u' ∧ digits.length = 4 ∨ mark = 'U' ∧ digits.length = 8)
      (number : Numeral 16 digits c.toNat) :
      Piece ('\\' :: mark :: digits) (String.utf8EncodeChar c)

/-- What stands between the quotes of an interpreted literal, and the bytes that it denotes. -/
inductive Inner : Text → Utf8.Bytes → Prop
  | nil : Inner [] []
  | cons {piece text : Text} {bytes more : Utf8.Bytes} (first : Piece piece bytes)
      (rest : Inner text more) : Inner (piece ++ text) (bytes ++ more)

/-- An interpreted literal, and the bytes that it denotes. -/
def Interprets (literal : Text) (bytes : Utf8.Bytes) : Prop :=
  ∃ inner, literal = '"' :: (inner ++ ['"']) ∧ Inner inner bytes

/-- A literal, and the bytes that it denotes. A raw literal stands for itself, without its carriage
returns. -/
inductive Denotes : Text → Utf8.Bytes → Prop
  | interpreted {literal : Text} {bytes : Utf8.Bytes} (h : Interprets literal bytes) :
      Denotes literal bytes
  | raw {inner : Text} (closed : '`' ∉ inner) :
      Denotes ('`' :: (inner ++ ['`'])) (Utf8.encode (inner.filter (· ≠ '\r')))

/-! ## Reading -/

theorem digit?_eq_some_iff {base value : Nat} {c : Char} :
    digit? base c = some value ↔ hexValue? c = some value ∧ value < base := by
  unfold digit?
  rw [Option.bind_eq_some_iff]
  constructor
  · rintro ⟨v, found, h⟩
    split at h
    · obtain rfl := Option.some.inj h
      exact ⟨found, ‹_›⟩
    · cases h
  · rintro ⟨found, small⟩
    exact ⟨value, found, if_pos small⟩

/-- Reading digits from left to right, onto the number read before. -/
theorem foldlM_digit? {base : Nat} {text : Text} {digits : List Nat}
    (known : text.map hexValue? = digits.map some) (small : ∀ d ∈ digits, d < base) (start : Nat) :
    text.foldlM (fun value c => (digit? base c).map (value * base + ·)) start =
      some (start * base ^ digits.length + Nat.ofDigits base digits.reverse) := by
  induction text generalizing digits start with
  | nil =>
    obtain rfl : digits = [] := by simpa using known.symm
    simp
  | cons c text ih =>
    obtain ⟨d, digits, rfl⟩ : ∃ d more, digits = d :: more := by
      cases digits with
      | nil => simp at known
      | cons d digits => exact ⟨d, digits, rfl⟩
    obtain ⟨first, rest⟩ := by simpa using known
    have read : digit? base c = some d := digit?_eq_some_iff.mpr ⟨first, small d (by simp)⟩
    simp only [List.foldlM_cons, read, Option.map_some, Option.bind_eq_bind, Option.bind_some]
    rw [ih (by simpa using rest) (fun e member => small e (List.mem_cons_of_mem _ member))]
    simp only [List.reverse_cons, Nat.ofDigits_append, Nat.ofDigits_singleton, List.length_reverse,
      List.length_cons, Nat.pow_succ]
    congr 1
    ring

theorem digits?_of_numeral {base value : Nat} {text : Text} (someText : text ≠ [])
    (number : Numeral base text value) : digits? base text = some value := by
  obtain ⟨digits, known, below, rfl⟩ := number
  cases text with
  | nil => exact absurd rfl someText
  | cons c text => simpa [digits?] using foldlM_digit? known below 0

/-- A numeral starts with a digit. -/
theorem Numeral.head {base value : Nat} {c : Char} {text : Text}
    (number : Numeral base (c :: text) value) : ∃ d < base, hexValue? c = some d := by
  obtain ⟨digits, known, below, -⟩ := number
  cases digits with
  | nil => cases known
  | cons d digits => exact ⟨d, below d (by simp), by simpa using (List.cons.inj known).1⟩

theorem number?_of_numeral {base limit value : Nat} {text : Text} (someText : text ≠ [])
    (number : Numeral base text value) (small : value < limit) :
    number? base limit text = some value := by
  have read := digits?_of_numeral someText number
  have unsigned : ∀ rest, text ≠ '+' :: rest := by
    rintro rest rfl
    obtain ⟨d, -, isDigit⟩ := number.head
    exact absurd isDigit (by simp [show hexValue? '+' = none by decide])
  unfold number?
  split
  · exact absurd rfl (unsigned _)
  · simp [read, small]

theorem exactly?_append {count : Nat} {front : Text} (size : front.length = count) (rest : Text) :
    exactly? count (front ++ rest) = some (front, rest) := by
  simp [exactly?, ← size]

/-- A digit of base eight opens an escape of three digits. -/
theorem escapeForm?_octal {c : Char} {d : Nat} (value : hexValue? c = some d) (small : d < 8) :
    escapeForm? c = some (.bytes 8 2 [c]) := by
  have octal : '0' ≤ c ∧ c ≤ '7' := by
    simp only [hexValue?, Bool.and_eq_true, decide_eq_true_eq] at value
    split at value
    · rename_i decimal
      obtain rfl := Option.some.inj value
      refine ⟨decimal.1, ?_⟩
      change c.toNat ≤ 55
      have : '0'.toNat = 48 := rfl
      omega
    · split at value
      · have := Option.some.inj value
        omega
      · split at value
        · have := Option.some.inj value
          omega
        · cases value
  have unnamed : named? c = none := by
    have low : 48 ≤ c.toNat := octal.1
    have high : c.toNat ≤ 55 := octal.2
    unfold named?
    split
    all_goals first | rfl | exact absurd low (by decide) | exact absurd high (by decide)
  have notLetter : c ≠ 'x' ∧ c ≠ 'u' ∧ c ≠ 'U' := by
    refine ⟨?_, ?_, ?_⟩ <;> rintro rfl <;> exact absurd octal.2 (by decide)
  simp [escapeForm?, unnamed, notLetter, octal]

theorem unescape?_letter {c : Char} {b : UInt8} (known : (c, b) ∈ letterEscapes) (rest : Text) :
    unescape? c rest = some ([b], rest) := by
  have form : ∀ entry ∈ letterEscapes, named? entry.1 = some entry.2 := by decide
  simp [unescape?, escapeForm?, form _ known]

theorem char?_toNat (c : Char) : char? c.toNat = some c := by
  have valid : c.toNat < 0xd800 ∨ 0xdfff < c.toNat ∧ c.toNat < 0x110000 := c.valid
  rw [char?, if_pos (by simpa using valid), Char.ofNat_toNat]

theorem toNat_small (c : Char) : c.toNat < 0x100000000 := by
  have valid : c.toNat < 0xd800 ∨ 0xdfff < c.toNat ∧ c.toNat < 0x110000 := c.valid
  omega

/-- An escape that stands for one byte. -/
theorem unescape?_bytes {c : Char} {base count value : Nat} {digits : Text} (lead : Text)
    (form : escapeForm? c = some (.bytes base count lead)) (size : digits.length = count)
    (read : number? base 256 (lead ++ digits) = some value) (rest : Text) :
    unescape? c (digits ++ rest) = some ([UInt8.ofNat value], rest) := by
  simp [unescape?, form, exactly?_append size, read, Nat.toUInt8]

/-- An escape that stands for a character. -/
theorem unescape?_point {mark c : Char} {count : Nat} {digits : Text}
    (form : escapeForm? mark = some (.point count)) (size : digits.length = count)
    (read : number? 16 0x100000000 digits = some c.toNat) (rest : Text) :
    unescape? mark (digits ++ rest) = some (String.utf8EncodeChar c, rest) := by
  simp [unescape?, form, exactly?_append size, read, char?_toNat]

/-- A number has no more digits than its numeral. -/
theorem Numeral.lt_pow {digits : Text} {value : Nat} (number : Numeral 16 digits value) :
    value < 16 ^ digits.length := by
  obtain ⟨values, known, below, rfl⟩ := number
  have size : values.reverse.length = digits.length := by
    simpa using (congrArg List.length known).symm
  rw [← size]
  exact Nat.ofDigits_lt_base_pow_length (by decide) (by simpa using below)

theorem bytes?_escape {c : Char} {text rest : Text} {bytes : Utf8.Bytes}
    (h : unescape? c text = some (bytes, rest)) :
    bytes? ('\\' :: c :: text) = (bytes? rest).map (bytes ++ ·) := by
  rw [bytes?]
  split
  · rename_i fails
    exact absurd (h.symm.trans fails) (by simp)
  · rename_i found
    obtain ⟨rfl, rfl⟩ := by simpa using h.symm.trans found
    rfl

/-- What is read first between the quotes of an interpreted literal, and what is left. -/
def first? : Text → Option (Utf8.Bytes × Text)
  | [] => none
  | '\\' :: [] => none
  | '\\' :: c :: rest => unescape? c rest
  | c :: rest => some (String.utf8EncodeChar c, rest)

theorem first?_char {c : Char} (notSlash : c ≠ '\\') (rest : Text) :
    first? (c :: rest) = some (String.utf8EncodeChar c, rest) := by
  rw [first?]
  · rintro rfl
    exact absurd rfl notSlash
  · rintro d more rfl
    exact absurd rfl notSlash

theorem bytes?_of_first? {text rest : Text} {bytes : Utf8.Bytes}
    (h : first? text = some (bytes, rest)) : bytes? text = (bytes? rest).map (bytes ++ ·) := by
  unfold first? at h
  split at h
  · cases h
  · cases h
  · exact bytes?_escape h
  · rename_i c left last escape
    obtain ⟨rfl, rfl⟩ := Prod.mk.inj (Option.some.inj h)
    rw [bytes?]
    · exact last
    · exact escape

/-- **One piece.** Reading takes a piece off the front and gives the bytes that it denotes. -/
theorem first?_piece {piece : Text} {bytes : Utf8.Bytes} (h : Piece piece bytes) (rest : Text) :
    first? (piece ++ rest) = some (bytes, rest) := by
  cases h with
  | char plain => exact first?_char plain.2.1 rest
  | letter known => exact unescape?_letter known rest
  | @hex digits value two number =>
    have someText : digits ≠ [] := by
      rintro rfl
      cases two
    have small : value < 256 := by simpa [two] using number.lt_pow
    exact unescape?_bytes [] rfl two (number?_of_numeral someText number small) rest
  | @octal digits value three number small =>
    obtain ⟨c, digits, rfl⟩ : ∃ c more, digits = c :: more := by
      cases digits with
      | nil => cases three
      | cons c digits => exact ⟨c, digits, rfl⟩
    have form : escapeForm? c = some (.bytes 8 2 [c]) := by
      obtain ⟨d, small, isDigit⟩ := number.head
      exact escapeForm?_octal isDigit small
    exact unescape?_bytes [c] form (by simpa using three)
      (number?_of_numeral (by simp) number small) rest
  | @point mark digits c form number =>
    have someText : digits ≠ [] := by
      rintro rfl
      simp at form
    have read := number?_of_numeral someText number (toNat_small c)
    obtain ⟨rfl, size⟩ | ⟨rfl, size⟩ := form
    · exact unescape?_point rfl size read rest
    · exact unescape?_point rfl size read rest

/-- **Reading.** The bytes that are read between the quotes are those that the literal denotes. -/
theorem bytes?_of_inner {text : Text} {bytes : Utf8.Bytes} (h : Inner text bytes) :
    bytes? text = some bytes := by
  induction h with
  | nil => simp [bytes?]
  | @cons piece text _ _ first _ ih => simp [bytes?_of_first? (first?_piece first text), ih]

theorem between?_quotes (mark : Char) (inner : Text) :
    between? mark (mark :: (inner ++ [mark])) = some inner := by
  simp [between?]

theorem unquote?_of_interprets {literal : Text} {bytes : Utf8.Bytes}
    (h : Interprets literal bytes) : unquote? literal = some (Utf8.decodeLossy bytes) := by
  obtain ⟨inner, rfl, denoted⟩ := h
  have notRaw : between? '`' ('"' :: (inner ++ ['"'])) = none := by simp [between?]
  simp [unquote?, notRaw, between?_quotes, bytes?_of_inner denoted]

/-- A literal denotes one sequence of bytes. -/
theorem Denotes.unique {literal : Text} {bytes others : Utf8.Bytes} (h : Denotes literal bytes)
    (h' : Denotes literal others) : bytes = others := by
  cases h with
  | interpreted first =>
    obtain ⟨inner, rfl, denoted⟩ := first
    cases h' with
    | interpreted second =>
      obtain ⟨again, same, denotedToo⟩ := second
      obtain rfl : inner = again := by simpa using same
      exact Option.some.inj ((bytes?_of_inner denoted).symm.trans (bytes?_of_inner denotedToo))
  | @raw inner closed =>
    generalize shape : '`' :: (inner ++ ['`']) = literal at h'
    cases h' with
    | interpreted second =>
      obtain ⟨again, rfl, -⟩ := second
      cases shape
    | @raw again closedToo =>
      obtain rfl : inner = again := by simpa using shape
      rfl

/-! ## Writing -/

/-- The digits of a small number, in two and in four places. -/
theorem numeral_hex {n : Nat} (small : n < 0xa0) :
    Numeral 16 (hex 2 n) n ∧ (hex 2 n).length = 2 ∧
      Numeral 16 (hex 4 n) n ∧ (hex 4 n).length = 4 := by
  have digits : ∀ n < 0xa0,
      (hex 2 n).map hexValue? = [n / 16, n % 16].map some ∧
        (hex 4 n).map hexValue? = [0, 0, n / 16, n % 16].map some := by decide +kernel
  obtain ⟨two, four⟩ := digits n small
  have value : n = Nat.ofDigits 16 [n % 16, n / 16] := by
    simp only [Nat.ofDigits_cons, Nat.ofDigits_nil]
    omega
  refine ⟨⟨_, two, ?_, value⟩, by simpa using congrArg List.length two, ⟨_, four, ?_, ?_⟩,
    by simpa using congrArg List.length four⟩
  · simp only [List.mem_cons, List.not_mem_nil, or_false, forall_eq_or_imp, forall_eq]
    omega
  · simp only [List.mem_cons, List.not_mem_nil, or_false, forall_eq_or_imp, forall_eq]
    omega
  · simpa [Nat.ofDigits_cons] using value

/-- **One character.** A character is written as a piece that denotes its UTF-8 form. -/
theorem piece_escape (c : Char) : Piece (escape c) (String.utf8EncodeChar c) := by
  unfold escape
  split
  case h_10 notQuote notSlash notFeed _ _ _ _ _ _ =>
    split
    · rename_i control
      simp only [Bool.or_eq_true, decide_eq_true_eq] at control
      obtain ⟨number, size, -⟩ := numeral_hex (n := c.toNat) (by omega)
      rw [Utf8.encodeChar_ascii (by omega)]
      exact .hex size number
    · split
      · rename_i control
        simp only [isControl, Bool.or_eq_true, Bool.and_eq_true, decide_eq_true_eq] at control
        obtain ⟨-, -, number, size⟩ := numeral_hex (n := c.toNat) (by omega)
        exact .point (.inl ⟨rfl, size⟩) number
      · exact .char ⟨notQuote, notSlash, notFeed⟩
  all_goals exact .letter (by decide)

theorem inner_escape (value : Text) : Inner (value.flatMap escape) (Utf8.encode value) := by
  induction value with
  | nil => exact .nil
  | cons c value ih => exact .cons (piece_escape c) ih

/-- **Writing.** A text is written as a literal that denotes its UTF-8 form. -/
theorem denotes_ofString (value : Text) : Denotes (ofString value) (Utf8.encode value) := by
  unfold ofString
  split
  · rename_i isRaw
    simp only [Bool.and_eq_true, Bool.not_eq_true', List.any_eq_false] at isRaw
    have closed : '`' ∉ value := fun member => isRaw.2 _ member rfl
    have kept : value.filter (· ≠ '\r') = value := by
      refine List.filter_eq_self.mpr fun c member => ?_
      have := isRaw.2 c member
      simp_all
    simpa only [kept] using Denotes.raw closed
  · exact .interpreted ⟨_, rfl, inner_escape value⟩

/-! ## Results -/

theorem trim_quotes (inner : Text) : trim ('"' :: (inner ++ ['"'])) = '"' :: (inner ++ ['"']) := by
  have start : isBlank '"' = false := by decide
  simp [trim, trimStart, trimEnd, start]

/-- The bytes of a printed string and of the literal that it is written as. Bytes that form no
character are written as a replacement character. -/
theorem denotes_ofOutput {literal : Text} {bytes : Utf8.Bytes} (h : Interprets literal bytes) :
    Denotes (ofOutput literal .string) (Utf8.encode (Utf8.decodeLossy bytes)) := by
  have same : trim literal = literal := by
    obtain ⟨inner, rfl, -⟩ := h
    exact trim_quotes inner
  simpa [ofOutput, same, unquote?_of_interprets h] using denotes_ofString _

/-- **A string keeps its bytes exactly when they are text.** The literal that a printed string is
written as denotes the bytes of the printed one if these are the UTF-8 form of some text, and only
then; it always denotes the UTF-8 form of what the lossy reading makes of them. -/
theorem ofOutput_denotes_iff {literal : Text} {bytes : Utf8.Bytes}
    (h : Interprets literal bytes) :
    (∀ others, Denotes (ofOutput literal .string) others ↔
        others = Utf8.encode (Utf8.decodeLossy bytes)) ∧
      (Denotes (ofOutput literal .string) bytes ↔ ∃ text, bytes = Utf8.encode text) := by
  have written := denotes_ofOutput h
  refine ⟨fun others => ⟨fun denoted => denoted.unique written, fun same => same ▸ written⟩, ?_, ?_⟩
  · intro kept
    exact ⟨_, kept.unique written⟩
  · rintro ⟨text, rfl⟩
    simpa using written

theorem accent_kept :
    Interprets "\"\\u00e9\\\\\"".toList [0xc3, 0xa9, 0x5c] ∧
      Denotes (ofOutput "\"\\u00e9\\\\\"".toList .string) [0xc3, 0xa9, 0x5c] := by
  have printed : Interprets "\"\\u00e9\\\\\"".toList [0xc3, 0xa9, 0x5c] := by
    have accent : Piece ['\\', 'u', '0', '0', 'e', '9'] [0xc3, 0xa9] :=
      .point (c := 'é') (.inl ⟨rfl, rfl⟩) ⟨[0, 0, 14, 9], by decide, by decide, by decide⟩
    have slash : Piece ['\\', '\\'] [0x5c] := .letter (by decide)
    exact ⟨_, rfl, .cons accent (.cons slash .nil)⟩
  exact ⟨printed, (ofOutput_denotes_iff printed).2.mpr ⟨['é', '\\'], by decide⟩⟩

/-- A byte that is no text comes out as a replacement character. -/
theorem byte_replaced :
    Interprets "\"\\xff\"".toList [0xff] ∧
      ofOutput "\"\\xff\"".toList .string = "\"\uFFFD\"".toList ∧
      ¬ Denotes (ofOutput "\"\\xff\"".toList .string) [0xff] := by
  have byte : Piece ['\\', 'x', 'f', 'f'] [0xff] :=
    .hex rfl ⟨[15, 15], by decide, by decide, rfl⟩
  have printed : Interprets "\"\\xff\"".toList [0xff] := ⟨_, rfl, .cons byte .nil⟩
  have lossy : Utf8.decodeLossy [0xff] = ['\uFFFD'] := by
    simp [Utf8.decodeLossy, show Utf8.next 0xff [] = (none, []) by decide]
  have written := denotes_ofOutput printed
  have read : unquote? "\"\\xff\"".toList = some ['\uFFFD'] :=
    lossy ▸ unquote?_of_interprets printed
  refine ⟨printed, ?_, ?_⟩
  · have same : trim "\"\\xff\"".toList = "\"\\xff\"".toList := by decide
    simp only [ofOutput, same, read]
    decide
  · intro kept
    have bytes := kept.unique written
    rw [lossy] at bytes
    exact absurd bytes (by decide)

end Prefill.Literal
