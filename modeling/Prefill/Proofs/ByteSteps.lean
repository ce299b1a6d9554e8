import Prefill.Proofs.Cuts
import Prefill.Proofs.Decoding
import Prefill.Proofs.Pieces

/-!
Steps by bytes and steps by characters. The first byte of a character tells an ASCII character from
all others, and no later byte is taken for one (`Leads`). So the scan may pass a character byte by
byte, also from its second byte on: it stops where a scan by characters does, and every part of the
text that it reads starts and ends between two characters.

* `quotedLength_encode`, `numberLength_encode`: where a literal ends;
* `look?_encode`: the piece that stands at a byte is the one that is cut off the text;
* `scan?_eq_some`, `tokenize_eq`: every text has a scan, and its tokens are those of its pieces.
-/

namespace Prefill

open Text

namespace Text

@[simp] theorem length_encode (text : Text) : (Utf8.encode text).length = byteLength text := by
  induction text with
  | nil => rfl
  | cons c text ih =>
    rw [Utf8.encode_cons, List.length_append, String.length_utf8EncodeChar, ih, byteLength]

end Text

namespace Token

/-! ## The bytes of a character -/

theorem toNat_asChar (b : UInt8) : (asChar b).toNat = b.toNat := by
  have small : b.toNat < 256 := b.toNat_lt
  exact Utf8.val_ofNat (.inl (by omega))

/-- The UTF-8 form of a character: a first byte that shows whether it is ASCII, and bytes above ASCII
after it. -/
structure Leads (c : Char) (b : UInt8) (more : Utf8.Bytes) : Prop where
  bytes : String.utf8EncodeChar c = b :: more
  shows : ∀ d : Char, d.toNat < 0x80 → (asChar b = d ↔ c = d)
  single : c.toNat < 0x80 → more = []
  high : ∀ x ∈ more, 0x80 ≤ (asChar x).toNat

theorem exists_leads (c : Char) : ∃ b more, Leads c b more := by
  by_cases ascii : c.toNat < 0x80
  · have same : asChar (UInt8.ofNat c.toNat) = c := by
      rw [asChar, Utf8.toNat_ofNat (by omega), Char.ofNat_toNat]
    refine ⟨_, [], Utf8.encodeChar_ascii ascii, ?_, fun _ => rfl, nofun⟩
    intro d _
    rw [same]
  · have high : ∀ x ∈ String.utf8EncodeChar c, 0x80 ≤ (asChar x).toNat := by
      intro x member
      rw [toNat_asChar]
      exact Utf8.high_of_mem_encodeChar (fun small => ascii (Nat.lt_succ_of_le small)) member
    obtain ⟨b, more, bytes, -⟩ := Utf8.next_encodeChar c []
    rw [bytes] at high
    refine ⟨b, more, bytes, ?_, fun below => absurd below ascii, ?_⟩
    · intro d small
      have above := high b List.mem_cons_self
      refine iff_of_false ?_ ?_
      · rintro rfl
        omega
      · rintro rfl
        exact ascii small
    · exact fun x member => high x (List.mem_cons_of_mem _ member)

section

variable {c : Char} {b : UInt8} {more : Utf8.Bytes} (leads : Leads c b more)

include leads

theorem Leads.encode_cons (rest : Text) :
    Utf8.encode (c :: rest) = b :: (more ++ Utf8.encode rest) := by
  rw [Utf8.encode_cons, leads.bytes, List.cons_append]

theorem Leads.utf8Size : c.utf8Size = more.length + 1 := by
  rw [← String.length_utf8EncodeChar, leads.bytes, List.length_cons]

theorem Leads.asChar (ascii : c.toNat < 0x80) : asChar b = c := (leads.shows c ascii).mpr rfl

/-- What is true of ASCII characters only is true of a character where it is of its first byte. -/
theorem Leads.holds {p : Char → Bool} (ascii : ∀ d, p d = true → d.toNat < 0x80) :
    p (Token.asChar b) = p c := by
  rw [Bool.eq_iff_iff]
  constructor
  · intro here
    rwa [(leads.shows _ (ascii _ here)).mp rfl]
  · intro here
    rwa [leads.asChar (ascii c here)]

end

/-- The first byte of a text shows its first character, as far as that is ASCII. -/
theorem head?_encode {d : Char} (ascii : d.toNat < 0x80) (text : Text) :
    (Utf8.encode text).head?.map asChar = some d ↔ text.head? = some d := by
  cases text with
  | nil => simp [Utf8.encode]
  | cons c rest =>
    obtain ⟨b, more, leads⟩ := exists_leads c
    rw [leads.encode_cons, List.head?_cons, Option.map_some, Option.some_inj, leads.shows d ascii,
      List.head?_cons, Option.some_inj]

theorem any_head?_encode {p : Char → Bool} (ascii : ∀ d, p d = true → d.toNat < 0x80)
    (text : Text) : ((Utf8.encode text).head?.map asChar).any p = text.head?.any p := by
  cases text with
  | nil => rfl
  | cons c rest =>
    obtain ⟨b, more, leads⟩ := exists_leads c
    rw [leads.encode_cons]
    exact leads.holds ascii

theorem toNat_lt_of_isAsciiDigit {c : Char} (h : isAsciiDigit c = true) : c.toNat < 0x80 := by
  have top : c ≤ '9' := (by simpa [isAsciiDigit] using h : '0' ≤ c ∧ c ≤ '9').2
  exact Nat.lt_of_le_of_lt top (by decide)

theorem toNat_lt_of_isAsciiWordPart {c : Char} (h : isAsciiWordPart c = true) : c.toNat < 0x80 := by
  simp only [isAsciiWordPart, isAsciiLetter, Bool.or_eq_true, Bool.and_eq_true,
    decide_eq_true_eq, beq_iff_eq] at h
  obtain ((⟨-, top⟩ | ⟨-, top⟩) | digit) | rfl := h
  · exact Nat.lt_of_le_of_lt top (by decide)
  · exact Nat.lt_of_le_of_lt top (by decide)
  · exact toNat_lt_of_isAsciiDigit digit
  · decide

theorem toNat_lt_of_isGap {c : Char} (h : isGap c = true) : c.toNat < 0x80 := by
  simp only [isGap, Bool.or_eq_true, beq_iff_eq] at h
  obtain ((rfl | rfl) | rfl) | rfl := h <;> decide

/-! ## Literals -/

theorem quotedLength_cons {b : UInt8} (plain : asChar b ≠ '\\') (quote : Char) (rest : Utf8.Bytes) :
    quotedLength quote (b :: rest) =
      if asChar b = quote then 1 else quotedLength quote rest + 1 := by
  cases rest <;> simp [quotedLength, plain]

theorem quotedLength_escape {b : UInt8} (escape : asChar b = '\\') (quote : Char) (taken : UInt8)
    (rest : Utf8.Bytes) :
    quotedLength quote (b :: taken :: rest) = quotedLength quote rest + 2 := by
  simp [quotedLength, escape]

/-- Bytes above ASCII neither close a literal nor escape anything. -/
theorem quotedLength_high {quote : Char} (ascii : quote.toNat < 0x80) {bytes : Utf8.Bytes}
    (high : ∀ x ∈ bytes, 0x80 ≤ (asChar x).toNat) (rest : Utf8.Bytes) :
    quotedLength quote (bytes ++ rest) = bytes.length + quotedLength quote rest := by
  induction bytes with
  | nil => simp
  | cons x bytes ih =>
    obtain ⟨above, others⟩ := List.forall_mem_cons.mp high
    have differs {d : Char} (small : d.toNat < 0x80) : asChar x ≠ d := by
      rintro rfl
      omega
    rw [List.cons_append, quotedLength_cons (differs (by decide)), if_neg (differs ascii), ih others,
      List.length_cons]
    omega

/-- **A quoted literal** ends at the same place by bytes and by characters. -/
theorem quotedLength_encode {quote : Char} (ascii : quote.toNat < 0x80) (notSlash : quote ≠ '\\')
    (text : Text) :
    quotedLength quote (Utf8.encode text) = byteLength (quotedBody quote text).1 := by
  have slash : asChar 0x5c = '\\' := by decide
  have slashSize : Char.utf8Size '\\' = 1 := by decide
  fun_induction quotedBody quote text with
  | case1 => rfl
  | case2 =>
    have bytes : Utf8.encode ['\\'] = [0x5c] := by decide
    simp [bytes, quotedLength, slash, byteLength, slashSize]
  | case3 c rest body ih =>
    -- The byte that the backslash takes with it is the first of the character.
    obtain ⟨b, more, leads⟩ := exists_leads c
    have bytes : Utf8.encode ('\\' :: c :: rest) = 0x5c :: b :: (more ++ Utf8.encode rest) := by
      rw [Utf8.encode_cons, leads.encode_cons]
      rfl
    rw [bytes, quotedLength_escape slash, quotedLength_high ascii leads.high, ih, byteLength,
      byteLength, leads.utf8Size, slashSize]
    show more.length + byteLength body.1 + 2 = 1 + (more.length + 1 + byteLength body.1)
    omega
  | case4 rest =>
    obtain ⟨b, more, leads⟩ := exists_leads quote
    obtain rfl := leads.single ascii
    rw [leads.encode_cons, quotedLength_cons (mt (leads.shows _ (by decide)).mp notSlash),
      if_pos (leads.asChar ascii), byteLength, leads.utf8Size]
    rfl
  | case5 c rest last escape inside body ih =>
    have plain : c ≠ '\\' := by
      rintro rfl
      cases rest with
      | nil => exact last rfl rfl
      | cons d rest => exact escape d rest rfl rfl
    obtain ⟨b, more, leads⟩ := exists_leads c
    rw [leads.encode_cons, quotedLength_cons (mt (leads.shows _ (by decide)).mp plain),
      if_neg (mt (leads.shows _ ascii).mp inside), quotedLength_high ascii leads.high, ih, byteLength,
      leads.utf8Size]
    show more.length + byteLength body.1 + 1 = more.length + 1 + byteLength body.1
    omega

/-- What goes on with a number is ASCII. -/
theorem toNat_lt_of_continues {digits : Text} {c : Char}
    (h : (isAsciiWordPart c || c == '.' || isExponentSign digits c) = true) : c.toNat < 0x80 := by
  simp only [Bool.or_eq_true, beq_iff_eq] at h
  obtain (word | rfl) | sign := h
  · exact toNat_lt_of_isAsciiWordPart word
  · decide
  · simp only [isExponentSign, Bool.and_eq_true, Bool.or_eq_true, beq_iff_eq] at sign
    obtain rfl | rfl := sign.1.1 <;> decide

/-- **A number** ends at the same place by bytes and by characters. -/
theorem numberLength_encode {read : Utf8.Bytes} {digits : Text} (same : read.map asChar = digits)
    (text : Text) :
    numberLength read (Utf8.encode text) = byteLength (numberBody digits text).1 := by
  induction text generalizing read digits with
  | nil => rfl
  | cons c rest ih =>
    obtain ⟨b, more, leads⟩ := exists_leads c
    have alike := leads.holds (p := fun d =>
      isAsciiWordPart d || d == '.' || isExponentSign digits d) fun d => toNat_lt_of_continues
    rw [leads.encode_cons, numberLength, numberBody, same]
    simp only [alike]
    split
    · rename_i continues
      have ascii := toNat_lt_of_continues continues
      obtain rfl := leads.single ascii
      have grown : (read ++ [b]).map asChar = digits ++ [c] := by
        rw [List.map_append, same, List.map_singleton, leads.asChar ascii]
      rw [List.nil_append, ih grown, byteLength, leads.utf8Size, List.length_nil]
      exact Nat.add_comm ..
    · rfl

/-- A raw literal ends at the first backquote, or with the text. -/
theorem byteLength_rawBody (text : Text) : byteLength (rawBody text).1 =
    match cutAt? ['`'] text with
    | some cut => byteLength cut.1 + 1
    | none => byteLength text := by
  have one : Char.utf8Size '`' = 1 := by decide
  fun_induction rawBody text with
  | case1 => rfl
  | case2 rest => simp [cutAt?, strip?, byteLength, one]
  | case3 c rest differs body ih =>
    have missed : strip? ['`'] (c :: rest) = none := by simp [strip?, Ne.symm differs]
    have later : byteLength body.1 = _ := ih
    rw [byteLength, later, cutAt?, missed]
    cases cutAt? ['`'] rest with
    | none => rfl
    | some cut => exact (Nat.add_assoc ..).symm

/-! ## Pieces -/

/-- What the scan comes upon at the first piece of a text. -/
def Found.ofPiece? : Option Piece → Found
  | none => .ending
  | some first => .piece first.kind (byteLength first.text)

theorem utf8Size_of_ascii {c : Char} (ascii : c.toNat < 0x80) : c.utf8Size = 1 := by
  obtain ⟨b, more, leads⟩ := exists_leads c
  rw [leads.utf8Size, leads.single ascii]
  rfl

theorem look?_line (rest : Text) :
    look? 0x2f (Utf8.encode ('/' :: rest)) = some (.ofPiece? (cut? ('/' :: '/' :: rest))) := rfl

theorem look?_block (rest : Text) :
    look? 0x2f (Utf8.encode ('*' :: rest)) = some (.ofPiece? (cut? ('/' :: '*' :: rest))) := by
  have opened : look? 0x2f (Utf8.encode ('*' :: rest)) =
      (Utf8.decode? (Utf8.encode rest)).map fun inner =>
        match cutAt? "*/".toList inner with
        | some cut => .piece none (byteLength cut.1 + 4)
        | none => .ending := rfl
  rw [opened, Utf8.decode?_encode, Option.map_some, cut?]
  cases cutAt? "*/".toList rest with
  | none => rfl
  | some cut =>
    have length : byteLength ('/' :: '*' :: cut.1 ++ "*/".toList) = byteLength cut.1 + 4 := by
      rw [byteLength_append, byteLength, byteLength]
      have close : byteLength "*/".toList = 2 := by decide
      have slash : Char.utf8Size '/' = 1 := by decide
      have star : Char.utf8Size '*' = 1 := by decide
      omega
    rw [Option.map_some, Found.ofPiece?, length]

section

variable {c : Char} {b : UInt8} {more : Utf8.Bytes} (leads : Leads c b more) (rest : Text)

include leads

/-- No comment is seen where none starts. -/
theorem Leads.not_comment (code : c = '/' → ∀ d ∈ rest.head?, d ≠ '/' ∧ d ≠ '*') {d : Char}
    (mark : d = '/' ∨ d = '*') :
    ¬ (Token.asChar b = '/' ∧ (more ++ Utf8.encode rest).head?.map Token.asChar = some d) := by
  rintro ⟨slash, next⟩
  obtain rfl := (leads.shows '/' (by decide)).mp slash
  obtain rfl := leads.single (by decide)
  have ascii : d.toNat < 0x80 := by obtain rfl | rfl := mark <;> decide
  have plain := code rfl d ((head?_encode ascii rest).mp next)
  obtain rfl | rfl := mark
  · exact plain.1 rfl
  · exact plain.2 rfl

/-- A number is seen where one starts. -/
theorem Leads.starts_number :
    (isAsciiDigit (Token.asChar b) || (Token.asChar b = '.' &&
      ((more ++ Utf8.encode rest).head?.map Token.asChar).any isAsciiDigit)) =
    (isAsciiDigit c || (c = '.' && rest.head?.any isAsciiDigit)) := by
  rw [leads.holds fun _ => toNat_lt_of_isAsciiDigit]
  simp only [leads.shows '.' (by decide)]
  by_cases point : c = '.'
  · subst point
    obtain rfl := leads.single (by decide)
    rw [List.nil_append, any_head?_encode fun _ => toNat_lt_of_isAsciiDigit]
  · simp [point]

theorem Leads.quotedLength_add_one (ascii : c.toNat < 0x80) (notSlash : c ≠ '\\') :
    quotedLength (Token.asChar b) (more ++ Utf8.encode rest) + 1 =
      byteLength (c :: (quotedBody c rest).1) := by
  rw [leads.asChar ascii, leads.single ascii, List.nil_append, quotedLength_encode ascii notSlash,
    byteLength, utf8Size_of_ascii ascii, Nat.add_comm]

end

theorem numberBody_cons {c : Char} (start : isAsciiDigit c = true ∨ c = '.') (rest : Text) :
    numberBody [] (c :: rest) = (c :: (numberBody [c] rest).1, (numberBody [c] rest).2) := by
  rw [numberBody, if_pos]
  · rfl
  · obtain digit | point := start
    · simp [isAsciiWordPart, digit]
    · simp [point]

/-- **The piece at a byte** is the one that is cut off the text there. -/
theorem look?_encode {c : Char} {b : UInt8} {more : Utf8.Bytes} (leads : Leads c b more)
    (rest : Text) (code : c = '/' → ∀ d ∈ rest.head?, d ≠ '/' ∧ d ≠ '*') :
    look? b (more ++ Utf8.encode rest) = some (.ofPiece? (cut? (c :: rest))) := by
  have gap : isGap (asChar b) = isGap c := leads.holds fun _ => toNat_lt_of_isGap
  have quote := leads.shows '"' (by decide)
  have rune := leads.shows '\'' (by decide)
  have raw := leads.shows '`' (by decide)
  rw [look?, cut?_cons code, Piece.first, gap, if_neg (leads.not_comment rest code (.inl rfl)),
    if_neg (leads.not_comment rest code (.inr rfl)), leads.starts_number]
  simp only [quote, rune, raw]
  split
  · rename_i isGap
    rw [Found.ofPiece?, byteLength, utf8Size_of_ascii (toNat_lt_of_isGap isGap)]
    rfl
  split
  · rename_i isQuote
    rw [leads.quotedLength_add_one rest (isQuote ▸ by decide) (isQuote ▸ by decide)]
    rfl
  split
  · rename_i isQuote
    rw [leads.quotedLength_add_one rest (isQuote ▸ by decide) (isQuote ▸ by decide)]
    rfl
  split
  · rename_i isRaw
    subst isRaw
    obtain rfl := leads.single (by decide)
    rw [List.nil_append, Utf8.decode?_encode, Option.map_some, Found.ofPiece?, Piece.ofBody, byteLength,
      byteLength_rawBody, utf8Size_of_ascii (by decide), length_encode]
    cases cutAt? ['`'] rest with
    | none => rw [Nat.add_comm]
    | some cut =>
      show some (Found.piece _ (byteLength cut.1 + 1 + 1)) =
        some (Found.piece _ (1 + (byteLength cut.1 + 1)))
      rw [Nat.add_comm 1]
  split
  · rename_i isNumber
    have start : isAsciiDigit c = true ∨ c = '.' := by
      obtain digit | point := Bool.or_eq_true .. |>.mp isNumber
      · exact .inl digit
      · exact .inr (of_decide_eq_true (Bool.and_eq_true .. |>.mp point).1)
    rw [← leads.encode_cons, numberLength_encode rfl, List.map_nil, numberBody_cons start]
    rfl
  · rw [← leads.encode_cons, Utf8.decode?_encode, Option.map_some]
    by_cases start : isNameStart c = true
    · simp only [start, if_true, List.takeWhile_cons, isNamePart_of_isNameStart start]
      rfl
    · simp only [start]
      rfl

/-! ## Scans -/

theorem scanFrom?_ending {b : UInt8} {rest : Utf8.Bytes} (h : look? b rest = some .ending)
    (offset : Nat) : scanFrom? offset (b :: rest) = some [] := by
  rw [scanFrom?]
  split <;> simp_all

theorem scanFrom?_piece {b : UInt8} {rest : Utf8.Bytes} {kind : Option Kind} {length : Nat}
    (h : look? b rest = some (.piece kind length)) (offset : Nat) :
    scanFrom? offset (b :: rest) =
      (scanFrom? (offset + length) ((b :: rest).drop length)).bind fun more =>
        match kind with
        | none => some more
        | some kind => (Utf8.decode? ((b :: rest).take length)).map fun text =>
          ⟨kind, text, offset, offset + length⟩ :: more := by
  rw [scanFrom?]
  split
  · simp_all
  · simp_all
  · rename_i kind' length' found
    obtain ⟨rfl, rfl⟩ : kind = kind' ∧ length = length' := by simpa [h] using found
    cases kind with
    | none => rfl
    | some kind =>
      simp only [bind, Option.map_eq_bind]
      rfl

/-- The piece at the first byte of a text. -/
theorem exists_look? (c : Char) (rest : Text) : ∃ b more, Utf8.encode (c :: rest) = b :: more ∧
    look? b more = some (.ofPiece? (cut? (c :: rest))) := by
  have general (code : c = '/' → ∀ d ∈ rest.head?, d ≠ '/' ∧ d ≠ '*') :
      ∃ b more, Utf8.encode (c :: rest) = b :: more ∧
        look? b more = some (.ofPiece? (cut? (c :: rest))) := by
    obtain ⟨b, more, leads⟩ := exists_leads c
    exact ⟨b, _, leads.encode_cons rest, look?_encode leads rest code⟩
  by_cases slash : c = '/'
  · subst slash
    cases rest with
    | nil => exact general (by simp)
    | cons d rest =>
      by_cases line : d = '/'
      · subst line
        exact ⟨0x2f, _, rfl, look?_line rest⟩
      by_cases block : d = '*'
      · subst block
        exact ⟨0x2f, _, rfl, look?_block rest⟩
      · exact general (by simp [line, block])
  · exact general fun isSlash => absurd isSlash slash

/-- **A scan by bytes** has a result, which is that of the scan by characters. -/
theorem scanFrom?_encode (offset : Nat) (text : Text) :
    scanFrom? offset (Utf8.encode text) = some (tokensFrom offset text) := by
  induction text using piece_induction generalizing offset with
  | done text cut =>
    rw [tokensFrom_of_none cut]
    cases text with
    | nil => rw [Utf8.encode, List.flatMap_nil, scanFrom?]
    | cons c rest =>
      obtain ⟨b, more, bytes, look⟩ := exists_look? c rest
      rw [cut] at look
      rw [bytes, scanFrom?_ending look]
  | step text piece cut ih =>
    rw [tokensFrom_of_cut? cut]
    cases text with
    | nil => cases cut
    | cons c rest =>
      obtain ⟨b, more, bytes, look⟩ := exists_look? c rest
      rw [cut] at look
      have whole : b :: more = Utf8.encode piece.text ++ Utf8.encode piece.rest := by
        rw [← Utf8.encode_append, cut?_append cut, bytes]
      have length : (Utf8.encode piece.text).length = byteLength piece.text := length_encode _
      have after : (b :: more).drop (byteLength piece.text) = Utf8.encode piece.rest := by
        rw [whole, ← length, List.drop_left]
      have taken : (b :: more).take (byteLength piece.text) = Utf8.encode piece.text := by
        rw [whole, ← length, List.take_left]
      rw [bytes, scanFrom?_piece look, after, taken, ih, Utf8.decode?_encode, Piece.token?]
      cases piece.kind <;> rfl

theorem scan?_eq_some (text : Text) : scan? text = some (tokensFrom 0 text) :=
  scanFrom?_encode 0 text

/-- The tokens of a text are those of its pieces. -/
theorem tokenize_eq (text : Text) : tokenize text = tokensFrom 0 text := by
  rw [tokenize, scan?_eq_some]
  rfl

end Token

end Prefill
