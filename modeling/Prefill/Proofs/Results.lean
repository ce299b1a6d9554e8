import Prefill.Proofs.Parentheses
import Prefill.Proofs.Patching

/-!
The tokens of a result. The literal of a canonical output is a number with or without a sign, a
string between quotes, or one of two names (`Result`). Before a text that does not go on with it, it
is read as its own tokens (`exists_readsAs`), and in the place of a zero literal of its kind it
leaves the tokens before it alone (`softer_result`).
-/

namespace Prefill

open Text

namespace Literal

open Token

/-! ## Numbers, strings and names -/

/-- A decimal number without a sign and without an exponent. -/
structure Bare (text : Text) : Prop where
  whole : Whole (some .number) text
  plain : ∀ c ∈ text, isAsciiDigit c = true ∨ c = '.'

theorem continues_of_plain {digits body : Text} (h : ∀ c ∈ body, isAsciiDigit c = true ∨ c = '.') :
    Continues digits body := by
  induction body generalizing digits with
  | nil => trivial
  | cons c body ih =>
    rw [List.forall_mem_cons] at h
    exact ⟨continuesNumber_of_digit h.1 digits, ih h.2⟩

theorem bare_of_digits {text : Text} (h : Digits text) : Bare text := by
  obtain ⟨someText, digits⟩ := h
  have plain : ∀ c ∈ text, isAsciiDigit c = true ∨ c = '.' := fun c member => .inl (digits c member)
  refine ⟨?_, plain⟩
  cases text with
  | nil => exact absurd rfl someText
  | cons c body =>
    exact .number (.inl (digits c (by simp)))
      (continues_of_plain fun d member => plain d (List.mem_cons_of_mem _ member))

theorem bare_of_pointed {text : Text} (h : Pointed text) : Bare text := by
  obtain ⟨whole, fraction, rfl, someDigit, digits⟩ := h
  have plain : ∀ c ∈ whole ++ '.' :: fraction, isAsciiDigit c = true ∨ c = '.' := by
    simp only [List.mem_append, List.mem_cons] at digits ⊢
    rintro c (member | rfl | member)
    · exact .inl (digits c (.inl member))
    · exact .inr rfl
    · exact .inl (digits c (.inr member))
  refine ⟨?_, plain⟩
  have rest {c : Char} {body : Text} (shown : whole ++ '.' :: fraction = c :: body) :
      Continues [c] body :=
    continues_of_plain fun d member => plain d (by simp [shown, member])
  cases whole with
  | cons c whole => exact .number (.inl (digits c (by simp))) (rest rfl)
  | nil =>
    cases fraction with
    | nil => exact absurd rfl someDigit
    | cons d fraction => exact .number (.inr ⟨rfl, digits d (by simp)⟩) (rest rfl)

theorem sign_cases (text : Text) :
    text = unsigned text ∨ ∃ sign, (sign = '+' ∨ sign = '-') ∧ text = sign :: unsigned text := by
  unfold unsigned
  split
  · exact .inr ⟨'+', .inl rfl, rfl⟩
  · exact .inr ⟨'-', .inr rfl, rfl⟩
  · exact .inl rfl

/-- Nothing goes on with a number but a word or a point, unless it ends in the letter of an
exponent. -/
theorem goesOn_number {text : Text} (noLetter : ∀ e ∈ text.getLast?, e ∉ ['e', 'E', 'p', 'P'])
    {c : Char} (ends : (isAsciiWordPart c || c == '.') = false) :
    goesOn (some .number) text c = false := by
  have noExponent : isExponentSign text c = false := by
    unfold isExponentSign
    cases last : text.getLast? with
    | none => simp
    | some e =>
      have notLetter := noLetter e last
      simp only [List.mem_cons, List.not_mem_nil, or_false, not_or] at notLetter
      simp [notLetter]
  simp [goesOn, continuesNumber, ends, noExponent]

theorem notLetter_of_plain {c : Char} (h : isAsciiDigit c = true ∨ c = '.') :
    c ∉ ['e', 'E', 'p', 'P'] := by
  obtain digit | rfl := h
  · exact notMem_of_all (by decide) digit
  · decide

theorem Bare.ne_paren {text : Text} (h : Bare text) : text ≠ ['('] := by
  rintro rfl
  exact absurd (h.plain '(' (by simp)) (by decide)

theorem Bare.passes {text rest : Text} (h : Bare text)
    (ends : ∀ c ∈ rest.head?, (isAsciiWordPart c || c == '.') = false) :
    Passes rest text [(.number, text)] :=
  passes_single h.whole fun c next =>
    goesOn_number (fun e last => notLetter_of_plain (h.plain e (List.mem_of_getLast? last)))
      (ends c next)

theorem closed_append {quote : Char} {text body : Text}
    (plain : ∀ c ∈ text, c ≠ '\\' ∧ c ≠ quote) (h : Closed quote body) :
    Closed quote (text ++ body) := by
  induction text with
  | nil => exact h
  | cons c text ih =>
    rw [List.forall_mem_cons] at plain
    exact .char plain.1.1 plain.1.2 (ih plain.2)

/-- An escape neither closes a literal nor runs into what follows it. -/
theorem closed_escape (c : Char) {body : Text} (h : Closed '"' body) :
    Closed '"' (escape c ++ body) := by
  have small : ∀ n < 0xa0, (hex 2 n ++ hex 4 n).all (fun d => d != '\\' && d != '"') = true := by
    decide +kernel
  have plain {n : Nat} (below : n < 0xa0) {d : Char} (member : d ∈ hex 2 n ++ hex 4 n) :
      d ≠ '\\' ∧ d ≠ '"' := by
    simpa using List.all_eq_true.mp (small n below) d member
  unfold escape
  split
  case h_10 notQuote notSlash _ _ _ _ _ _ _ =>
    split
    · rename_i control
      have below : c.toNat < 0xa0 := by
        simp only [Bool.or_eq_true, decide_eq_true_eq] at control
        omega
      exact .escape (closed_append (fun d member => plain below (by simp [member])) h)
    · split
      · rename_i control
        have below : c.toNat < 0xa0 := by
          simp only [isControl, Bool.or_eq_true, Bool.and_eq_true, decide_eq_true_eq] at control
          omega
        exact .escape (closed_append (fun d member => plain below (by simp [member])) h)
      · exact .char notSlash notQuote h
  all_goals exact .escape h

theorem closed_quote (value : Text) : Closed '"' (value.flatMap escape ++ ['"']) := by
  induction value with
  | nil => exact .close
  | cons c value ih =>
    rw [List.flatMap_cons, List.append_assoc]
    exact closed_escape c ih

theorem whole_ofString (value : Text) : Whole (some .string) (ofString value) := by
  unfold ofString
  split
  · rename_i raw
    simp only [Bool.and_eq_true, Bool.not_eq_true', List.any_eq_false] at raw
    refine .raw fun member => ?_
    exact absurd (raw.2 _ member) (by decide)
  · exact .string (closed_quote value)

/-- A string literal stands between two quotes of one kind. -/
theorem exists_ofString (value : Text) :
    ∃ quote inner, ofString value = quote :: (inner ++ [quote]) ∧ (quote = '"' ∨ quote = '`') :=
  (whole_ofString value).exists_quoted

theorem ofString_ne_paren (value : Text) : ofString value ≠ ['('] := by
  obtain ⟨quote, inner, shown, -⟩ := exists_ofString value
  simp [shown]

/-! ## Results -/

/-- The kinds whose literals are numbers. -/
def isNumber : LiteralKind → Bool
  | .int | .uint | .float => true
  | .string | .bool | .other => false

/-- What the results of a kind look like: a number with or without a sign, a string between quotes,
or one of two names. -/
inductive Result : LiteralKind → Text → Prop
  | number {kind : LiteralKind} {text : Text} :
      isNumber kind = true → Bare (unsigned text) → Result kind text
  | string (value : Text) : Result .string (ofString value)
  | bool {text : Text} : text = "true".toList ∨ text = "false".toList → Result .bool text

theorem result_ofOutput {output : Text} {kind : LiteralKind} (canonical : Canonical output kind) :
    Result kind (ofOutput output kind) := by
  cases kind with
  | int | uint => exact .number rfl (bare_of_digits canonical)
  | float => exact .number rfl (bare_of_pointed canonical)
  | string => exact .string _
  | bool =>
    apply Result.bool
    obtain shown | shown := canonical <;> rw [ofOutput, shown]
    · exact .inl (by decide)
    · exact .inr (by decide)
  | other => exact canonical.elim

theorem numeral_of_bare {text : Text} (bare : Bare (unsigned text)) :
    ∀ c ∈ text, isNumeral c = true := by
  apply numeral_of_unsigned
  intro c member
  obtain digit | rfl := bare.plain c member
  · simp [isNumeral, digit]
  · rfl

/-- A character that can stand at the edge of a result: it is no blank, and it makes no comment, no
assignment and no list of what it touches. -/
def Edge (c : Char) : Prop := isBlank c = false ∧ c ∉ ['/', '*', '=', ',']

theorem edge_of_numeral {c : Char} (h : isNumeral c = true) : Edge c := by
  obtain ⟨low, high, -⟩ := isNumeral_graphic h
  exact ⟨isBlank_of_graphic low high, notMem_of_all (by decide) h⟩

namespace Result

variable {kind : LiteralKind} {result : Text}

theorem exists_first (h : Result kind result) : ∃ c rest, result = c :: rest ∧ Edge c := by
  cases h with
  | number _ bare =>
    cases result with
    | nil => cases bare.whole
    | cons c rest => exact ⟨c, rest, rfl, edge_of_numeral (numeral_of_bare bare c (by simp))⟩
  | string value =>
    obtain ⟨quote, inner, shown, rfl | rfl⟩ := exists_ofString value <;> rw [shown] <;>
      exact ⟨_, _, rfl, by decide, by decide⟩
  | bool shown =>
    obtain rfl | rfl := shown <;> exact ⟨_, _, rfl, by decide, by decide⟩

theorem exists_last (h : Result kind result) : ∃ front c, result = front ++ [c] ∧ Edge c := by
  cases h with
  | number _ bare =>
    obtain rfl | ⟨front, c, rfl⟩ := List.eq_nil_or_concat result
    · cases bare.whole
    · exact ⟨front, c, by simp, edge_of_numeral (numeral_of_bare bare c (by simp))⟩
  | string value =>
    obtain ⟨quote, inner, shown, rfl | rfl⟩ := exists_ofString value <;> rw [shown] <;>
      exact ⟨_ :: inner, _, rfl, by decide, by decide⟩
  | bool shown =>
    obtain rfl | rfl := shown
    · exact ⟨"tru".toList, 'e', by decide, by decide, by decide⟩
    · exact ⟨"fals".toList, 'e', by decide, by decide, by decide⟩

/-- A result adds no parenthesis, whatever follows it. -/
theorem opens_append (h : Result kind result) (rest : Text) :
    opens (result ++ rest) = opens rest := by
  cases h with
  | number _ bare =>
    apply opens_of_inert
    intro c member
    exact notMem_of_all (by decide) (numeral_of_bare bare c member)
  | string value =>
    rw [opens_of_whole (whole_ofString value) fun _ _ => rfl]
    simp [parens, ofString_ne_paren value]
  | bool shown =>
    have name : result.all isNamePart = true := by
      obtain rfl | rfl := shown <;> decide
    apply opens_of_inert
    intro c member
    exact isNamePart_notMem (List.all_eq_true.mp name c member)

end Result

end Literal

namespace Patch

open Token Literal

/-! ## Zero literals -/

/-- The literals that hold the zero value of a kind. -/
def zeros : LiteralKind → List (Token.Kind × Text)
  | .string => [(.string, ['"', '"']), (.string, ['`', '`'])]
  | .int | .uint => [(.number, ['0'])]
  | .float => [(.number, ['0', '.', '0']), (.number, ['0'])]
  | .bool => [(.name, "false".toList)]
  | .other => []

theorem isZeroOf_iff {kind : LiteralKind} {token : Token} :
    isZeroOf kind token = true ↔ token.shape ∈ zeros kind := by
  cases kind <;> simp [isZeroOf, zeros, shape, and_or_left]

theorem zero_of_isNumber {kind : LiteralKind} (number : isNumber kind = true) {token : Token.Kind}
    {zero : Text} (isZero : (token, zero) ∈ zeros kind) :
    token = .number ∧ ∃ rest, zero = '0' :: rest := by
  have all : ∀ shape ∈ zeros kind, shape.1 = .number ∧ shape.2.head? = some '0' := by
    cases kind with
    | int | uint | float => decide
    | string | bool | other => cases number
  obtain ⟨isToken, first⟩ := all _ isZero
  exact ⟨isToken, List.head?_eq_some_iff.mp first⟩

/-- Whether a result is a zero literal behind a sign. -/
def isSignedZero (kind : LiteralKind) : Text → Bool
  | [] => false
  | sign :: zero => (sign == '+' || sign == '-') && decide ((Token.Kind.number, zero) ∈ zeros kind)

/-! ## The tokens of a result -/

/-- Whether a character goes on with the literals of a kind. -/
def prolongs (kind : LiteralKind) (c : Char) : Bool :=
  match kind with
  | .int | .uint | .float => isAsciiWordPart c || c == '.'
  | .bool => isNamePart c
  | .string | .other => false

theorem prolongs_of_isNumber {kind : LiteralKind} (number : isNumber kind = true) (c : Char) :
    prolongs kind c = (isAsciiWordPart c || c == '.') := by
  cases kind with
  | int | uint | float => rfl
  | string | bool | other => cases number

/-- What follows a zero literal does not go on with a literal of its kind. -/
theorem not_prolongs {kind : LiteralKind} {token : Token.Kind} {zero back : Text}
    (isZero : (token, zero) ∈ zeros kind)
    (cut : cut? (zero ++ back) = some ⟨some token, zero, back⟩) :
    ∀ c ∈ back.head?, prolongs kind c = false := by
  intro c next
  have more : back ≠ [] := by
    rintro rfl
    cases next
  have ends := (whole_of_cut? cut (.inl more)).2 c next
  cases number : isNumber kind with
  | true =>
    obtain ⟨rfl, -⟩ := zero_of_isNumber number isZero
    rw [prolongs_of_isNumber number]
    exact (Bool.or_eq_false_iff.mp ends).1
  | false =>
    cases kind with
    | int | uint | float => cases number
    | string | other => rfl
    | bool =>
      obtain ⟨rfl, -⟩ : token = .name ∧ zero = "false".toList := by simpa [zeros] using isZero
      exact ends

/-- The tokens of a result before a text: none is a parenthesis, and none is a zero literal other
than the result itself, unless the result is a zero behind a sign. -/
structure ReadsAs (kind : LiteralKind) (result rest : Text) (passed : List (Token.Kind × Text)) :
    Prop where
  passes : Passes rest result passed
  noParen : parens passed = 0
  noZero : isSignedZero kind result = false →
    ∀ token ∈ passed, token ∈ zeros kind → token.2 = result

theorem readsAs_single {kind : LiteralKind} {token : Token.Kind} {result rest : Text}
    (passes : Passes rest result [(token, result)]) (notParen : result ≠ ['(']) :
    ReadsAs kind result rest [(token, result)] := by
  refine ⟨passes, by simp [parens, notParen], ?_⟩
  rintro - _ (_ | ⟨_, ⟨⟩⟩) -
  rfl

/-- A sign is a token of its own. -/
theorem passes_signed {sign : Char} {number rest : Text} {passed : List (Token.Kind × Text)}
    (isSign : sign = '+' ∨ sign = '-') (h : Passes rest number passed) :
    Passes rest (sign :: number) ((.punctuation, [sign]) :: passed) := by
  have mark : Whole (some .punctuation) [sign] ∧ sign ≠ '/' ∧ sign ≠ '.' := by
    obtain rfl | rfl := isSign <;> exact ⟨.punctuation (by decide), by decide⟩
  obtain ⟨mark, notSlash, notPoint⟩ := mark
  refine .cons mark (fun c _ => ?_) h
  simp [goesOn, notSlash, notPoint]

theorem readsAs_signed {kind : LiteralKind} {sign : Char} {number rest : Text}
    (isSign : sign = '+' ∨ sign = '-') (bare : Bare number)
    (ends : ∀ c ∈ rest.head?, (isAsciiWordPart c || c == '.') = false) :
    ReadsAs kind (sign :: number) rest [(.punctuation, [sign]), (.number, number)] := by
  refine ⟨passes_signed isSign (bare.passes ends), ?_, ?_⟩
  · have notParen : sign ≠ '(' := by obtain rfl | rfl := isSign <;> decide
    simp [parens, notParen, bare.ne_paren]
  · intro unsigned token member isZero
    have zero : (Token.Kind.number, number) ∉ zeros kind := by
      simpa [isSignedZero, isSign] using unsigned
    have mark : (Token.Kind.punctuation, [sign]) ∉ zeros kind := by
      cases kind <;> simp [zeros]
    simp only [List.mem_cons, List.not_mem_nil, or_false] at member
    obtain rfl | rfl := member
    · exact absurd isZero mark
    · exact absurd isZero zero

/-- **Every result can be read off** before a text that does not go on with it. -/
theorem exists_readsAs {kind : LiteralKind} {result rest : Text} (h : Result kind result)
    (ends : ∀ c ∈ rest.head?, prolongs kind c = false) :
    ∃ passed, ReadsAs kind result rest passed := by
  cases h with
  | number number bare =>
    simp only [prolongs_of_isNumber number] at ends
    obtain plain | ⟨sign, isSign, signed⟩ := sign_cases result
    · rw [← plain] at bare
      exact ⟨_, readsAs_single (bare.passes ends) bare.ne_paren⟩
    · rw [signed]
      exact ⟨_, readsAs_signed isSign bare ends⟩
  | string value =>
    have passes : Passes rest (ofString value) [(.string, ofString value)] :=
      passes_single (whole_ofString value) fun _ _ => rfl
    exact ⟨_, readsAs_single passes (ofString_ne_paren value)⟩
  | bool shown =>
    have name : Whole (some .name) result ∧ result ≠ ['('] := by
      obtain rfl | rfl := shown <;>
        exact ⟨.name (by decide) (List.all_eq_true.mp (by decide)), by decide⟩
    exact ⟨_, readsAs_single (passes_single name.1 ends) name.2⟩

/-- A result in the place of a zero literal leaves alone what stands before it. -/
theorem softer_result {kind : LiteralKind} {c d : Char} {rest zero : Text}
    (h : Result kind (d :: rest)) {token : Token.Kind} (isZero : (token, c :: zero) ∈ zeros kind)
    (piece : Option Token.Kind) (text : Text) (alone : goesOn piece text c = false) :
    goesOn piece text d = false := by
  obtain ⟨_, _, ⟨⟩, -, notMark⟩ := h.exists_first
  simp only [List.mem_cons, not_or] at notMark
  obtain ⟨notSlash, notStar, -⟩ := notMark
  generalize shown : d :: rest = result at h
  cases h with
  | number number =>
    obtain ⟨-, _, ⟨⟩⟩ := zero_of_isNumber number isZero
    exact softer_word (by decide) (by decide) (fun _ => rfl) notSlash notStar piece text alone
  | string value =>
    obtain ⟨quote, inner, between, isQuote⟩ := exists_ofString value
    rw [between] at shown
    obtain ⟨rfl, -⟩ := List.cons.inj shown
    exact goesOn_quote isQuote piece text
  | bool isBool =>
    have zeroName : c = 'f' := by
      simp only [zeros, List.mem_singleton, Prod.mk.injEq] at isZero
      exact (List.cons.inj isZero.2).1
    have notDigit : isAsciiDigit d = false := by
      subst shown
      obtain shown | shown := isBool <;> rw [(List.cons.inj shown).1] <;> decide
    subst zeroName
    exact softer_word (by decide) (by decide) (by simp [notDigit]) notSlash notStar piece text alone

end Patch

end Prefill
