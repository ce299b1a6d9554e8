import Prefill.Proofs.Repatching

/-!
A result in the place of a zero literal. The tokens before the literal stay where they are, the
tokens of the result take its place, and those behind it move by the difference in length: the
result neither runs into its neighbours nor changes how they are read.

* `tokensFrom_eq_shift`: the tokens of a text that stands elsewhere;
* `Printed`, `fits_of_printed`: the literals that values are printed as;
* `zero_replaced_alone`: the tokens after the replacement.
-/

namespace Prefill

open Text

namespace Token

/-! ## Tokens of a text that stands elsewhere -/

/-- A token that stands a number of bytes further on, or further back. -/
def shift (distance : Int) (token : Token) : Token :=
  { token with
    start := (token.start + distance).toNat
    stop := (token.stop + distance).toNat }

theorem Piece.token?_eq_shift (piece : Piece) (here there : Nat) :
    piece.token? there = (piece.token? here).map (shift (there - here)) := by
  have moved (n : Nat) : (((here + n : Nat) : Int) + (there - here)).toNat = there + n := by omega
  have start := moved 0
  have stop := moved (byteLength piece.text)
  rw [Nat.add_zero, Nat.add_zero] at start
  rw [token?, token?, Option.map_map]
  congr 1
  funext kind
  rw [Function.comp_apply, shift, start, stop]

/-- The tokens of a text that stands elsewhere. -/
theorem tokensFrom_eq_shift (here there : Nat) (text : Text) :
    tokensFrom there text = (tokensFrom here text).map (shift (there - here)) := by
  induction text using piece_induction generalizing here there with
  | done text cut => rw [tokensFrom_of_none cut, tokensFrom_of_none cut, List.map_nil]
  | step text piece cut ih =>
    have distance : ((there + byteLength piece.text : Nat) : Int) -
        (here + byteLength piece.text : Nat) = there - here := by omega
    rw [tokensFrom_of_cut? cut, tokensFrom_of_cut? cut, List.map_append,
      ih (here + byteLength piece.text), distance, piece.token?_eq_shift here]
    cases piece.token? here <;> rfl

end Token

namespace Literal

open Token

/-! ## Floats with an exponent -/

/-- A decimal number with an exponent. -/
def Scientific (text : Text) : Prop :=
  ∃ mantissa mark exponent, text = mantissa ++ mark :: exponent ∧
    (Digits mantissa ∨ Pointed mantissa) ∧ (mark = 'e' ∨ mark = 'E') ∧ Digits (unsigned exponent)

/-- What printing a value of a kind gives: a canonical output, or a float with an exponent. -/
def Printed (output : Text) (kind : LiteralKind) : Prop :=
  Canonical output kind ∨ kind = .float ∧ Scientific (unsigned (trim output))

theorem continues_append {digits body more : Text} (h : Continues digits body)
    (rest : Continues (digits ++ body) more) : Continues digits (body ++ more) := by
  induction body generalizing digits with
  | nil => simpa using rest
  | cons c body ih => exact ⟨h.1, ih h.2 (by simpa using rest)⟩

theorem isHex_eq_false {digits : Text} (lower : 'x' ∉ digits) (upper : 'X' ∉ digits) :
    isHex digits = false := by
  unfold isHex
  split
  · simp only [List.mem_cons, not_or] at lower upper
    simp [Ne.symm lower.2.1, Ne.symm upper.2.1]
  · rfl

/-- The digits of an exponent go on with a number, and so does the sign before them. -/
theorem continues_exponent {mantissa exponent : Text} {mark : Char} (bare : Bare mantissa)
    (isMark : mark = 'e' ∨ mark = 'E') (digits : Digits (unsigned exponent)) :
    Continues mantissa (mark :: exponent) := by
  have plain (c : Char) (member : c ∈ unsigned exponent) : isAsciiDigit c = true ∨ c = '.' :=
    .inl (digits.2 c member)
  have marked : continuesNumber mantissa mark = true := by
    obtain rfl | rfl := isMark <;> simp [continuesNumber, isAsciiWordPart, isAsciiLetter]
  refine ⟨marked, ?_⟩
  obtain unsignedEq | ⟨sign, isSign, signed⟩ := sign_cases exponent
  · rw [unsignedEq]
    exact continues_of_plain plain
  · rw [signed]
    refine ⟨?_, continues_of_plain plain⟩
    have decimal (c : Char) (notPlain : isAsciiDigit c = false ∧ c ≠ '.') (notMark : c ≠ mark) :
        c ∉ mantissa ++ [mark] := by
      rw [List.mem_append, List.mem_singleton, not_or]
      refine ⟨fun member => ?_, notMark⟩
      obtain digit | point := bare.plain c member
      · simp [digit] at notPlain
      · exact notPlain.2 point
    have notHex : isHex (mantissa ++ [mark]) = false := by
      apply isHex_eq_false <;> apply decimal <;> obtain rfl | rfl := isMark <;> decide
    obtain rfl | rfl := isSign <;> obtain rfl | rfl := isMark <;>
      simp [continuesNumber, isExponentSign, notHex]

theorem Bare.number_append {mantissa more : Text} (bare : Bare mantissa)
    (continues : Continues mantissa more) : Whole (some .number) (mantissa ++ more) := by
  obtain ⟨whole, -⟩ := bare
  cases whole with
  | @number c body start bodyContinues =>
    refine .number (start.imp_right fun point => ⟨point.1, ?_⟩)
      (continues_append bodyContinues continues)
    cases body with
    | nil => cases point.2
    | cons d body => exact point.2

theorem exists_last_digit {text : Text} (h : Digits (unsigned text)) :
    ∃ front digit, text = front ++ [digit] ∧ isAsciiDigit digit = true := by
  have last := List.dropLast_concat_getLast h.1
  have isDigit := h.2 _ (List.getLast_mem h.1)
  obtain plain | ⟨sign, -, signed⟩ := sign_cases text
  · exact ⟨_, _, plain.trans last.symm, isDigit⟩
  · exact ⟨sign :: (unsigned text).dropLast, _, by rw [List.cons_append, last, ← signed], isDigit⟩

/-- A number with an exponent is one token. -/
theorem Scientific.passes {text rest : Text} (h : Scientific text)
    (ends : ∀ c ∈ rest.head?, (isAsciiWordPart c || c == '.') = false) :
    Passes rest text [(.number, text)] := by
  obtain ⟨mantissa, mark, exponent, rfl, decimal, isMark, digits⟩ := h
  have bare : Bare mantissa := decimal.elim bare_of_digits bare_of_pointed
  have whole := bare.number_append (continues_exponent bare isMark digits)
  refine passes_single whole fun c next => goesOn_number ?_ (ends c next)
  obtain ⟨front, digit, rfl, isDigit⟩ := exists_last_digit digits
  intro e last
  rw [← List.cons_append, ← List.append_assoc, List.getLast?_concat] at last
  obtain rfl := Option.some.inj last
  exact notLetter_of_plain (.inl isDigit)

/-- A number with an exponent, and with or without a sign, starts like a number without one. -/
theorem Scientific.exists_first {result : Text} (h : Scientific (unsigned result)) :
    ∃ c rest, result = c :: rest ∧ c ≠ '/' ∧ c ≠ '*' := by
  obtain ⟨mantissa, mark, exponent, shown, decimal, -, -⟩ := h
  obtain plain | ⟨sign, isSign, signed⟩ := sign_cases result
  · have bare : Bare mantissa := decimal.elim bare_of_digits bare_of_pointed
    cases mantissa with
    | nil => cases bare.whole
    | cons c mantissa =>
      refine ⟨c, _, plain.trans shown, ?_⟩
      obtain digit | rfl := bare.plain c (by simp)
      · have notMark : c ∉ ['/', '*'] := notMem_of_all (by decide) digit
        simpa using notMark
      · decide
  · exact ⟨sign, _, signed, by obtain rfl | rfl := isSign <;> decide⟩

end Literal

namespace Patch

open Token Literal

/-! ## Literals in the place of a zero -/

/-- A literal that can take the place of a zero literal of a kind: it is read off before whatever
may follow the zero, and it leaves alone what the zero leaves alone before it. -/
structure Fits (kind : LiteralKind) (result : Text) : Prop where
  passes : ∀ rest : Text, (∀ c ∈ rest.head?, prolongs kind c = false) →
    ∃ passed, Passes rest result passed
  softer : ∀ token c zero, (token, c :: zero) ∈ zeros kind → ∃ d more, result = d :: more ∧
    ∀ piece text, goesOn piece text c = false → goesOn piece text d = false

theorem fits_of_result {kind : LiteralKind} {result : Text} (h : Result kind result) :
    Fits kind result where
  passes rest ends := by
    obtain ⟨passed, reads⟩ := exists_readsAs h ends
    exact ⟨passed, reads.passes⟩
  softer token c zero isZero := by
    obtain ⟨d, more, rfl, -⟩ := h.exists_first
    exact ⟨d, more, rfl, softer_result h isZero⟩

theorem fits_of_scientific {result : Text} (h : Scientific (unsigned result)) :
    Fits .float result where
  passes rest ends := by
    have passes := h.passes ends
    obtain plain | ⟨sign, isSign, signed⟩ := sign_cases result
    · rw [← plain] at passes
      exact ⟨_, passes⟩
    · rw [signed]
      exact ⟨_, passes_signed isSign passes⟩
  softer token c zero isZero := by
    obtain ⟨-, _, ⟨⟩⟩ := zero_of_isNumber rfl isZero
    obtain ⟨d, more, shown, notSlash, notStar⟩ := h.exists_first
    exact ⟨d, more, shown, softer_word (by decide) (by decide) (fun _ => rfl) notSlash notStar⟩

theorem fits_of_printed {output : Text} {kind : LiteralKind} (h : Printed output kind) :
    Fits kind (ofOutput output kind) := by
  obtain canonical | ⟨rfl, scientific⟩ := h
  · exact fits_of_result (result_ofOutput canonical)
  · exact fits_of_scientific scientific

/-- **Replacing a zero literal disturbs no other token.** The tokens before the literal stay, the
tokens of the result stand in its place, and the tokens behind it move by the difference in
length. -/
theorem zero_replaced_alone {text output : Text} {kind : LiteralKind} {span : Span}
    (printed : Printed output kind) (found : zeroLiteral? text kind = some span) :
    ∃ before token after, tokenize text = before ++ token :: after ∧ Span.ofToken token = span ∧
      tokenize (splice text span (ofOutput output kind)) =
        before ++ (tokenize (ofOutput output kind)).map (shift span.start) ++
          after.map
            (shift (byteLength (ofOutput output kind) - (span.stop - span.start : Nat))) := by
  have fits := fits_of_printed printed
  generalize ofOutput output kind = result at fits
  obtain ⟨token, member, rfl, isZero⟩ := exists_of_zeroLiteral? found
  obtain ⟨_, _, scan⟩ := List.append_of_mem member
  obtain ⟨front, back, stands⟩ := exists_stands ((tokenize_eq _).symm.trans scan)
  have start : token.start = byteLength front := by rw [stands.start, Nat.zero_add]
  have stop : token.stop = byteLength front + byteLength token.text := by
    rw [stands.stop, Nat.zero_add]
  -- The scan comes to the place of the literal as before, whatever stands there.
  obtain ⟨c, zero, shown⟩ : ∃ c zero, token.text = c :: zero :=
    List.exists_cons_of_ne_nil (cut?_ne_nil stands.cut)
  obtain ⟨d, more, rfl, softer⟩ := fits.softer token.kind c zero (shown ▸ isZero)
  have before : Passes (d :: more ++ back) front _ :=
    Passes.swap (shown ▸ stands.passes) softer
  obtain ⟨passed, reads⟩ := fits.passes back (not_prolongs isZero stands.cut)
  have replaced : splice text (.ofToken token) (d :: more) = front ++ (d :: more ++ back) := by
    rw [stands.text, Span.ofToken, start, stop, splice_between]
  refine ⟨tokensFrom 0 front, token, tokensFrom token.stop back, ?_, rfl, ?_⟩
  · have here :
        Piece.token? ⟨some token.kind, token.text, back⟩ (byteLength front) = some token := by
      rw [Piece.token?, Option.map_some, ← stop, ← start]
    rw [tokenize_eq, stands.text, stands.passes.tokensFrom_parts, tokensFrom_of_cut? stands.cut,
      Nat.zero_add, here, stop]
    rfl
  · have distance : ((byteLength front + byteLength (d :: more) : Nat) : Int) - token.stop =
        byteLength (d :: more) - (token.stop - token.start : Nat) := by omega
    rw [replaced, tokenize_eq, before.tokensFrom_parts, reads.tokensFrom_parts, Nat.zero_add,
      tokensFrom_eq_shift 0 (byteLength front), tokensFrom_eq_shift token.stop (_ + _) back,
      distance, List.append_assoc, tokenize_eq, Span.ofToken, start, Int.natCast_zero, Int.sub_zero]

/-- The sign and the exponent of a float stand between a sign and a slash that they touch. -/
theorem negative_float_replaced :
    Printed " -1.5e+21\n".toList .float ∧ zeroLiteral? "a[0]-0.0/b".toList .float = some ⟨5, 8⟩ ∧
      ∃ before token after, tokenize "a[0]-0.0/b".toList = before ++ token :: after ∧
        Span.ofToken token = ⟨5, 8⟩ ∧
        tokenize (splice "a[0]-0.0/b".toList ⟨5, 8⟩ (ofOutput " -1.5e+21\n".toList .float)) =
          before ++ (tokenize (ofOutput " -1.5e+21\n".toList .float)).map (shift 5) ++
            after.map
              (shift (byteLength (ofOutput " -1.5e+21\n".toList .float) - (8 - 5 : Nat))) := by
  have digits {text : Text} (someDigit : text ≠ []) (all : text.all isAsciiDigit = true) :
      Digits text := ⟨someDigit, List.all_eq_true.mp all⟩
  have printed : Printed " -1.5e+21\n".toList .float :=
    .inr ⟨rfl, "1.5".toList, 'e', "+21".toList, by decide,
      .inr ⟨['1'], ['5'], rfl, digits (by decide) (by decide)⟩, .inl rfl,
      digits (by decide) (by decide)⟩
  have found : zeroLiteral? "a[0]-0.0/b".toList .float = some ⟨5, 8⟩ := by decide +kernel
  exact ⟨printed, found, zero_replaced_alone printed found⟩

end Patch

end Prefill
