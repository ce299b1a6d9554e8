import Mathlib.Data.List.TakeWhile
import Prefill.Proofs.ByteSteps

/-!
Where the pieces of a text end. A piece that something follows is of one of a few classes (`Whole`),
and it is read the same before every character that does not go on with it (`goesOn`). So the tokens
before a place of a text stay what they are when the text from there on is another one.

* `cut?_of_whole`, `whole_of_cut?`: the pieces of a text;
* `exists_stands`: how a scan comes to a token;
* `Passes.swap`: what a scan has passed, before another text.
-/

namespace Prefill

open Text

namespace Token

/-! ## Classes of pieces -/

/-- Whether a character goes on with a number whose first characters have been read. -/
def continuesNumber (digits : Text) (c : Char) : Bool :=
  isAsciiWordPart c || c == '.' || isExponentSign digits c

theorem continuesNumber_of_digit {c : Char} (h : isAsciiDigit c = true ∨ c = '.') (digits : Text) :
    continuesNumber digits c = true := by
  obtain digit | rfl := h
  · simp [continuesNumber, isAsciiWordPart, digit]
  · simp [continuesNumber]

/-- Characters that go on with a number, one after the other. -/
def Continues (digits : Text) : Text → Prop
  | [] => True
  | c :: rest => continuesNumber digits c = true ∧ Continues (digits ++ [c]) rest

/-- A quoted literal after its opening quote, with the quote that closes it. -/
inductive Closed (quote : Char) : Text → Prop
  | close : Closed quote [quote]
  | escape {c : Char} {body : Text} : Closed quote body → Closed quote ('\\' :: c :: body)
  | char {c : Char} {body : Text} :
      c ≠ '\\' → c ≠ quote → Closed quote body → Closed quote (c :: body)

/-- The characters that are a piece of their own. -/
def isMark (c : Char) : Bool :=
  !(isGap c || c == '"' || c == '\'' || c == '`' || isAsciiDigit c || isNameStart c)

/-- The pieces that say themselves where they end, or that end where nothing goes on with them. -/
inductive Whole : Option Kind → Text → Prop
  | gap {c : Char} : isGap c = true → Whole none [c]
  | comment {inner : Text} :
      cutAt? "*/".toList (inner ++ "*/".toList) = some (inner, []) →
      Whole none ('/' :: '*' :: (inner ++ "*/".toList))
  | string {body : Text} : Closed '"' body → Whole (some .string) ('"' :: body)
  | rune {body : Text} : Closed '\'' body → Whole (some .rune) ('\'' :: body)
  | raw {inner : Text} : '`' ∉ inner → Whole (some .string) ('`' :: (inner ++ ['`']))
  | number {c : Char} {body : Text} :
      isAsciiDigit c = true ∨ c = '.' ∧ body.head?.any isAsciiDigit = true →
      Continues [c] body → Whole (some .number) (c :: body)
  | name {c : Char} {body : Text} :
      isNameStart c = true → (∀ d ∈ body, isNamePart d = true) → Whole (some .name) (c :: body)
  | punctuation {c : Char} : isMark c = true → Whole (some .punctuation) [c]

/-- Whether a piece would be read otherwise with a character after it. -/
def goesOn (kind : Option Kind) (text : Text) (c : Char) : Bool :=
  match kind with
  | some .number => continuesNumber text c
  | some .name => isNamePart c
  | some .punctuation =>
    (text = ['/'] && (c == '/' || c == '*')) || (text = ['.'] && isAsciiDigit c)
  | _ => false

/-! ### The bodies of literals -/

theorem Closed.exists_inner {quote : Char} {body : Text} (h : Closed quote body) :
    ∃ inner, body = inner ++ [quote] := by
  induction h with
  | close => exact ⟨[], rfl⟩
  | @escape c body _ ih =>
    obtain ⟨inner, rfl⟩ := ih
    exact ⟨'\\' :: c :: inner, rfl⟩
  | @char c body _ _ _ ih =>
    obtain ⟨inner, rfl⟩ := ih
    exact ⟨c :: inner, rfl⟩

/-- A string stands between two quotes of one kind. -/
theorem Whole.exists_quoted {text : Text} (whole : Whole (some .string) text) :
    ∃ quote inner, text = quote :: (inner ++ [quote]) ∧ (quote = '"' ∨ quote = '`') := by
  cases whole with
  | string closed =>
    obtain ⟨inner, rfl⟩ := closed.exists_inner
    exact ⟨'"', inner, rfl, .inl rfl⟩
  | raw _ => exact ⟨'`', _, rfl, .inr rfl⟩

theorem numberBody_eq_iff (digits : Text) {body rest : Text} :
    numberBody digits (body ++ rest) = (body, rest) ↔
      Continues digits body ∧ ∀ c ∈ rest.head?, continuesNumber (digits ++ body) c = false := by
  induction body generalizing digits with
  | nil =>
    cases rest with
    | nil => simp [numberBody, Continues]
    | cons c rest =>
      rw [List.nil_append, numberBody, ← continuesNumber]
      cases goes : continuesNumber digits c <;> simp [Continues, goes]
  | cons c body ih =>
    rw [List.cons_append, numberBody, ← continuesNumber, Continues, and_assoc]
    cases goes : continuesNumber digits c with
    | false => simp
    | true =>
      have restIff := ih (digits ++ [c])
      rw [List.append_assoc, List.singleton_append] at restIff
      rw [← restIff]
      simp [Prod.ext_iff]

theorem quotedBody_of_closed {quote : Char} {body : Text} (h : Closed quote body)
    (notSlash : quote ≠ '\\') (rest : Text) : quotedBody quote (body ++ rest) = (body, rest) := by
  induction h with
  | close => simp [quotedBody, notSlash]
  | escape _ ih => simp [quotedBody, ih]
  | char plain inside _ ih => simp [quotedBody, plain, inside, ih]

theorem closed_of_quotedBody {quote : Char} {text : Text}
    (more : (quotedBody quote text).2 ≠ []) : Closed quote (quotedBody quote text).1 := by
  fun_induction quotedBody quote text with
  | case1 => exact absurd rfl more
  | case2 => exact absurd rfl more
  | case3 c rest body ih => exact .escape (ih more)
  | case4 rest => exact .close
  | case5 c rest last escape inside body ih =>
    refine .char ?_ inside (ih more)
    rintro rfl
    cases rest with
    | nil => exact last rfl rfl
    | cons d rest => exact escape d rest rfl rfl

theorem rawBody_close {inner : Text} (inside : '`' ∉ inner) (rest : Text) :
    rawBody (inner ++ '`' :: rest) = (inner ++ ['`'], rest) := by
  induction inner with
  | nil => simp [rawBody]
  | cons c inner ih =>
    rw [List.mem_cons, not_or] at inside
    simp [rawBody, Ne.symm inside.1, ih inside.2]

theorem exists_of_rawBody {text : Text} (more : (rawBody text).2 ≠ []) :
    ∃ inner, '`' ∉ inner ∧ (rawBody text).1 = inner ++ ['`'] := by
  fun_induction rawBody text with
  | case1 => exact absurd rfl more
  | case2 => exact ⟨[], by simp, rfl⟩
  | case3 c rest inside body ih =>
    obtain ⟨inner, unquoted, shape⟩ := ih more
    exact ⟨c :: inner, by simp [unquoted, Ne.symm inside], by simp [body, shape]⟩

/-- A comment ends where it is closed, whatever follows it. -/
theorem cutAt?_close {needle inner rest : Text} (notEmpty : needle ≠ [])
    (cut : cutAt? needle (inner ++ needle ++ rest) = some (inner, rest)) (rest' : Text) :
    cutAt? needle (inner ++ needle ++ rest') = some (inner, rest') := by
  obtain ⟨left, again⟩ := cutAt?_congr rest' cut notEmpty (by simp)
  have whole := cutAt?_append again
  rw [List.append_cancel_left_eq] at whole
  rw [again, whole]

/-! ### Cutting a piece off -/

/-- Only a slash can end a scan. -/
theorem exists_cut? {c : Char} (notSlash : c ≠ '/') (rest : Text) :
    ∃ piece, cut? (c :: rest) = some piece :=
  ⟨_, cut?_cons fun slash => absurd slash notSlash⟩

theorem notMem_of_all {isIn : Char → Bool} {others : List Char}
    (none : others.all (fun d => !isIn d) = true) {c : Char} (h : isIn c = true) : c ∉ others := by
  intro member
  have out := List.all_eq_true.mp none c member
  rw [h] at out
  cases out

/-- The characters that open a gap, a comment or a quoted literal. -/
def openers : List Char := [' ', '\t', '\r', '\n', '"', '\'', '`', '/']

theorem not_opener {c : Char} (h : c ∉ openers) :
    isGap c = false ∧ c ≠ '"' ∧ c ≠ '\'' ∧ c ≠ '`' ∧ c ≠ '/' := by
  simp only [openers, List.mem_cons, not_or] at h
  obtain ⟨space, tab, ret, feed, quote, rune, raw, slash, -⟩ := h
  exact ⟨by simp [isGap, space, tab, ret, feed], quote, rune, raw, slash⟩

theorem isNumberStart_notMem {c : Char} (h : isAsciiDigit c = true ∨ c = '.') : c ∉ openers := by
  obtain digit | rfl := h
  · exact notMem_of_all (by decide) digit
  · decide

theorem isNameStart_notMem {c : Char} (h : isNameStart c = true) : c ∉ openers :=
  notMem_of_all (by decide) h

theorem isAsciiDigit_of_isNameStart {c : Char} (h : isNameStart c = true) :
    isAsciiDigit c = false := by
  have digits : ∀ n < 58, 48 ≤ n → isNameStart (Char.ofNat n) = false := by decide
  cases digit : isAsciiDigit c with
  | false => rfl
  | true =>
    simp only [isAsciiDigit, Bool.and_eq_true, decide_eq_true_eq] at digit
    have low : 48 ≤ c.toNat := digit.1
    have high : c.toNat ≤ 57 := digit.2
    have never := digits c.toNat (by omega) low
    rw [Char.ofNat_toNat, h] at never
    cases never

/-- **Whole pieces are cut off** before every text that does not go on with them. -/
theorem cut?_of_whole {kind : Option Kind} {text rest : Text} (whole : Whole kind text)
    (ends : ∀ c ∈ rest.head?, goesOn kind text c = false) :
    cut? (text ++ rest) = some ⟨kind, text, rest⟩ := by
  cases whole with
  | gap isGapC =>
    rw [List.singleton_append, cut?_cons, Piece.first, if_pos isGapC]
    rintro rfl
    exact absurd isGapC (by decide)
  | @comment inner closed =>
    rw [← List.append_nil (inner ++ _)] at closed
    have cut := cutAt?_close (by decide) closed rest
    rw [List.cons_append, List.cons_append, cut?, cut]
    rfl
  | string closed =>
    rw [List.cons_append, cut?_cons (by simp), Piece.first, if_neg (by decide), if_pos rfl,
      quotedBody_of_closed closed (by decide)]
    rfl
  | rune closed =>
    rw [List.cons_append, cut?_cons (by simp), Piece.first, if_neg (by decide),
      if_neg (by decide), if_pos rfl, quotedBody_of_closed closed (by decide)]
    rfl
  | raw inside =>
    rw [List.cons_append, cut?_cons (by simp), Piece.first, if_neg (by decide),
      if_neg (by decide), if_neg (by decide), if_pos rfl, List.append_assoc, List.singleton_append,
      rawBody_close inside]
    rfl
  | @number c body start continues =>
    obtain ⟨notGap, notQuote, notRune, notRaw, notSlash⟩ :=
      not_opener (isNumberStart_notMem (start.imp_right And.left))
    have digits :
        (isAsciiDigit c || (c = '.' && (body ++ rest).head?.any isAsciiDigit)) = true := by
      obtain digit | ⟨point, next⟩ := start
      · simp [digit]
      · cases body with
        | nil => cases next
        | cons d body => simpa [point] using .inr next
    rw [List.cons_append, cut?_cons (by simp [notSlash]), Piece.first, if_neg (by simp [notGap]),
      if_neg notQuote, if_neg notRune, if_neg notRaw, if_pos digits,
      (numberBody_eq_iff _).mpr ⟨continues, ends⟩]
    rfl
  | @name c body start parts =>
    obtain ⟨notGap, notQuote, notRune, notRaw, notSlash⟩ := not_opener (isNameStart_notMem start)
    have notDigit := isAsciiDigit_of_isNameStart start
    have notPoint : c ≠ '.' := by
      rintro rfl
      exact absurd start (by decide)
    have stops : rest.takeWhile isNamePart = [] ∧ rest.dropWhile isNamePart = rest := by
      cases rest with
      | nil => exact ⟨rfl, rfl⟩
      | cons d rest =>
        have stop : isNamePart d = false := ends d rfl
        simp [stop]
    rw [List.cons_append, cut?_cons (by simp [notSlash]), Piece.first, if_neg (by simp [notGap]),
      if_neg notQuote, if_neg notRune, if_neg notRaw, if_neg (by simp [notPoint, notDigit]),
      if_pos start, List.takeWhile_append_of_pos parts, List.dropWhile_append_of_pos parts,
      stops.1, stops.2, List.append_nil]
    rfl
  | @punctuation c mark =>
    simp only [isMark, Bool.not_eq_true', Bool.or_eq_false_iff, beq_eq_false_iff_ne] at mark
    obtain ⟨⟨⟨⟨⟨notGap, notQuote⟩, notRune⟩, notRaw⟩, notDigit⟩, notName⟩ := mark
    simp only [goesOn, Bool.or_eq_false_iff, Bool.and_eq_false_imp, decide_eq_true_eq,
      beq_eq_false_iff_ne, List.cons.injEq, and_true] at ends
    have notNumber : (isAsciiDigit c || (c = '.' && rest.head?.any isAsciiDigit)) = false := by
      cases rest with
      | nil => simp [notDigit]
      | cons d rest => simpa [notDigit] using (ends d rfl).2
    rw [List.singleton_append, cut?_cons fun slash d next => (ends d next).1 slash,
      Piece.first, if_neg (by simp [notGap]), if_neg notQuote, if_neg notRune, if_neg notRaw,
      if_neg (by simp [notNumber]), if_neg (by simp [notName])]

/-- A number that is cut off has taken all that goes on with it. -/
theorem number_of_numberBody {c : Char} {rest body left : Text}
    (read : numberBody [c] rest = (body, left))
    (start : isAsciiDigit c = true ∨ c = '.' ∧ rest.head?.any isAsciiDigit = true) :
    Whole (some .number) (c :: body) ∧ ∀ d ∈ left.head?, continuesNumber (c :: body) d = false := by
  have whole := numberBody_append [c] rest
  rw [read] at whole
  subst whole
  obtain ⟨continues, ends⟩ := (numberBody_eq_iff _).mp read
  refine ⟨.number (start.imp_right fun point => ⟨point.1, ?_⟩) continues, ends⟩
  have next := point.2
  cases body with
  | cons d body => exact next
  | nil =>
    -- A digit after a point would have been taken.
    cases left with
    | nil => exact next
    | cons d left =>
      have stops := ends d rfl
      rw [continuesNumber_of_digit (.inl next)] at stops
      cases stops

/-- **The pieces of a text are whole** where something follows them. At the end of a text only a
quoted literal may be cut off unclosed. -/
theorem whole_of_cut? {text : Text} {piece : Piece} (h : cut? text = some piece)
    (more : piece.rest ≠ [] ∨ ∃ c ∈ text.head?, c ≠ '"' ∧ c ≠ '\'' ∧ c ≠ '`') :
    Whole piece.kind piece.text ∧
      ∀ c ∈ piece.rest.head?, goesOn piece.kind piece.text c = false := by
  unfold cut? at h
  split at h
  · cases h
  · cases h
  · obtain ⟨⟨inner, tail⟩, cut, rfl⟩ := Option.map_eq_some_iff.mp h
    have whole := cutAt?_append cut
    rw [whole] at cut
    have closed := cutAt?_close (by decide) cut []
    rw [List.append_nil] at closed
    exact ⟨.comment closed, fun _ _ => rfl⟩
  · rename_i c rest noLine noBlock
    -- The classes in the order in which they are tried.
    replace h := Option.some.inj h
    unfold Piece.first at h
    split at h
    · cases h
      exact ⟨.gap ‹_›, fun _ _ => rfl⟩
    split at h
    · subst c
      cases h
      exact ⟨.string (closed_of_quotedBody (more.resolve_right (by simp))), fun _ _ => rfl⟩
    split at h
    · subst c
      cases h
      exact ⟨.rune (closed_of_quotedBody (more.resolve_right (by simp))), fun _ _ => rfl⟩
    split at h
    · subst c
      cases h
      obtain ⟨inner, inside, shape⟩ := exists_of_rawBody (more.resolve_right (by simp))
      rw [Piece.ofBody, shape]
      exact ⟨.raw inside, fun _ _ => rfl⟩
    split at h
    · rename_i number
      cases h
      exact number_of_numberBody rfl (by simpa using number)
    split at h
    · rename_i start
      cases h
      refine ⟨.name start fun d member => List.mem_takeWhile_imp member, ?_⟩
      intro d next
      have next : (rest.dropWhile isNamePart).head? = some d := next
      have stops := List.head?_dropWhile_not isNamePart rest
      rwa [next] at stops
    · rename_i notGap notQuote notRune notRaw notNumber notName
      cases h
      simp only [Bool.not_eq_true, Bool.or_eq_false_iff] at notNumber
      refine ⟨.punctuation ?_, ?_⟩
      · simp [isMark, notGap, notQuote, notRune, notRaw, notNumber.1, notName]
      · intro d next
        obtain ⟨left, rfl⟩ := List.head?_eq_some_iff.mp next
        have code : c = '/' → d ≠ '/' ∧ d ≠ '*' := by
          intro slash
          exact ⟨fun line => noLine left slash (by rw [line]),
            fun block => noBlock left slash (by rw [block])⟩
        have point : c = '.' → isAsciiDigit d = false := by simpa using notNumber.2
        simpa [goesOn] using ⟨code, point⟩

/-! ## Scans -/

/-- What a token reads, wherever it stands. -/
def shape (token : Token) : Kind × Text := (token.kind, token.text)

/-- The tokens of a text without their places. -/
def shapes (text : Text) : List (Kind × Text) := (tokenize text).map shape

def Piece.shape? (piece : Piece) : Option (Kind × Text) := piece.kind.map (·, piece.text)

theorem Piece.map_shape_token? (piece : Piece) (offset : Nat) :
    (piece.token? offset).toList.map shape = piece.shape?.toList := by
  rw [token?, shape?]
  cases piece.kind <;> rfl

/-- The tokens of a text read the same wherever the text stands. -/
theorem map_shape_tokensFrom (offset : Nat) (text : Text) :
    (tokensFrom offset text).map shape = shapes text := by
  rw [shapes, tokenize_eq]
  generalize 0 = offset'
  induction text using piece_induction generalizing offset offset' with
  | done text cut => rw [tokensFrom_of_none cut, tokensFrom_of_none cut]
  | step text piece cut ih =>
    rw [tokensFrom_of_cut? cut, tokensFrom_of_cut? cut, List.map_append, List.map_append,
      Piece.map_shape_token?, Piece.map_shape_token?, ih _ _]

theorem shapes_of_none {text : Text} (h : cut? text = none) : shapes text = [] := by
  rw [shapes, tokenize_eq, tokensFrom_of_none h]
  rfl

theorem shapes_of_cut? {text : Text} {piece : Piece} (h : cut? text = some piece) :
    shapes text = piece.shape?.toList ++ shapes piece.rest := by
  rw [← map_shape_tokensFrom 0 text, tokensFrom_of_cut? h, List.map_append, map_shape_tokensFrom,
    Piece.map_shape_token?]

/-- A scan that has come to `rest` has passed a text and the tokens of it. No piece of it goes on
with what follows. -/
inductive Passes (rest : Text) : Text → List (Kind × Text) → Prop
  | nil : Passes rest [] []
  | cons {kind : Option Kind} {text front : Text} {passed : List (Kind × Text)} :
      Whole kind text → (∀ c ∈ (front ++ rest).head?, goesOn kind text c = false) →
      Passes rest front passed → Passes rest (text ++ front) ((kind.map (·, text)).toList ++ passed)

namespace Passes

variable {front rest : Text} {passed : List (Kind × Text)}

/-- What a scan has passed are the first tokens of the text. -/
theorem tokensFrom_append (h : Passes rest front passed) (offset : Nat) :
    ∃ tokens, tokens.map shape = passed ∧ tokensFrom offset (front ++ rest) =
      tokens ++ tokensFrom (offset + byteLength front) rest := by
  induction h generalizing offset with
  | nil => exact ⟨[], rfl, rfl⟩
  | @cons kind text front passed whole ends _ ih =>
    obtain ⟨tokens, shapes, scan⟩ := ih (offset + byteLength text)
    have cut := cut?_of_whole whole ends
    refine ⟨(Piece.token? ⟨kind, text, front ++ rest⟩ offset).toList ++ tokens, ?_, ?_⟩
    · rw [List.map_append, Piece.map_shape_token?, shapes]
      rfl
    · rw [List.append_assoc, tokensFrom_of_cut? cut, scan, byteLength_append, Nat.add_assoc,
        List.append_assoc]

/-- Where no piece runs over the end of its first part, a text has the tokens of both parts. -/
theorem tokensFrom_parts (h : Passes rest front passed) (offset : Nat) :
    tokensFrom offset (front ++ rest) =
      tokensFrom offset front ++ tokensFrom (offset + byteLength front) rest := by
  induction h generalizing offset with
  | nil =>
    have empty : tokensFrom offset [] = [] := tokensFrom_of_none rfl offset
    rw [empty]
    rfl
  | @cons kind text front passed whole ends _ ih =>
    have alone : ∀ c ∈ front.head?, goesOn kind text c = false := by
      intro c first
      obtain ⟨more, rfl⟩ := List.head?_eq_some_iff.mp first
      exact ends c rfl
    rw [List.append_assoc, tokensFrom_of_cut? (cut?_of_whole whole ends),
      tokensFrom_of_cut? (cut?_of_whole whole alone), ih, byteLength_append, Nat.add_assoc,
      List.append_assoc]
    rfl

theorem shapes_append (h : Passes rest front passed) :
    shapes (front ++ rest) = passed ++ shapes rest := by
  obtain ⟨tokens, shown, scan⟩ := h.tokensFrom_append 0
  rw [← map_shape_tokensFrom 0, scan, List.map_append, shown, map_shape_tokensFrom]

/-- **What a scan has passed does not depend on the text after it**, as long as nothing that the
first text left as it is goes on with the second. -/
theorem swap {c c' : Char} {after after' : Text} (h : Passes (c :: after) front passed)
    (softer : ∀ kind text, goesOn kind text c = false → goesOn kind text c' = false) :
    Passes (c' :: after') front passed := by
  induction h with
  | nil => exact .nil
  | @cons kind text front passed whole ends _ ih =>
    refine .cons whole ?_ ih
    -- Only the last piece is followed by another character than before.
    cases front with
    | nil =>
      rintro _ ⟨⟩
      exact softer kind text (ends c rfl)
    | cons d front => exact ends

end Passes

/-- Where a token stands in a text that is scanned from an offset. -/
structure Stands (offset : Nat) (text : Text) (before : List Token) (token : Token)
    (after : List Token) (front back : Text) : Prop where
  text : text = front ++ (token.text ++ back)
  start : token.start = offset + byteLength front
  stop : token.stop = offset + byteLength front + byteLength token.text
  passes : Passes (token.text ++ back) front (before.map shape)
  cut : cut? (token.text ++ back) = some ⟨some token.kind, token.text, back⟩
  after : after = tokensFrom token.stop back

/-- A token in the rest after a piece stands behind the piece. -/
theorem Stands.behind {offset : Nat} {text front back : Text} {piece : Piece}
    {before after : List Token} {token : Token} (cut : cut? text = some piece)
    (h : Stands (offset + byteLength piece.text) piece.rest before token after front back) :
    Stands offset text ((piece.token? offset).toList ++ before) token after (piece.text ++ front)
      back := by
  have more : piece.rest ≠ [] := by
    have someText := cut?_ne_nil h.cut
    rw [h.text]
    simp [someText]
  obtain ⟨whole, ends⟩ := whole_of_cut? cut (.inl more)
  rw [h.text] at ends
  refine ⟨?_, ?_, ?_, ?_, h.cut, h.after⟩
  · rw [← cut?_append cut, h.text, List.append_assoc]
  · rw [h.start, byteLength_append, Nat.add_assoc]
  · rw [h.stop, byteLength_append, Nat.add_assoc offset]
  · rw [List.map_append, Piece.map_shape_token?]
    exact .cons whole ends h.passes

/-- **Every token has its place.** -/
theorem exists_stands {offset : Nat} {text : Text} {before after : List Token} {token : Token}
    (h : tokensFrom offset text = before ++ token :: after) :
    ∃ front back, Stands offset text before token after front back := by
  induction text using piece_induction generalizing offset before with
  | done text cut => simp [tokensFrom_of_none cut] at h
  | step text piece cut ih =>
    rw [tokensFrom_of_cut? cut] at h
    cases isToken : piece.kind with
    | none =>
      have gap : piece.token? offset = none := by rw [Piece.token?, isToken]; rfl
      rw [gap] at h
      obtain ⟨front, back, stands⟩ := ih h
      have behind := stands.behind cut
      rw [gap] at behind
      exact ⟨_, back, behind⟩
    | some kind =>
      have here : piece.token? offset =
          some ⟨kind, piece.text, offset, offset + byteLength piece.text⟩ := by
        rw [Piece.token?, isToken]
        rfl
      rw [here] at h
      obtain ⟨rfl, first⟩ | ⟨before, rfl, rest⟩ := List.cons_eq_append_iff.mp h
      · obtain ⟨rfl, rfl⟩ := List.cons.inj first
        refine ⟨[], piece.rest, (cut?_append cut).symm, rfl, rfl, .nil, ?_, rfl⟩
        rw [cut?_append cut, cut, ← isToken]
      · obtain ⟨front, back, stands⟩ := ih rest
        have behind := stands.behind cut
        rw [here] at behind
        exact ⟨_, back, behind⟩

theorem passes_single {kind : Kind} {text rest : Text} (whole : Whole (some kind) text)
    (ends : ∀ c ∈ rest.head?, goesOn (some kind) text c = false) :
    Passes rest text [(kind, text)] := by
  have passes : Passes rest (text ++ []) [(kind, text)] := .cons whole ends .nil
  rwa [List.append_nil] at passes

/-! ## What may take the place of a word or a quote -/

/-- A character that may start a number or a name leaves alone what a word character does. -/
theorem softer_word {c d : Char} (word : isAsciiWordPart c = true) (part : isNamePart c = true)
    (digit : isAsciiDigit d = true → isAsciiDigit c = true) (notSlash : d ≠ '/') (notStar : d ≠ '*')
    (kind : Option Kind) (text : Text) (h : goesOn kind text c = false) :
    goesOn kind text d = false := by
  unfold goesOn at h ⊢
  split at h
  · simp [continuesNumber, word] at h
  · rw [part] at h
    cases h
  · simp only [Bool.or_eq_false_iff, Bool.and_eq_false_imp, decide_eq_true_eq] at h
    simp only [notSlash, notStar, Bool.or_eq_false_iff, Bool.and_eq_false_imp, decide_eq_true_eq,
      beq_eq_false_iff_ne, ne_eq, not_false_eq_true, and_self, implies_true, true_and]
    intro point
    cases isDigit : isAsciiDigit d with
    | false => rfl
    | true =>
      rw [h.2 point] at digit
      exact absurd (digit isDigit) (by decide)
  · rfl

theorem goesOn_quote {d : Char} (quote : d = '"' ∨ d = '`') (kind : Option Kind) (text : Text) :
    goesOn kind text d = false := by
  have plain : isAsciiWordPart d = false ∧ isNamePart d = false ∧ isAsciiDigit d = false ∧
      d ≠ '.' ∧ d ≠ '+' ∧ d ≠ '-' ∧ d ≠ '/' ∧ d ≠ '*' := by
    obtain rfl | rfl := quote <;> decide
  obtain ⟨notWord, notPart, notDigit, notPoint, notPlus, notMinus, notSlash, notStar⟩ := plain
  unfold goesOn
  split
  · simp [continuesNumber, isExponentSign, notWord, notPoint, notPlus, notMinus]
  · exact notPart
  · simp [notDigit, notSlash, notStar]
  · rfl

end Token

end Prefill
