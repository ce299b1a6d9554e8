import Prefill.Token

/-!
Pieces of a text, read character by character. `cut?` takes one piece off the front of a text, and
`tokensFrom` repeats it. A piece is never empty and the rest is what follows it, so the scan ends and
the tokens lie in the text in order.
-/

namespace Prefill

open Text

namespace Token

/-- A quoted literal after its opening quote, up to the closing one or the end of the text. A
backslash takes the next character with it. -/
def quotedBody (quote : Char) : Text → Text × Text
  | [] => ([], [])
  | ['\\'] => (['\\'], [])
  | '\\' :: c :: rest =>
    let body := quotedBody quote rest
    ('\\' :: c :: body.1, body.2)
  | c :: rest =>
    if c = quote then ([c], rest)
    else
      let body := quotedBody quote rest
      (c :: body.1, body.2)

/-- A raw literal after its opening backquote, up to the closing one or the end of the text. -/
def rawBody : Text → Text × Text
  | [] => ([], [])
  | c :: rest =>
    if c = '`' then ([c], rest)
    else
      let body := rawBody rest
      (c :: body.1, body.2)

/-- The rest of a number whose first characters have been read. -/
def numberBody (digits : Text) : Text → Text × Text
  | [] => ([], [])
  | c :: rest =>
    if isAsciiWordPart c || c == '.' || isExponentSign digits c then
      let body := numberBody (digits ++ [c]) rest
      (c :: body.1, body.2)
    else ([], c :: rest)

/-- A piece of a text: a token, or a gap between tokens when it has no kind. -/
structure Piece where
  kind : Option Kind
  text : Text
  rest : Text

/-- A piece that goes on after its first character. -/
def Piece.ofBody (kind : Kind) (first : Char) (body : Text × Text) : Piece :=
  ⟨some kind, first :: body.1, body.2⟩

/-- The first piece of a text that starts with `c` and with no comment. -/
def Piece.first (c : Char) (rest : Text) : Piece :=
  if isGap c then ⟨none, [c], rest⟩
  else if c = '"' then .ofBody .string c (quotedBody c rest)
  else if c = '\'' then .ofBody .rune c (quotedBody c rest)
  else if c = '`' then .ofBody .string c (rawBody rest)
  else if isAsciiDigit c || (c = '.' && rest.head?.any isAsciiDigit) then
    .ofBody .number c (numberBody [c] rest)
  else if isNameStart c then
    .ofBody .name c (rest.takeWhile isNamePart, rest.dropWhile isNamePart)
  else ⟨some .punctuation, [c], rest⟩

/-- Takes the first piece off a text; there is none at the end, at a line comment, and at a block
comment that is not closed. -/
def cut? : Text → Option Piece
  | [] => none
  | '/' :: '/' :: _ => none
  | '/' :: '*' :: rest =>
    (cutAt? "*/".toList rest).map fun cut =>
      ⟨none, '/' :: '*' :: cut.1 ++ "*/".toList, cut.2⟩
  | c :: rest => some (.first c rest)

theorem cut?_cons {c : Char} {rest : Text}
    (code : c = '/' → ∀ d ∈ rest.head?, d ≠ '/' ∧ d ≠ '*') :
    cut? (c :: rest) = some (.first c rest) := by
  rw [cut?]
  · rintro rest' rfl rfl
    exact (code rfl '/' rfl).1 rfl
  · rintro rest' rfl rfl
    exact (code rfl '*' rfl).2 rfl

theorem quotedBody_append (quote : Char) (text : Text) :
    (quotedBody quote text).1 ++ (quotedBody quote text).2 = text := by
  fun_induction quotedBody quote text with
  | case1 => rfl
  | case2 => rfl
  | case3 c rest body ih => simp [body, ih]
  | case4 => rfl
  | case5 c rest _ _ _ body ih => simp [body, ih]

theorem rawBody_append (text : Text) : (rawBody text).1 ++ (rawBody text).2 = text := by
  fun_induction rawBody text with
  | case1 => rfl
  | case2 => rfl
  | case3 c rest _ body ih => simp [body, ih]

theorem numberBody_append (digits text : Text) :
    (numberBody digits text).1 ++ (numberBody digits text).2 = text := by
  fun_induction numberBody digits text with
  | case1 => rfl
  | case2 digits c rest _ body ih => simp [body, ih]
  | case3 => rfl

/-- The first piece and the rest make up the text. -/
theorem cut?_append {text : Text} {piece : Piece} (h : cut? text = some piece) :
    piece.text ++ piece.rest = text := by
  unfold cut? at h
  split at h
  · simp at h
  · simp at h
  · obtain ⟨⟨inner, tail⟩, found, rfl⟩ := Option.map_eq_some_iff.1 h
    simp [cutAt?_append found]
  · obtain rfl := Option.some.inj h
    unfold Piece.first
    repeat' split
    all_goals simp [Piece.ofBody, quotedBody_append, rawBody_append, numberBody_append]

/-- A piece is never empty. -/
theorem cut?_ne_nil {text : Text} {piece : Piece} (h : cut? text = some piece) :
    piece.text ≠ [] := by
  unfold cut? at h
  split at h
  · simp at h
  · simp at h
  · obtain ⟨⟨inner, tail⟩, found, rfl⟩ := Option.map_eq_some_iff.1 h
    simp
  · obtain rfl := Option.some.inj h
    unfold Piece.first
    repeat' split
    all_goals simp [Piece.ofBody]

theorem cut?_rest_length_lt {text : Text} {piece : Piece} (h : cut? text = some piece) :
    piece.rest.length < text.length := by
  have whole := cut?_append h
  have someText := List.length_pos_iff.2 (cut?_ne_nil h)
  rw [← whole, List.length_append]
  omega

/-- The tokens of a text that starts at a byte offset. -/
def tokensFrom (offset : Nat) (text : Text) : List Token :=
  match _h : cut? text with
  | none => []
  | some piece =>
    let stop := offset + byteLength piece.text
    let more := tokensFrom stop piece.rest
    match piece.kind with
    | some kind => ⟨kind, piece.text, offset, stop⟩ :: more
    | none => more
termination_by text.length
decreasing_by exact cut?_rest_length_lt _h

/-- The token that a piece at an offset is; a gap is none. -/
def Piece.token? (piece : Piece) (offset : Nat) : Option Token :=
  piece.kind.map fun kind => ⟨kind, piece.text, offset, offset + byteLength piece.text⟩

theorem tokensFrom_of_none {text : Text} (h : cut? text = none) (offset : Nat) :
    tokensFrom offset text = [] := by
  rw [tokensFrom]
  split
  · rfl
  · simp_all

theorem tokensFrom_of_cut? {text : Text} {piece : Piece} (h : cut? text = some piece)
    (offset : Nat) :
    tokensFrom offset text = (piece.token? offset).toList ++
      tokensFrom (offset + byteLength piece.text) piece.rest := by
  rw [tokensFrom]
  split
  · simp_all
  · rename_i found cut
    obtain rfl : found = piece := Option.some.inj (cut.symm.trans h)
    rw [Piece.token?]
    cases found.kind <;> rfl

/-- A scan takes one piece after the other. -/
@[elab_as_elim]
theorem piece_induction {motive : Text → Prop}
    (done : ∀ text, cut? text = none → motive text)
    (step : ∀ text piece, cut? text = some piece → motive piece.rest → motive text)
    (text : Text) : motive text := by
  cases cut : cut? text with
  | none => exact done text cut
  | some piece => exact step text piece cut (piece_induction done step piece.rest)
termination_by text.length
decreasing_by exact cut?_rest_length_lt cut

end Token

end Prefill
