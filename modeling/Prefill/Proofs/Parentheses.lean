import Prefill.Proofs.Boundaries

/-!
Open parentheses among the tokens of a text. Numbers, names and other marks may run together at the
place where two texts meet, but none of them has a parenthesis in it. So the parentheses of a text
can be counted in its parts.

* `opens_of_inert`: a text without delimiters adds none;
* `opens_front`: those before a place do not depend on the text from there on.
-/

namespace Prefill

open Text

namespace Token

/-- The open parentheses among some tokens. -/
def parens (tokens : List (Kind × Text)) : Nat := tokens.countP fun token => token.2 = ['(']

theorem parens_append (tokens more : List (Kind × Text)) :
    parens (tokens ++ more) = parens tokens + parens more := List.countP_append

/-- The open parentheses of a text. -/
def opens (text : Text) : Nat := parens (shapes text)

/-- The characters that open a literal, a comment or a parenthesis. -/
def delimiters : List Char := ['"', '\'', '`', '/', '(']

/-- A text without delimiters: gaps, numbers, names and other marks. -/
def Inert (text : Text) : Prop := ∀ c ∈ text, c ∉ delimiters

theorem continuesNumber_notMem {digits : Text} {c : Char} (h : continuesNumber digits c = true) :
    c ∉ delimiters := by
  simp only [continuesNumber, isExponentSign, Bool.or_eq_true, Bool.and_eq_true, beq_iff_eq] at h
  obtain (part | rfl) | ⟨⟨rfl | rfl, -⟩, -⟩ := h
  · exact notMem_of_all (by decide) part
  all_goals decide

theorem isNamePart_notMem {c : Char} (h : isNamePart c = true) : c ∉ delimiters :=
  notMem_of_all (by decide) h

theorem inert_of_continues {digits body : Text} (h : Continues digits body) : Inert body := by
  induction body generalizing digits with
  | nil => exact List.forall_mem_nil _
  | cons c body ih => exact List.forall_mem_cons.mpr ⟨continuesNumber_notMem h.1, ih h.2⟩

/-- A piece that starts without a delimiter has none. -/
theorem Whole.inert {kind : Option Kind} {c : Char} {text : Text} (whole : Whole kind (c :: text))
    (first : c ∉ delimiters) : Inert (c :: text) := by
  refine List.forall_mem_cons.mpr ⟨first, ?_⟩
  cases whole with
  | gap | punctuation => exact List.forall_mem_nil _
  | comment | string | rune | raw => exact absurd first (by decide)
  | number _ continues => exact inert_of_continues continues
  | name _ parts => exact fun d member => isNamePart_notMem (parts d member)

/-- A piece that starts with a delimiter is left alone by everything but a slash or a star. -/
theorem Whole.goesOn_of_delimiter {kind : Option Kind} {c d : Char} {text : Text}
    (whole : Whole kind (c :: text)) (first : c ∈ delimiters) (notSlash : d ≠ '/')
    (notStar : d ≠ '*') : goesOn kind (c :: text) d = false := by
  cases whole with
  | gap | comment | string | rune | raw => rfl
  | number start =>
    have number := continuesNumber_of_digit (start.imp_right And.left) []
    exact absurd first (continuesNumber_notMem number)
  | name start =>
    have part : isNamePart c = true := by
      simp only [isNameStart, isNamePart, isAlphanumeric, Bool.or_eq_true] at start ⊢
      exact start.imp_left .inl
    exact absurd first (isNamePart_notMem part)
  | punctuation =>
    have notPoint : c ≠ '.' := by
      rintro rfl
      exact absurd first (by decide)
    simp [goesOn, notSlash, notStar, notPoint]

theorem opens_of_cut? {text : Text} {piece : Piece} (h : cut? text = some piece) :
    opens text = parens piece.shape?.toList + opens piece.rest := by
  rw [opens, shapes_of_cut? h, parens_append, ← opens]

theorem opens_of_whole {kind : Option Kind} {text rest : Text} (whole : Whole kind text)
    (ends : ∀ c ∈ rest.head?, goesOn kind text c = false) :
    opens (text ++ rest) = parens (kind.map (·, text)).toList + opens rest :=
  opens_of_cut? (cut?_of_whole whole ends)

theorem parens_of_inert {kind : Option Kind} {text : Text} (inert : Inert text) :
    parens (kind.map (·, text)).toList = 0 := by
  have notParen : text ≠ ['('] := by
    rintro rfl
    exact inert '(' (by simp) (by decide)
  cases kind <;> simp [parens, notParen]

/-- The first piece of an inert text is inert. -/
theorem inert_of_cut? {c : Char} {rest : Text} {piece : Piece} (cut : cut? (c :: rest) = some piece)
    (first : c ∉ delimiters) : Inert piece.text := by
  have whole := cut?_append cut
  have plain : c ≠ '"' ∧ c ≠ '\'' ∧ c ≠ '`' := by
    simp only [delimiters, List.mem_cons, not_or] at first
    exact ⟨first.1, first.2.1, first.2.2.1⟩
  have isWhole := (whole_of_cut? cut (.inr ⟨c, rfl, plain⟩)).1
  cases shown : piece.text with
  | nil => exact absurd shown (cut?_ne_nil cut)
  | cons d text =>
    rw [shown, List.cons_append] at whole
    obtain ⟨rfl, -⟩ := List.cons.inj whole
    rw [shown] at isWhole
    exact isWhole.inert first

/-- **Inert text before a text adds no parenthesis** and hides none, even where a number or a name
runs from the one into the other. -/
theorem opens_of_inert {front : Text} (inert : Inert front) (rest : Text) :
    opens (front ++ rest) = opens rest := by
  induction size : (front ++ rest).length using Nat.strong_induction_on generalizing front rest with
  | _ n ih =>
  cases front with
  | nil => rfl
  | cons c front =>
    have first : c ∉ delimiters := inert c (by simp)
    have notSlash : c ≠ '/' := by
      rintro rfl
      exact first (by decide)
    obtain ⟨piece, cut⟩ := exists_cut? notSlash (front ++ rest)
    have pieceInert := inert_of_cut? cut first
    have someText := List.length_pos_iff.mpr (cut?_ne_nil cut)
    rw [List.cons_append, opens_of_cut? cut, Piece.shape?, parens_of_inert pieceInert, Nat.zero_add]
    have whole : piece.text ++ piece.rest = c :: front ++ rest := cut?_append cut
    have lengths := congrArg List.length whole
    rw [List.length_append, size] at lengths
    -- The piece ends within the first text, or it goes on into the second.
    obtain ⟨left, shown, after⟩ | ⟨beyond, shown, rfl⟩ := List.append_eq_append_iff.mp whole
    · have leftInert : Inert left := fun d member => inert d (by simp [shown, member])
      rw [after] at lengths ⊢
      exact ih (left ++ rest).length (by omega) leftInert rest rfl
    · have beyondInert : Inert beyond := fun d member => pieceInert d (by simp [shown, member])
      have fewer : (beyond ++ piece.rest).length < n := by
        simp only [List.length_append, List.length_cons] at size ⊢
        omega
      exact (ih _ fewer beyondInert piece.rest rfl).symm

/-- **The parentheses before a place** stay what they are when another text follows there. -/
theorem opens_front {front after after' : Text} {passed : List (Kind × Text)} {c d : Char}
    (h : Passes (c :: after) front passed) (notSlash : d ≠ '/') (notStar : d ≠ '*') :
    opens (front ++ d :: after') = parens passed + opens (d :: after') := by
  induction h with
  | nil => simp [parens]
  | @cons kind text front passed whole ends _ ih =>
    rw [parens_append, Nat.add_assoc, ← ih, List.append_assoc]
    -- Only the last piece has a new neighbour, and only an inert one can run together with it.
    cases front with
    | cons e front => exact opens_of_whole whole ends
    | nil =>
      cases text with
      | nil => cases whole
      | cons a text =>
        by_cases first : a ∈ delimiters
        · apply opens_of_whole whole
          rintro _ ⟨⟩
          exact whole.goesOn_of_delimiter first notSlash notStar
        · have inert := whole.inert first
          rw [opens_of_inert inert, parens_of_inert inert, Nat.zero_add]

end Token

end Prefill
