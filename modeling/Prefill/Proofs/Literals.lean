import Prefill.Literal.Kind

/-!
Literals that results are written as. An output is canonical for a kind when it is what printing a
value of that kind gives (`Canonical`). The literal of a canonical output can stand anywhere in a
line (`Solid`): it breaks no line, opens no comment and is not blank.
-/

namespace Prefill

open Text

namespace Literal

/-! ## Canonical outputs -/

/-- Decimal digits, at least one. -/
def Digits (text : Text) : Prop := text ≠ [] ∧ ∀ c ∈ text, isAsciiDigit c = true

/-- A number without its sign. -/
def unsigned : Text → Text
  | '+' :: rest => rest
  | '-' :: rest => rest
  | text => text

/-- Decimal digits around one point, at least one of them. -/
def Pointed (text : Text) : Prop :=
  ∃ whole fraction, text = whole ++ '.' :: fraction ∧ Digits (whole ++ fraction)

/-- What printing a value of a kind gives. Any text is a string; a type without a literal form has
no canonical output. -/
def Canonical (output : Text) : LiteralKind → Prop
  | .string => True
  | .int | .uint => Digits (unsigned (trim output))
  | .float => Pointed (unsigned (trim output))
  | .bool => trim output = "true".toList ∨ trim output = "false".toList
  | .other => False

/-! ## Literals inside a line -/

/-- A text that can be put into a line of code without ending the line, opening a comment, or
leaving the line blank. -/
structure Solid (text : Text) : Prop where
  first : ∃ c rest, text = c :: rest ∧ isBlank c = false ∧ c ≠ '/'
  noBreak : '\n' ∉ text
  noReturn : text.getLast? ≠ some '\r'

theorem isBlank_of_graphic {c : Char} (low : 0x20 < c.toNat) (high : c.toNat < 0x7f) :
    isBlank c = false := by
  have notSpace : c ≠ ' ' := by
    rintro rfl
    exact absurd low (by decide)
  have notReturn : ¬ c ≤ '\r' := by
    intro le
    have : c.toNat ≤ 13 := le
    omega
  have ascii : ¬ 128 ≤ c.toNat := by omega
  simp [isBlank, notSpace, notReturn, ascii]

/-- The characters of a printed number. -/
def isNumeral (c : Char) : Bool := isAsciiDigit c || c == '+' || c == '-' || c == '.'

theorem isNumeral_graphic {c : Char} (h : isNumeral c = true) :
    0x20 < c.toNat ∧ c.toNat < 0x7f ∧ c ≠ '/' := by
  simp only [isNumeral, isAsciiDigit, Bool.or_eq_true, Bool.and_eq_true, decide_eq_true_eq,
    beq_iff_eq] at h
  obtain ((⟨low, high⟩ | rfl) | rfl) | rfl := h
  · have low : 48 ≤ c.toNat := low
    have high : c.toNat ≤ 57 := high
    refine ⟨by omega, by omega, ?_⟩
    rintro rfl
    exact absurd low (by decide)
  all_goals decide

theorem solid_of_numeral {text : Text} (someText : text ≠ [])
    (h : ∀ c ∈ text, isNumeral c = true) : Solid text := by
  refine ⟨?_, ?_, ?_⟩
  · obtain ⟨c, rest, rfl⟩ := List.exists_cons_of_ne_nil someText
    obtain ⟨low, high, notSlash⟩ := isNumeral_graphic (h c (by simp))
    exact ⟨c, rest, rfl, isBlank_of_graphic low high, notSlash⟩
  · intro member
    exact absurd (h _ member) (by decide)
  · intro last
    exact absurd (h _ (List.mem_of_getLast? last)) (by decide)

theorem numeral_of_unsigned {text : Text} (h : ∀ c ∈ unsigned text, isNumeral c = true) :
    ∀ c ∈ text, isNumeral c = true := by
  unfold unsigned at h
  split at h
  · simpa [isNumeral] using h
  · simpa [isNumeral] using h
  · exact h

theorem ne_nil_of_unsigned {text : Text} (h : unsigned text ≠ []) : text ≠ [] := by
  rintro rfl
  exact h rfl

/-- An escape stays on its line. -/
theorem feed_notMem_escape (c : Char) : '\n' ∉ escape c := by
  have small : ∀ n < 0xa0, '\n' ∉ hex 2 n ∧ '\n' ∉ hex 4 n := by decide +kernel
  unfold escape
  split
  case h_10 notQuote notSlash notFeed _ _ _ _ _ _ =>
    split
    · rename_i control
      have below : c.toNat < 0xa0 := by
        simp only [Bool.or_eq_true, decide_eq_true_eq] at control
        omega
      simpa using (small _ below).1
    · split
      · rename_i control
        have below : c.toNat < 0xa0 := by
          simp only [isControl, Bool.or_eq_true, Bool.and_eq_true, decide_eq_true_eq] at control
          omega
        simpa using (small _ below).2
      · simpa using Ne.symm notFeed
  all_goals decide

theorem solid_quote (value : Text) : Solid (quote value) := by
  refine ⟨⟨'"', _, rfl, by decide, by decide⟩, ?_, ?_⟩
  · simp [quote, feed_notMem_escape]
  · simp [quote, List.getLast?_cons]

theorem solid_ofString (value : Text) : Solid (ofString value) := by
  unfold ofString
  split
  · rename_i raw
    refine ⟨⟨'`', _, rfl, by decide, by decide⟩, ?_, ?_⟩
    · simp only [Bool.and_eq_true, Bool.not_eq_true', List.any_eq_false] at raw
      intro member
      have inside : '\n' ∈ value := by simpa using member
      simpa using raw.2 _ inside
    · simp [List.getLast?_cons]
  · exact solid_quote value

/-- **Results are solid.** The literal of a canonical output can be put into any line. -/
theorem solid_ofOutput {output : Text} {kind : LiteralKind} (h : Canonical output kind) :
    Solid (ofOutput output kind) := by
  cases kind with
  | string => exact solid_ofString _
  | int | uint =>
    exact solid_of_numeral (ne_nil_of_unsigned h.1)
      (numeral_of_unsigned fun c member => by simp [isNumeral, h.2 c member])
  | float =>
    obtain ⟨whole, fraction, shape, -, digits⟩ := h
    have numeral : ∀ c ∈ unsigned (trim output), isNumeral c = true := by
      rw [shape]
      simp only [List.mem_append, List.mem_cons] at digits ⊢
      rintro c (member | rfl | member)
      · simp [isNumeral, digits c (.inl member)]
      · rfl
      · simp [isNumeral, digits c (.inr member)]
    have someText : unsigned (trim output) ≠ [] := by simp [shape]
    exact solid_of_numeral (ne_nil_of_unsigned someText) (numeral_of_unsigned numeral)
  | bool =>
    obtain h | h := h <;> rw [ofOutput, h] <;>
      exact ⟨⟨_, _, rfl, by decide, by decide⟩, by decide, by decide⟩
  | other => exact h.elim

end Literal

end Prefill
