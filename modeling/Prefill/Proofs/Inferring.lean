import Prefill.Evaluation
import Prefill.Proofs.Quoting

/-!
Kinds that are seen in an output. A printed string, integer or decimal is one literal token, behind
a sign where it has one, so its kind can be told from the tokens. Where the type of a result is not
known, the same zero literals are looked for as where it is.

* `shapes_signed`: the tokens of a printed number;
* `infer_of_prints`: the kind that is seen in a printed value;
* `inferred_as_declared`: the kind is as good as one that a type says.
-/

namespace Prefill

open Text

namespace LiteralKind

open Token Literal

/-! ## Printed values -/

/-- The text of a literal between its quotes: each backslash takes the next character with it, and
no quote stands by itself. -/
inductive Escaped : Text → Prop
  | nil : Escaped []
  | escape (c : Char) {rest : Text} : Escaped rest → Escaped ('\\' :: c :: rest)
  | plain {c : Char} {rest : Text} : c ≠ '\\' → c ≠ '"' → Escaped rest → Escaped (c :: rest)

/-- What a program prints for the values of a kind: strings between quotes, and numbers with or
without a minus sign. -/
inductive Prints : LiteralKind → Text → Prop
  | string {inner : Text} : Escaped inner → Prints .string ('"' :: (inner ++ ['"']))
  | int {sign digits : Text} :
      sign = [] ∨ sign = ['-'] → Digits digits → Prints .int (sign ++ digits)
  | float {sign whole fraction : Text} :
      sign = [] ∨ sign = ['-'] → Digits whole → Digits fraction →
      Prints .float (sign ++ (whole ++ '.' :: fraction))

theorem closed_of_escaped {inner : Text} (h : Escaped inner) : Closed '"' (inner ++ ['"']) := by
  induction h with
  | nil => exact .close
  | escape c _ ih => exact .escape ih
  | plain notSlash notQuote _ ih => exact .char notSlash notQuote ih

/-! ## Their tokens -/

theorem shapes_of_passes {text : Text} {passed : List (Token.Kind × Text)}
    (h : Passes [] text passed) : shapes text = passed := by
  have read := h.shapes_append
  have nothing : shapes [] = [] := shapes_of_none rfl
  rwa [List.append_nil, nothing, List.append_nil] at read

/-- A number is one token, behind its sign if it has one. -/
theorem shapes_signed {sign number : Text} (isSign : sign = [] ∨ sign = ['-'])
    (bare : Bare number) : shapes (sign ++ number) =
      sign.map (fun c => (.punctuation, [c])) ++ [(.number, number)] := by
  have passes : Passes [] number [(.number, number)] := bare.passes (by simp)
  obtain rfl | rfl := isSign
  · exact shapes_of_passes passes
  · exact shapes_of_passes (Patch.passes_signed (.inr rfl) passes)

/-! ## Their kinds -/

theorem bare_ne_word {number : Text} (bare : Bare number) :
    number ≠ "true".toList ∧ number ≠ "false".toList := by
  constructor <;> rintro rfl
  · exact absurd (bare.plain 't' (by decide)) (by decide)
  · exact absurd (bare.plain 'f' (by decide)) (by decide)

theorem infer_of_string {output inner : Text} (escaped : Escaped inner)
    (h : trim output = '"' :: (inner ++ ['"'])) : infer output = .string := by
  have read := tokenize_of_whole (.string (closed_of_escaped escaped))
  rw [← h] at read
  simp [infer, read]

theorem infer_of_number {output sign number : Text} (isSign : sign = [] ∨ sign = ['-'])
    (bare : Bare number) (h : trim output = sign ++ number) : infer output = ofNumber number := by
  have read := shapes_signed isSign bare
  rw [← h, shapes] at read
  obtain rfl | rfl := isSign
  · obtain ⟨token, tokens, shown⟩ := List.map_eq_singleton_iff.mp read
    obtain ⟨isNumber, rfl⟩ := Prod.mk.inj shown
    simp only [infer, tokens, isNumber, bare_ne_word bare, decide_false, Bool.or_false,
      Bool.false_eq_true, if_false, if_true, reduceCtorEq]
  · obtain ⟨first, rest, tokens, firstShown, more⟩ := List.map_eq_cons_iff.mp read
    obtain ⟨token, rfl, shown⟩ := List.map_eq_singleton_iff.mp more
    obtain ⟨-, isMinus⟩ := Prod.mk.inj firstShown
    obtain ⟨isNumber, rfl⟩ := Prod.mk.inj shown
    simp [infer, tokens, isMinus, isNumber]

theorem ofNumber_of_digits {digits : Text} (h : Digits digits) : ofNumber digits = .int := by
  have out (c : Char) (notDigit : isAsciiDigit c = false) : c ∉ digits := by
    intro member
    rw [h.2 c member] at notDigit
    cases notDigit
  simp [ofNumber, out '.' (by decide), out 'e' (by decide), out 'E' (by decide)]

theorem ofNumber_of_point (whole fraction : Text) :
    ofNumber (whole ++ '.' :: fraction) = .float := by
  simp [ofNumber]

theorem bare_of_decimal {whole fraction : Text} (isWhole : Digits whole)
    (isFraction : Digits fraction) : Bare (whole ++ '.' :: fraction) := by
  refine bare_of_pointed ⟨whole, fraction, rfl, by simp [isWhole.1], ?_⟩
  intro c member
  exact (List.mem_append.mp member).elim (isWhole.2 c) (isFraction.2 c)

/-- A printed value has no blank at its ends. -/
theorem Prints.trimmed {kind : LiteralKind} {text : Text} (h : Prints kind text) :
    Trimmed text := by
  have number {sign number : Text} (isSign : sign = [] ∨ sign = ['-']) (bare : Bare number) :
      Trimmed (sign ++ number) := by
    have numeral (c : Char) (member : c ∈ sign ++ number) : isNumeral c = true := by
      obtain inSign | inNumber := List.mem_append.mp member
      · obtain rfl | rfl := isSign
        · cases inSign
        · rw [List.mem_singleton.mp inSign]
          rfl
      · obtain digit | rfl := bare.plain c inNumber
        · simp [isNumeral, digit]
        · rfl
    exact ⟨fun c first => (edge_of_numeral (numeral c (List.mem_of_head? first))).1,
      fun c last => (edge_of_numeral (numeral c (List.mem_of_getLast? last))).1⟩
  cases h with
  | string escaped => exact (Whole.string (closed_of_escaped escaped)).trimmed
  | int isSign digits => exact number isSign (bare_of_digits digits)
  | float isSign isWhole isFraction => exact number isSign (bare_of_decimal isWhole isFraction)

/-- **The kind is seen in a printed value**, whatever white space stands around it. -/
theorem infer_of_prints {kind : LiteralKind} {before text after : Text} (h : Prints kind text)
    (blankBefore : blank before = true) (blankAfter : blank after = true) :
    infer (before ++ (text ++ after)) = kind := by
  have bare : trim (before ++ (text ++ after)) = text := by
    have lead : ∀ c ∈ before, isBlank c = true := by simpa [blank] using blankBefore
    rw [trim, trimStart_of_all_blank lead, ← trim, trim_append_blank blankAfter, h.trimmed.trim_eq]
  cases h with
  | string escaped => exact infer_of_string escaped bare
  | int isSign digits =>
    rw [infer_of_number isSign (bare_of_digits digits) bare, ofNumber_of_digits digits]
  | float isSign isWhole isFraction =>
    rw [infer_of_number isSign (bare_of_decimal isWhole isFraction) bare, ofNumber_of_point]

/-! ## Declared types -/

/-- The built-in types whose values are printed as those of a kind are. -/
def typesOf : LiteralKind → List String
  | .string => ["string"]
  | .int =>
    ["int", "int8", "int16", "int32", "int64", "rune", "uint", "uint8", "uint16", "uint32",
     "uint64", "uintptr", "byte"]
  | .float => ["float32", "float64"]
  | .uint | .bool | .other => []

theorem ofType?_trim (type : Text) : ofType? (trim type) = ofType? type := by
  rw [ofType?, ofType?, trim_trim]

/-- The types of a kind say that kind, or that it has no sign. -/
theorem ofType?_of_typesOf {kind : LiteralKind} {name : String} (isType : name ∈ typesOf kind)
    {type : Text} (shown : trim type = name.toList) :
    ofType? type = some kind ∨ kind = .int ∧ ofType? type = some .uint := by
  have table : ∀ name ∈ typesOf kind, ofType? name.toList = some kind ∨
      kind = .int ∧ ofType? name.toList = some .uint := by
    cases kind <;> decide
  rw [← ofType?_trim, shown]
  exact table name isType

/-- **A kind that is seen is as good as one that is declared.** A printed string, integer or decimal
shows its kind, whatever white space stands around it. So for a target without a type the same zero
literals are looked for as for one whose type is a string, an integer or a float type. -/
theorem inferred_as_declared {kind : LiteralKind} {before text after : Text}
    (prints : Prints kind text) (blankBefore : blank before = true)
    (blankAfter : blank after = true) :
    infer (before ++ (text ++ after)) = kind ∧
      ∀ target declared : Target, ∀ name ∈ typesOf kind, trim target.outputType = [] →
        trim declared.outputType = name.toList → ∀ value,
          Patch.zeroLiteral? value (Evaluation.ofOutput target (before ++ (text ++ after))).kind =
            Patch.zeroLiteral? value
              (Evaluation.ofOutput declared (before ++ (text ++ after))).kind := by
  have seen := infer_of_prints prints blankBefore blankAfter
  refine ⟨seen, ?_⟩
  intro target declared name isType untyped typed value
  have unknown : ofType? target.outputType = none := by simp [ofType?, untyped]
  simp only [Evaluation.ofOutput, unknown, Option.getD_none, seen]
  -- Zero literals do not depend on whether an integer type has a sign.
  obtain found | ⟨rfl, found⟩ := ofType?_of_typesOf isType typed
  · rw [found, Option.getD_some]
  · rw [found, Option.getD_some]
    rfl

/-- A string that holds a quote and ends in a backslash, between blanks. -/
theorem escaped_string_inferred :
    Prints .string ['"', '\\', '"', '\\', '\\', '"'] ∧
      infer ([' '] ++ (['"', '\\', '"', '\\', '\\', '"'] ++ ['\n'])) = .string ∧
      Patch.zeroLiteral? "f(0, \"\")".toList (Evaluation.ofOutput (.qualified ['q'] ['F'])
          ([' '] ++ (['"', '\\', '"', '\\', '\\', '"'] ++ ['\n']))).kind =
        Patch.zeroLiteral? "f(0, \"\")".toList (Evaluation.ofOutput
          (.helper ⟨['F'], ⟨[], false, ["string".toList]⟩, ⟨"f.go".toList⟩, 1, 0⟩)
          ([' '] ++ (['"', '\\', '"', '\\', '\\', '"'] ++ ['\n']))).kind := by
  have escaped : Escaped ['\\', '"', '\\', '\\'] := .escape '"' (.escape '\\' .nil)
  have prints : Prints .string ['"', '\\', '"', '\\', '\\', '"'] := .string escaped
  have space : blank [' '] = true := by decide
  have feed : blank ['\n'] = true := by decide
  obtain ⟨seen, same⟩ := inferred_as_declared prints space feed
  exact ⟨prints, seen, same _ _ "string" (by decide) rfl (by decide) _⟩

end LiteralKind

end Prefill
