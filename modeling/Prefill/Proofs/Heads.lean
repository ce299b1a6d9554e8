import Mathlib.Computability.Language
import Prefill.Proofs.Decoding
import Prefill.Proofs.Patching
import Prefill.Proofs.Tiling

/-!
Heads of assignments. Where the value of a line starts is a matter of a pattern: blanks, then the
names of a declaration with a type, or the places of an assignment with an operator, then `=`. The
pattern can match in many ways, but no part of it takes a `=` other than the last one. So all its
matches on a line end at one place, and that place does not depend on what follows it.

* `declares_iff`, `assigns_iff`: reading a head from the left finds what the pattern allows;
* `splitHead?_iff_pattern`: a line is split where the pattern ends;
* `exists_front_of_pattern`: that is behind the first `=`;
* `head_fixed`: a head stays, whatever the value becomes.
-/

namespace Prefill

open Text

namespace Text

/-- The code points of white space. -/
def blankCodes : List Nat :=
  [9, 10, 11, 12, 13, 32, 0x85, 0xa0, 0x1680, 0x2000, 0x2001, 0x2002, 0x2003, 0x2004, 0x2005,
   0x2006, 0x2007, 0x2008, 0x2009, 0x200a, 0x2028, 0x2029, 0x202f, 0x205f, 0x3000]

theorem mem_blankCodes {c : Char} (h : isBlank c = true) : c.toNat ∈ blankCodes := by
  simp only [isBlank, Ranges.has, List.any_cons, List.any_nil, Bool.or_eq_true, Bool.and_eq_true,
    beq_iff_eq, decide_eq_true_eq, Bool.or_false] at h
  obtain (rfl | ⟨low, high⟩) | ⟨-, ranges⟩ := h
  · decide
  · have low : 9 ≤ c.toNat := low
    have high : c.toNat ≤ 13 := high
    simp only [blankCodes, List.mem_cons, List.not_mem_nil, or_false]
    omega
  · simp only [blankCodes, List.mem_cons, List.not_mem_nil, or_false]
    omega

/-- White space is no part of a word. -/
theorem notWord_of_isBlank {c : Char} (h : isBlank c = true) :
    isLetter c = false ∧ isNumeric c = false := by
  have none : blankCodes.all
      (fun n => !isLetter (Char.ofNat n) && !isNumeric (Char.ofNat n)) = true := by
    decide +kernel
  have out := List.all_eq_true.mp none _ (mem_blankCodes h)
  rw [Char.ofNat_toNat] at out
  simpa using out

theorem trimStart_suffix (text : Text) : trimStart text <:+ text := List.dropWhile_suffix _

end Text

namespace Patch

open Computability Token

/-! ## The pattern -/

/-- One character of a class. -/
def oneOf (isIn : Char → Bool) : Language Char := {text | ∃ c, isIn c = true ∧ text = [c]}

/-- White space, which may be none. -/
def spaces : Language Char := (oneOf isBlank)∗

/-- One or more items with commas between them. -/
def listOf (item : Language Char) : Language Char :=
  item * (spaces * (oneOf (· == ',') * (spaces * item)))∗

def startsName (c : Char) : Bool := isLetter c || c == '_'

def continuesName (c : Char) : Bool := isLetter c || isNumeric c || c == '_'

def continuesPlace (c : Char) : Bool :=
  isLetter c || isNumeric c || c == '_' || c == '.' || c == '[' || c == ']'

/-- A name, or what is written like one with other characters in it. -/
def nameOf (continues : Char → Bool) : Language Char := oneOf startsName * (oneOf continues)∗

/-- The characters that make an operator with the `=` behind them. -/
def isOperator (c : Char) : Bool := "-+*/%&|^".toList.contains c

/-- The type behind the names that have it. -/
def typeText : Language Char := oneOf isBlank * (spaces * (oneOf (· != '=') * (oneOf (· != '='))∗))

/-- What stands behind the names of a declaration: a type, which may be missing. -/
def typeEnding : Language Char := (1 + typeText) * spaces

/-- The names of a declaration with their type. -/
def declaredNames : Language Char := listOf (nameOf continuesName) * typeEnding

/-- The names of a declaration behind its keyword. -/
def declared : Language Char :=
  ({"var".toList} + {"const".toList}) * (oneOf isBlank * (spaces * declaredNames))

/-- `var x T =`, `const x =`, `var a, b =`. -/
def declaration : Language Char := declared * {['=']}

/-- `x :=`, `a, b =`, `x.y[i] +=`. -/
def assignment : Language Char :=
  listOf (nameOf continuesPlace) * (spaces * ({":=".toList} + (1 + oneOf isOperator) * {['=']}))

/-- The heads of assignments. -/
def headPattern : Language Char := spaces * (declaration + assignment)

/-! ### Languages of characters -/

theorem mem_kstar_oneOf {isIn : Char → Bool} {text : Text} :
    text ∈ (oneOf isIn)∗ ↔ ∀ c ∈ text, isIn c = true := by
  constructor
  · rintro ⟨parts, rfl, all⟩ c member
    obtain ⟨part, inParts, inPart⟩ := List.mem_flatten.mp member
    obtain ⟨d, isInD, rfl⟩ := all part inParts
    obtain rfl := List.mem_singleton.mp inPart
    exact isInD
  · intro all
    induction text with
    | nil => exact Language.nil_mem_kstar _
    | cons c rest ih =>
      rw [List.forall_mem_cons] at all
      rw [← Language.one_add_self_mul_kstar_eq_kstar, Language.mem_add]
      exact .inr (Language.append_mem_mul (a := [c]) ⟨c, all.1, rfl⟩ (ih all.2))

theorem mem_oneOf_mul {isIn : Char → Bool} {l : Language Char} {text : Text} :
    text ∈ oneOf isIn * l ↔ ∃ c rest, text = c :: rest ∧ isIn c = true ∧ rest ∈ l := by
  rw [Language.mem_mul]
  constructor
  · rintro ⟨_, ⟨c, isInC, rfl⟩, rest, member, rfl⟩
    exact ⟨c, rest, rfl, isInC, member⟩
  · rintro ⟨c, rest, rfl, isInC, member⟩
    exact ⟨[c], ⟨c, isInC, rfl⟩, rest, member, rfl⟩

theorem cons_mem_oneOf_mul {isIn : Char → Bool} {l : Language Char} {c : Char} {rest : Text} :
    c :: rest ∈ oneOf isIn * l ↔ isIn c = true ∧ rest ∈ l := by
  rw [mem_oneOf_mul]
  constructor
  · rintro ⟨_, _, ⟨⟩, both⟩
    exact both
  · exact fun both => ⟨c, rest, rfl, both⟩

/-- No text of a language starts with a character of a class. -/
def Apart (isIn : Char → Bool) (l : Language Char) : Prop :=
  ∀ text ∈ l, ∀ c ∈ text.head?, isIn c = false

theorem apart_add {isIn : Char → Bool} {l m : Language Char} (left : Apart isIn l)
    (right : Apart isIn m) : Apart isIn (l + m) := by
  rintro text (member | member)
  · exact left text member
  · exact right text member

theorem apart_unit (isIn : Char → Bool) : Apart isIn 1 := by
  rintro _ rfl _ ⟨⟩

theorem apart_oneOf_mul {isIn other : Char → Bool} (disjoint : ∀ c, other c = true → isIn c = false)
    (l : Language Char) : Apart isIn (oneOf other * l) := by
  intro text member
  obtain ⟨c, rest, rfl, isOther, -⟩ := mem_oneOf_mul.mp member
  rintro _ ⟨⟩
  exact disjoint c isOther

theorem apart_oneOf {isIn other : Char → Bool} (disjoint : ∀ c, other c = true → isIn c = false) :
    Apart isIn (oneOf other) := by
  simpa using apart_oneOf_mul disjoint 1

theorem apart_kstar_mul {isIn other : Char → Bool} {l : Language Char}
    (disjoint : ∀ c, other c = true → isIn c = false) (apart : Apart isIn l) :
    Apart isIn ((oneOf other)∗ * l) := by
  rw [← Language.one_add_self_mul_kstar_eq_kstar, add_mul, one_mul, mul_assoc]
  exact apart_add apart (apart_oneOf_mul disjoint _)

/-- **What is repeated is taken as long as it goes on**, where nothing behind it goes on with it. -/
theorem mem_kstar_mul_iff {isIn : Char → Bool} {l : Language Char} (apart : Apart isIn l)
    {text : Text} : text ∈ (oneOf isIn)∗ * l ↔ text.dropWhile isIn ∈ l := by
  rw [Language.mem_mul]
  constructor
  · rintro ⟨front, taken, rest, member, rfl⟩
    have stops : rest.dropWhile isIn = rest := by
      cases rest with
      | nil => rfl
      | cons c rest => exact List.dropWhile_cons_of_neg (by simp [apart _ member c rfl])
    rwa [List.dropWhile_append_of_pos (mem_kstar_oneOf.mp taken), stops]
  · intro member
    exact ⟨text.takeWhile isIn, mem_kstar_oneOf.mpr fun c inside => List.mem_takeWhile_imp inside,
      _, member, List.takeWhile_append_dropWhile⟩

theorem nil_mem_spaces : [] ∈ spaces := Language.nil_mem_kstar _

theorem mem_spaces_mul_iff {l : Language Char} (apart : Apart isBlank l) {text : Text} :
    text ∈ spaces * l ↔ trimStart text ∈ l := mem_kstar_mul_iff apart

/-- A list before an ending is one item before the ending, or before a comma and another list. -/
theorem listOf_mul (item ending : Language Char) :
    listOf item * ending = item * (ending +
      spaces * (oneOf (· == ',') * (spaces * (listOf item * ending)))) := by
  rw [listOf]
  nth_rewrite 1 [← Language.one_add_self_mul_kstar_eq_kstar]
  simp only [mul_add, add_mul, mul_assoc, one_mul]

/-! ## Reading a head -/

theorem continuesPlace_of_isBlank {c : Char} (h : isBlank c = true) : continuesPlace c = false := by
  obtain ⟨notLetter, notNumeric⟩ := notWord_of_isBlank h
  have notMark : c ∉ ['_', '.', '[', ']'] := notMem_of_all (by decide) h
  simp only [List.mem_cons, not_or] at notMark
  simp [continuesPlace, notLetter, notNumeric, notMark]

theorem continuesName_of_isBlank {c : Char} (h : isBlank c = true) : continuesName c = false := by
  have stops := continuesPlace_of_isBlank h
  simp only [continuesPlace, Bool.or_eq_false_iff] at stops
  simp [continuesName, stops]

theorem isBlank_of_startsName {c : Char} (h : startsName c = true) : isBlank c = false := by
  have continues : continuesPlace c = true := by
    simp only [startsName, continuesPlace, Bool.or_eq_true] at h ⊢
    obtain letter | underscore := h
    · simp [letter]
    · simp [underscore]
  cases blank : isBlank c with
  | false => rfl
  | true =>
    rw [continuesPlace_of_isBlank blank] at continues
    cases continues

/-- What follows a name that a text starts with. -/
def nameEnd? (continues : Char → Bool) : Text → Option Text
  | [] => none
  | c :: rest => if startsName c then some (rest.dropWhile continues) else none

theorem binder?_eq (text : Text) : binder? text = nameEnd? continuesName text := by
  cases text <;> rfl

theorem place?_eq (text : Text) : place? text = nameEnd? continuesPlace text := by
  cases text <;> rfl

theorem nameEnd?_suffix {continues : Char → Bool} {text rest : Text}
    (h : nameEnd? continues text = some rest) : rest <:+ text ∧ rest.length < text.length := by
  cases text with
  | nil => cases h
  | cons c tail =>
    rw [nameEnd?] at h
    split at h
    · obtain rfl := Option.some.inj h
      have suffix := List.dropWhile_suffix (l := tail) continues
      exact ⟨suffix.trans (List.suffix_cons c tail), Nat.lt_succ_of_le suffix.length_le⟩
    · cases h

/-- A name is taken as long as it goes on. -/
theorem mem_nameOf_mul_iff {continues : Char → Bool} {l : Language Char} (apart : Apart continues l)
    {text : Text} :
    text ∈ nameOf continues * l ↔ ∃ rest, nameEnd? continues text = some rest ∧ rest ∈ l := by
  rw [nameOf, mul_assoc, mem_oneOf_mul]
  simp only [mem_kstar_mul_iff apart]
  cases text with
  | nil => simp [nameEnd?]
  | cons c rest => cases starts : startsName c <;> simp [nameEnd?, starts]

theorem apart_nameOf_mul (continues : Char → Bool) (l : Language Char) :
    Apart isBlank (nameOf continues * l) := by
  rw [nameOf, mul_assoc]
  exact apart_oneOf_mul (fun c => isBlank_of_startsName) _

theorem apart_listOf_mul (continues : Char → Bool) (l : Language Char) :
    Apart isBlank (listOf (nameOf continues) * l) := by
  rw [listOf_mul]
  exact apart_nameOf_mul continues _

/-- Behind a comma another list follows. -/
theorem mem_comma_iff (continues : Char → Bool) (ending : Language Char) (text : Text) :
    text ∈ spaces * (oneOf (· == ',') * (spaces * (listOf (nameOf continues) * ending))) ↔
      ∃ rest, trimStart text = ',' :: rest ∧
        trimStart rest ∈ listOf (nameOf continues) * ending := by
  have comma : ∀ c, (c == ',') = true → isBlank c = false := by
    intro c isComma
    rw [beq_iff_eq.mp isComma]
    decide
  rw [mem_spaces_mul_iff (apart_oneOf_mul comma _), mem_oneOf_mul]
  simp only [mem_spaces_mul_iff (apart_listOf_mul continues ending), beq_iff_eq]
  constructor
  · rintro ⟨_, rest, shown, rfl, more⟩
    exact ⟨rest, shown, more⟩
  · rintro ⟨rest, shown, more⟩
    exact ⟨',', rest, shown, rfl, more⟩

/-! ### Declarations -/

theorem isBlank_of_typeEnding {rest : Text} (h : rest ∈ typeEnding) :
    ∀ c ∈ rest.head?, isBlank c = true := by
  rw [typeEnding, add_mul, one_mul, Language.mem_add] at h
  intro c first
  obtain blanks | typed := h
  · exact mem_kstar_oneOf.mp blanks c (List.mem_of_head? first)
  · rw [typeText, mul_assoc] at typed
    obtain ⟨_, _, rfl, blank, -⟩ := mem_oneOf_mul.mp typed
    obtain rfl := Option.some.inj first
    exact blank

/-- Behind a blank anything may stand that holds no `=`. -/
theorem typeEnding_of_isBlank {rest : Text} (unmarked : '=' ∉ rest)
    (blank : ∀ c ∈ rest.head?, isBlank c = true) : rest ∈ typeEnding := by
  rw [typeEnding, add_mul, one_mul, Language.mem_add]
  cases rest with
  | nil => exact .inl nil_mem_spaces
  | cons c rest =>
    cases rest with
    | nil => exact .inl (mem_kstar_oneOf.mpr (by simpa using blank))
    | cons d rest =>
      right
      have other (e : Char) (member : e ∈ d :: rest) : (e != '=') = true := by
        rw [bne_iff_ne]
        rintro rfl
        exact unmarked (List.mem_cons_of_mem _ member)
      have type : d :: rest ∈ oneOf (· != '=') * (oneOf (· != '='))∗ :=
        cons_mem_oneOf_mul.mpr ⟨other d (by simp),
          mem_kstar_oneOf.mpr fun e member => other e (by simp [member])⟩
      have typed : c :: d :: rest ∈ typeText :=
        cons_mem_oneOf_mul.mpr ⟨blank c rfl, Language.append_mem_mul nil_mem_spaces type⟩
      simpa using Language.append_mem_mul typed nil_mem_spaces

theorem apart_comma_mul {isIn : Char → Bool} (blank : ∀ c, isBlank c = true → isIn c = false)
    (comma : isIn ',' = false) (l : Language Char) :
    Apart isIn (spaces * (oneOf (· == ',') * l)) := by
  refine apart_kstar_mul blank (apart_oneOf_mul ?_ l)
  intro c isComma
  rwa [beq_iff_eq.mp isComma]

theorem declaredNames_eq : declaredNames = nameOf continuesName *
    (typeEnding + spaces * (oneOf (· == ',') * (spaces * declaredNames))) := listOf_mul _ _

/-- **Names are read as the pattern has them.** -/
theorem declares_iff {fuel : Nat} {text : Text} (enough : text.length ≤ fuel)
    (unmarked : '=' ∉ text) : declares fuel text = true ↔ text ∈ declaredNames := by
  have apart : Apart continuesName
      (typeEnding + spaces * (oneOf (· == ',') * (spaces * declaredNames))) := by
    refine apart_add (fun rest ending c first => ?_)
      (apart_comma_mul (fun c => continuesName_of_isBlank) (by decide) _)
    exact continuesName_of_isBlank (isBlank_of_typeEnding ending c first)
  -- Each name takes a character, so the text is used up before the fuel.
  induction fuel generalizing text with
  | zero =>
    obtain rfl := List.length_eq_zero_iff.mp (Nat.le_zero.mp enough)
    rw [declaredNames_eq, mem_nameOf_mul_iff apart]
    simp [declares, nameEnd?]
  | succ fuel ih =>
    rw [declaredNames_eq, mem_nameOf_mul_iff apart, declares, binder?_eq]
    cases reads : nameEnd? continuesName text with
    | none => simp
    | some rest =>
      obtain ⟨suffix, shorter⟩ := nameEnd?_suffix reads
      have unmarked : '=' ∉ rest := fun member => unmarked (suffix.subset member)
      simp only [Option.some.injEq, exists_eq_left', Language.mem_add]
      cases rest with
      | nil => exact iff_of_true rfl (.inl (typeEnding_of_isBlank unmarked (by simp)))
      | cons c rest =>
        cases blank : isBlank c with
        | true =>
          -- A comma behind blanks could go on with the list, but it can be a type as well.
          have ending := typeEnding_of_isBlank unmarked (by simpa using blank)
          simp [blank, ending]
        | false =>
          have notEnding : c :: rest ∉ typeEnding := by
            intro ending
            rw [isBlank_of_typeEnding ending c rfl] at blank
            cases blank
          have stays : trimStart (c :: rest) = c :: rest :=
            List.dropWhile_cons_of_neg (by simp [blank])
          have tail : trimStart rest <:+ c :: rest :=
            (trimStart_suffix rest).trans (List.suffix_cons c rest)
          have fewer := (trimStart_suffix rest).length_le
          have again : declares fuel (trimStart rest) = true ↔ trimStart rest ∈ declaredNames := by
            refine ih ?_ fun member => unmarked (tail.subset member)
            rw [List.length_cons] at shorter
            omega
          rw [declaredNames, mem_comma_iff, stays, ← declaredNames]
          simp [blank, notEnding, again]

theorem mem_keyword_mul_iff {l : Language Char} {text : Text} :
    text ∈ ({"var".toList} + {"const".toList} : Language Char) * l ↔
      ∃ rest, (after? "var" text).or (after? "const" text) = some rest ∧ rest ∈ l := by
  rw [Language.mem_mul]
  constructor
  · rintro ⟨_, rfl | rfl, rest, member, rfl⟩
    · have found : after? "var" ("var".toList ++ rest) = some rest := strip?_eq_some_iff.mpr rfl
      exact ⟨rest, by rw [found, Option.some_or], member⟩
    · have found : after? "const" ("const".toList ++ rest) = some rest :=
        strip?_eq_some_iff.mpr rfl
      exact ⟨rest, found, member⟩
  · rintro ⟨rest, found, member⟩
    obtain found | ⟨-, found⟩ := Option.or_eq_some_iff.mp found
    · exact ⟨_, .inl rfl, rest, member, (strip?_eq_some_iff.mp found).symm⟩
    · exact ⟨_, .inr rfl, rest, member, (strip?_eq_some_iff.mp found).symm⟩

theorem mem_blanks_mul_iff {l : Language Char} (apart : Apart isBlank l) {text : Text} :
    text ∈ oneOf isBlank * (spaces * l) ↔ ∃ rest, blanks? text = some rest ∧ rest ∈ l := by
  cases text with
  | nil => simp [mem_oneOf_mul, blanks?]
  | cons c rest =>
    rw [cons_mem_oneOf_mul, mem_spaces_mul_iff apart]
    cases blank : isBlank c <;> simp [blanks?, blank]

theorem blanks?_suffix {text rest : Text} (h : blanks? text = some rest) : rest <:+ text := by
  cases text with
  | nil => cases h
  | cons c tail =>
    rw [blanks?] at h
    split at h
    · obtain rfl := Option.some.inj h
      exact (trimStart_suffix tail).trans (List.suffix_cons c tail)
    · cases h

theorem isDeclaration_iff {text : Text} (unmarked : '=' ∉ text) :
    isDeclaration text = true ↔ trimStart text ∈ declared := by
  have apart : Apart isBlank declaredNames := apart_listOf_mul continuesName typeEnding
  rw [declared, mem_keyword_mul_iff, isDeclaration]
  simp only [mem_blanks_mul_iff apart]
  cases keyword : (after? "var" (trimStart text)).or (after? "const" (trimStart text)) with
  | none => simp
  | some rest =>
    -- The names are a part of the text, so they hold no `=` either.
    have suffix : rest <:+ text := by
      have behind : rest <:+ trimStart text := by
        obtain found | ⟨-, found⟩ := Option.or_eq_some_iff.mp keyword <;>
          exact ⟨_, (strip?_eq_some_iff.mp found).symm⟩
      exact behind.trans (trimStart_suffix text)
    cases blanks : blanks? rest with
    | none => simp [blanks]
    | some names =>
      have part := (blanks?_suffix blanks).trans suffix
      have read := declares_iff (Nat.le_refl names.length) fun member =>
        unmarked (part.subset member)
      simp [blanks, read]

/-! ### Assignments -/

/-- What may stand before the `=`. -/
def operator : Language Char := 1 + oneOf fun c => ":-+*/%&|^".toList.contains c

/-- The places of an assignment with their operator. -/
def assigned : Language Char := listOf (nameOf continuesPlace) * (spaces * operator)

theorem assigned_eq : assigned = nameOf continuesPlace *
    (spaces * operator + spaces * (oneOf (· == ',') * (spaces * assigned))) := listOf_mul _ _

theorem mem_operator_iff {text : Text} : text ∈ operator ↔
    text = [] ∨ ∃ c, ":-+*/%&|^".toList.contains c = true ∧ text = [c] := Iff.rfl

theorem apart_operator {isIn : Char → Bool}
    (none : ":-+*/%&|^".toList.all (fun c => !isIn c) = true) : Apart isIn operator := by
  refine apart_add (apart_unit _) (apart_oneOf fun c isMark => ?_)
  simpa using List.all_eq_true.mp none c (List.contains_iff_mem.mp isMark)

/-- **Places are read as the pattern has them.** -/
theorem assigns_iff {fuel : Nat} {text : Text} (enough : text.length ≤ fuel) :
    assigns fuel text = true ↔ text ∈ assigned := by
  have apart : Apart continuesPlace
      (spaces * operator + spaces * (oneOf (· == ',') * (spaces * assigned))) :=
    apart_add (apart_kstar_mul (fun c => continuesPlace_of_isBlank) (apart_operator (by decide)))
      (apart_comma_mul (fun c => continuesPlace_of_isBlank) (by decide) _)
  induction fuel generalizing text with
  | zero =>
    obtain rfl := List.length_eq_zero_iff.mp (Nat.le_zero.mp enough)
    rw [assigned_eq, mem_nameOf_mul_iff apart]
    simp [assigns, nameEnd?]
  | succ fuel ih =>
    rw [assigned_eq, mem_nameOf_mul_iff apart, assigns, place?_eq]
    cases reads : nameEnd? continuesPlace text with
    | none => simp
    | some rest =>
      have shorter := (nameEnd?_suffix reads).2
      have fewer := (trimStart_suffix rest).length_le
      simp only [Option.some.injEq, exists_eq_left', Language.mem_add, Option.map_some]
      rw [mem_spaces_mul_iff (apart_operator (by decide)), assigned, mem_comma_iff, ← assigned]
      cases trimmed : trimStart rest with
      | nil => exact iff_of_true rfl (.inl (.inl rfl))
      | cons c tail =>
        by_cases comma : c = ','
        · subst comma
          have again : assigns fuel (trimStart tail) = true ↔ trimStart tail ∈ assigned := by
            have fewer' := (trimStart_suffix tail).length_le
            rw [trimmed, List.length_cons] at fewer
            exact ih (by omega)
          simp [again, mem_operator_iff]
        · cases tail with
          | nil => simp [comma, mem_operator_iff]
          | cons d tail => simp [comma, mem_operator_iff]

theorem isAssignment_iff {text : Text} : isAssignment text = true ↔ trimStart text ∈ assigned :=
  assigns_iff (Nat.le_refl _)

/-! ## Where the pattern ends -/

/-- What the pattern takes before the `=`. -/
def beforeEquals : Language Char := spaces * (declared + assigned)

/-- The pattern has `:=` beside the other operators; the colon can be one of them. -/
theorem operator_mul :
    operator * {['=']} = ({":=".toList} + (1 + oneOf isOperator) * {['=']} : Language Char) := by
  have colon : ({":=".toList} : Language Char) = {[':']} * {['=']} := by
    ext text
    constructor
    · rintro rfl
      exact ⟨[':'], rfl, ['='], rfl, rfl⟩
    · rintro ⟨_, rfl, _, rfl, rfl⟩
      rfl
  have marks (c : Char) : ":-+*/%&|^".toList.contains c = true ↔ c = ':' ∨ isOperator c = true := by
    have shown : ":-+*/%&|^".toList = ':' :: "-+*/%&|^".toList := by decide
    rw [shown, List.contains_cons, Bool.or_eq_true, beq_iff_eq, isOperator]
  rw [colon, ← add_mul]
  congr 1
  ext text
  rw [mem_operator_iff]
  simp only [marks, or_and_right, exists_or, exists_eq_left]
  exact or_left_comm

theorem headPattern_eq : headPattern = beforeEquals * {['=']} := by
  rw [headPattern, declaration, assignment, ← operator_mul, beforeEquals, assigned]
  simp only [mul_add, add_mul, mul_assoc]

/-- The texts of a language hold no `=`. -/
def Unmarked (l : Language Char) : Prop := ∀ text ∈ l, '=' ∉ text

theorem unmarked_oneOf {isIn : Char → Bool} (out : isIn '=' = false) : Unmarked (oneOf isIn) := by
  rintro _ ⟨c, isInC, rfl⟩ member
  rw [← List.mem_singleton.mp member, out] at isInC
  cases isInC

theorem unmarked_unit : Unmarked 1 := by
  rintro _ rfl
  exact List.not_mem_nil

theorem unmarked_add {l m : Language Char} (left : Unmarked l) (right : Unmarked m) :
    Unmarked (l + m) := by
  rintro text (member | member)
  · exact left text member
  · exact right text member

theorem unmarked_mul {l m : Language Char} (left : Unmarked l) (right : Unmarked m) :
    Unmarked (l * m) := by
  rintro _ ⟨front, inLeft, rest, inRight, rfl⟩
  simp [left front inLeft, right rest inRight]

theorem unmarked_kstar {l : Language Char} (each : Unmarked l) : Unmarked l∗ := by
  rintro _ ⟨parts, rfl, all⟩ member
  obtain ⟨part, inParts, inPart⟩ := List.mem_flatten.mp member
  exact each part (all part inParts) inPart

theorem unmarked_spaces : Unmarked spaces := unmarked_kstar (unmarked_oneOf (by decide))

theorem unmarked_listOf {continues : Char → Bool} (out : continues '=' = false) :
    Unmarked (listOf (nameOf continues)) := by
  have item : Unmarked (nameOf continues) :=
    unmarked_mul (unmarked_oneOf (by decide)) (unmarked_kstar (unmarked_oneOf out))
  exact unmarked_mul item (unmarked_kstar (unmarked_mul unmarked_spaces
    (unmarked_mul (unmarked_oneOf (by decide)) (unmarked_mul unmarked_spaces item))))

theorem unmarked_beforeEquals : Unmarked beforeEquals := by
  have types : Unmarked typeEnding := by
    refine unmarked_mul (unmarked_add unmarked_unit ?_) unmarked_spaces
    exact unmarked_mul (unmarked_oneOf (by decide)) (unmarked_mul unmarked_spaces
      (unmarked_mul (unmarked_oneOf (by decide)) (unmarked_kstar (unmarked_oneOf (by decide)))))
  have keywords : Unmarked ({"var".toList} + {"const".toList}) := by
    rintro _ (rfl | rfl) <;> decide
  have names : Unmarked declaredNames := unmarked_mul (unmarked_listOf (by decide)) types
  have places : Unmarked assigned :=
    unmarked_mul (unmarked_listOf (by decide)) (unmarked_mul unmarked_spaces
      (unmarked_add unmarked_unit (unmarked_oneOf (by decide))))
  exact unmarked_mul unmarked_spaces (unmarked_add (unmarked_mul keywords
    (unmarked_mul (unmarked_oneOf (by decide)) (unmarked_mul unmarked_spaces names))) places)

/-- **Every match ends behind its only `=`.** -/
theorem exists_front_of_pattern {head : Text} (h : head ∈ headPattern) :
    ∃ front ∈ beforeEquals, head = front ++ ['='] ∧ '=' ∉ front := by
  rw [headPattern_eq] at h
  obtain ⟨front, before, _, rfl, rfl⟩ := h
  exact ⟨front, before, rfl, unmarked_beforeEquals front before⟩

theorem apart_declared : Apart isBlank declared := by
  rintro _ ⟨_, rfl | rfl, rest, -, rfl⟩ c first <;>
    · obtain rfl := Option.some.inj first
      decide

theorem mem_beforeEquals_iff {front : Text} (unmarked : '=' ∉ front) :
    front ∈ beforeEquals ↔ (isDeclaration front || isAssignment front) = true := by
  have apart : Apart isBlank (declared + assigned) :=
    apart_add apart_declared (apart_listOf_mul continuesPlace (spaces * operator))
  rw [beforeEquals, mem_spaces_mul_iff apart, Language.mem_add, Bool.or_eq_true,
    isDeclaration_iff unmarked, isAssignment_iff]

/-- **A line is split where the pattern ends.** -/
theorem splitHead?_iff_pattern {line head value : Text} :
    splitHead? line = some (head, value) ↔
      line = head ++ value ∧ head ∈ headPattern ∧ value.head? ≠ some '=' := by
  rw [splitHead?_eq_some_iff]
  constructor
  · rintro ⟨front, rfl, rfl, unmarked, isHead, apart⟩
    refine ⟨by simp, ?_, apart⟩
    rw [headPattern_eq]
    exact Language.append_mem_mul ((mem_beforeEquals_iff unmarked).mpr isHead) rfl
  · rintro ⟨rfl, isHead, apart⟩
    obtain ⟨front, before, rfl, unmarked⟩ := exists_front_of_pattern isHead
    exact ⟨front, by simp, rfl, unmarked, (mem_beforeEquals_iff unmarked).mp before, apart⟩

/-- **All matches of the pattern on a line end at one place.** -/
theorem pattern_unique {line head other : Text} (isHead : head ∈ headPattern)
    (isOther : other ∈ headPattern) (here : head <+: line) (there : other <+: line) :
    other = head := by
  obtain ⟨front, -, rfl, unmarked⟩ := exists_front_of_pattern isHead
  obtain ⟨front', -, rfl, unmarked'⟩ := exists_front_of_pattern isOther
  obtain ⟨rest, rfl⟩ := here
  obtain ⟨rest', same⟩ := there
  have cut : cutAt? ['='] (front ++ '=' :: rest) = some (front, rest) :=
    cutAt?_eq_some_iff.mpr ⟨rfl, unmarked⟩
  have cut' : cutAt? ['='] (front ++ '=' :: rest) = some (front', rest') :=
    cutAt?_eq_some_iff.mpr ⟨by simpa using same.symm, unmarked'⟩
  obtain ⟨rfl, -⟩ : front = front' ∧ rest = rest' := by simpa [cut] using cut'
  rfl

/-- **Heads end at the first `=`.** The value of a line starts where the pattern of heads ends, and
all ways to match the pattern end there: behind the first `=` of the line, and not before another
one. So the head stays when the value becomes any other text that does not start with `=`, and
patching the line changes no byte before its value. -/
theorem head_fixed {line head value : Text} (split : splitHead? line = some (head, value)) :
    line = head ++ value ∧ (∃ front, head = front ++ ['='] ∧ '=' ∉ front) ∧
      value.head? ≠ some '=' ∧ head ∈ headPattern ∧
      (∀ other ∈ headPattern, other <+: line → other = head) ∧
      (∀ other, other.head? ≠ some '=' → splitHead? (head ++ other) = some (head, other)) ∧
      ∀ name result kind filled, patchLine line name result kind = .replaced filled →
        (Utf8.encode filled).take (Utf8.encode head).length =
          (Utf8.encode line).take (Utf8.encode head).length := by
  obtain ⟨rfl, isHead, apart⟩ := splitHead?_iff_pattern.mp split
  obtain ⟨front, -, shown, unmarked⟩ := exists_front_of_pattern isHead
  refine ⟨rfl, ⟨front, shown, unmarked⟩, apart, isHead, ?_, ?_, ?_⟩
  · intro other isOther there
    exact pattern_unique isHead isOther (List.prefix_append head value) there
  · intro other apart
    exact splitHead?_iff_pattern.mpr ⟨rfl, isHead, apart⟩
  · intro name result kind filled patched
    obtain ⟨_, _, new, again, -, rfl⟩ | ⟨plain, -⟩ := patchLine_eq_replaced_iff.mp patched
    · obtain ⟨rfl, rfl⟩ := by simpa [split] using again
      simp [Utf8.encode_append]
    · rw [split] at plain
      cases plain

/-- Names with a type that ends in blanks, and a value with more `=` in it. -/
theorem typed_head_fixed :
    splitHead? "var é , b T  = x == 0".toList =
        some ("var é , b T  =".toList, " x == 0".toList) ∧
      (∀ other ∈ headPattern, other <+: "var é , b T  = x == 0".toList →
        other = "var é , b T  =".toList) ∧
      splitHead? ("var é , b T  =".toList ++ ['7', '=']) =
        some ("var é , b T  =".toList, ['7', '=']) ∧
      patchLine "var é , b T  = x == 0".toList ['F'] ['7'] .int =
        .replaced "var é , b T  = x == 7".toList ∧
      (Utf8.encode "var é , b T  = x == 7".toList).take
          (Utf8.encode "var é , b T  =".toList).length =
        (Utf8.encode "var é , b T  = x == 0".toList).take
          (Utf8.encode "var é , b T  =".toList).length := by
  have split : splitHead? "var é , b T  = x == 0".toList =
      some ("var é , b T  =".toList, " x == 0".toList) := by decide +kernel
  have patched : patchLine "var é , b T  = x == 0".toList ['F'] ['7'] .int =
      .replaced "var é , b T  = x == 7".toList := by decide +kernel
  obtain ⟨-, -, -, -, only, stays, kept⟩ := head_fixed split
  exact ⟨split, only, stays ['7', '='] (by decide), patched, kept _ _ _ _ patched⟩

end Patch

end Prefill
