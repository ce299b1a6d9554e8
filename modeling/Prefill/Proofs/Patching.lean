import Prefill.Patch
import Prefill.Proofs.ByteSteps
import Prefill.Proofs.Comments
import Prefill.Proofs.Lines
import Prefill.Proofs.Literals

/-!
What patching makes of a line. A patched line is the line with a solid text put into it, so it is
still one line of code and no marker (`patched_wellFormed`, `patched_plain`). Whether another run
would patch it again can be told from its tokens (`Settled`, `settled_iff`).
-/

namespace Prefill

open Text

namespace Text

theorem blank_eq_false_of_mem {text : Text} {c : Char} (member : c ∈ text)
    (notBlank : isBlank c = false) : blank text = false := by
  rw [blank, List.all_eq_false]
  exact ⟨c, member, by simp [notBlank]⟩

theorem trimStart_of_all_blank {text : Text} (h : ∀ c ∈ text, isBlank c = true) (rest : Text) :
    trimStart (text ++ rest) = trimStart rest := by
  rw [trimStart, List.dropWhile_append_of_pos h, trimStart]

end Text

namespace Marker

theorem IsComment.append {front : Text} (h : IsComment front) (rest : Text) :
    IsComment (front ++ rest) := by
  obtain ⟨tail, shown⟩ := startsWith_iff.mp h
  have left : trimStart front ≠ [] := by simp [shown]
  refine startsWith_iff.mpr ⟨tail ++ rest, ?_⟩
  rw [trimStart_append left, shown, List.append_assoc]

/-- A comment line holds no token. -/
theorem tokenize_of_isComment {line : Text} (h : IsComment line) :
    Token.tokenize (trimStart line) = [] := by
  obtain ⟨tail, shown⟩ := startsWith_iff.mp h
  rw [shown, Token.tokenize_eq]
  exact Token.tokensFrom_of_none rfl 0

end Marker

namespace Patch

/-! ## When a line is patched -/

theorem patchValue?_eq_replaced_iff {value name result new : Text} {kind : LiteralKind} :
    patchValue? value name result kind = some (.replaced new) ↔ ∃ span,
      new = splice value span result ∧
      (zeroLiteral? value kind = some span ∧ firstLiteral? value kind ≠ some result ∨
        zeroLiteral? value kind = none ∧ call? value name = some span) := by
  unfold patchValue?
  cases zeroLiteral? value kind with
  | some span =>
    by_cases first : firstLiteral? value kind = some result <;> simp [first, eq_comm]
  | none =>
    cases call? value name with
    | some span => simp [eq_comm]
    | none => by_cases held : holds value result = true <;> simp [held]

theorem patchValue?_eq_none_iff {value name result : Text} {kind : LiteralKind} :
    patchValue? value name result kind = none ↔
      zeroLiteral? value kind = none ∧ call? value name = none ∧ holds value result = false := by
  unfold patchValue?
  cases zeroLiteral? value kind with
  | some span => by_cases first : firstLiteral? value kind = some result <;> simp [first]
  | none =>
    cases call? value name with
    | some span => simp
    | none => by_cases held : holds value result = true <;> simp [held]

theorem under_eq_replaced_iff {head filled : Text} {patch : Patch} :
    under head patch = .replaced filled ↔ ∃ new, patch = .replaced new ∧ filled = head ++ new := by
  cases patch <;> simp [under, eq_comm]

/-- **How a line is patched.** A literal or a call in its value is replaced, or the whole line when
it is no assignment. -/
theorem patchLine_eq_replaced_iff {line name result filled : Text} {kind : LiteralKind} :
    patchLine line name result kind = .replaced filled ↔
      (∃ head value new, splitHead? line = some (head, value) ∧
        patchValue? value name result kind = some (.replaced new) ∧ filled = head ++ new) ∨
      splitHead? line = none ∧
        ((∃ new, patchValue? (trimStart line) name result kind = some (.replaced new) ∧
          filled = line.takeWhile isBlank ++ new) ∨
        patchValue? (trimStart line) name result kind = none ∧
          filled = line.takeWhile isBlank ++ result ++
            if (trimEnd line).getLast? = some ',' then [','] else []) := by
  cases cut : splitHead? line with
  | some parts =>
    obtain ⟨head, value⟩ := parts
    cases found : patchValue? value name result kind with
    | none => simp [patchLine, cut, found, under, and_assoc]
    | some patch => simp [patchLine, cut, found, under_eq_replaced_iff, and_assoc]
  | none =>
    have code : line.dropWhile isBlank = trimStart line := rfl
    cases found : patchValue? (trimStart line) name result kind with
    | none => simp [patchLine, cut, code, found, eq_comm]
    | some patch => simp [patchLine, cut, code, found, under_eq_replaced_iff]

/-! ## The patched line -/

theorem tokenize_ne_nil_of_zeroLiteral? {value : Text} {kind : LiteralKind} {span : Span}
    (h : zeroLiteral? value kind = some span) : Token.tokenize value ≠ [] := by
  intro none
  cases kind <;> simp [zeroLiteral?, findToken?, none] at h

theorem tokenize_ne_nil_of_call? {value name : Text} {span : Span}
    (h : call? value name = some span) : Token.tokenize value ≠ [] := by
  intro none
  simp [call?, callAmong, none] at h

theorem isLetter_slash : isLetter '/' = false := by decide

theorem place?_lead {text rest : Text} (h : place? text = some rest) :
    ∃ c more, text = c :: more ∧ c ≠ '/' := by
  unfold place? at h
  split at h
  case h_1 => cases h
  case h_2 c more =>
    refine ⟨c, more, rfl, ?_⟩
    rintro rfl
    simp [isLetter_slash] at h

theorem lead_of_isAssignment {head : Text} (h : isAssignment head = true) :
    ∃ c rest, trimStart head = c :: rest ∧ c ≠ '/' := by
  unfold isAssignment at h
  cases size : (trimStart head).length with
  | zero => simp [size, assigns] at h
  | succ fuel =>
    cases place : place? (trimStart head) with
    | none => simp [size, assigns, place] at h
    | some rest => exact place?_lead place

theorem lead_of_isDeclaration {head : Text} (h : isDeclaration head = true) :
    ∃ c rest, trimStart head = c :: rest ∧ c ≠ '/' := by
  unfold isDeclaration at h
  cases isVar : after? "var" (trimStart head) with
  | some rest =>
    have shown : trimStart head = "var".toList ++ rest := strip?_eq_some_iff.mp isVar
    exact ⟨'v', _, shown, by decide⟩
  | none =>
    cases isConst : after? "const" (trimStart head) with
    | some rest =>
      have shown : trimStart head = "const".toList ++ rest := strip?_eq_some_iff.mp isConst
      exact ⟨'c', _, shown, by decide⟩
    | none => simp [isVar, isConst] at h

/-- An assignment is split after its first `=`. -/
theorem splitHead?_eq_some_iff {line head value : Text} :
    splitHead? line = some (head, value) ↔ ∃ front, line = front ++ '=' :: value ∧
      head = front ++ ['='] ∧ '=' ∉ front ∧ (isDeclaration front || isAssignment front) = true ∧
      value.head? ≠ some '=' := by
  unfold splitHead?
  constructor
  · intro h
    split at h
    case h_2 => cases h
    case h_1 front tail cut =>
      split at h
      case isFalse => cases h
      case isTrue condition =>
        obtain ⟨rfl, rfl⟩ := by simpa using h
        obtain ⟨shown, unmarked⟩ := cutAt?_eq_some_iff.mp cut
        simp only [Bool.and_eq_true, bne_iff_ne] at condition
        exact ⟨front, shown, rfl, unmarked, condition⟩
  · rintro ⟨front, rfl, rfl, unmarked, condition⟩
    rw [cutAt?_eq_some_iff.mpr ⟨rfl, unmarked⟩]
    simp [condition.1, condition.2]

/-- An assignment starts with a name. -/
theorem splitHead?_lead {line head value : Text} (h : splitHead? line = some (head, value)) :
    line = head ++ value ∧ ∃ c rest, trimStart head = c :: rest ∧ c ≠ '/' := by
  obtain ⟨front, rfl, rfl, -, isHead, -⟩ := splitHead?_eq_some_iff.mp h
  refine ⟨by simp, ?_⟩
  have lead : ∃ c rest, trimStart front = c :: rest ∧ c ≠ '/' := by
    rw [Bool.or_eq_true] at isHead
    obtain declared | assigned := isHead
    · exact lead_of_isDeclaration declared
    · exact lead_of_isAssignment assigned
  obtain ⟨c, rest, shown, notSlash⟩ := lead
  have left : trimStart front ≠ [] := by simp [shown]
  exact ⟨c, rest ++ ['='], by simp [trimStart_append left, shown], notSlash⟩

theorem tokenize_ne_nil_of_replaced {value name result new : Text} {kind : LiteralKind}
    (h : patchValue? value name result kind = some (.replaced new)) :
    Token.tokenize value ≠ [] := by
  obtain ⟨span, -, ⟨zero, -⟩ | ⟨-, call⟩⟩ := patchValue?_eq_replaced_iff.mp h
  · exact tokenize_ne_nil_of_zeroLiteral? zero
  · exact tokenize_ne_nil_of_call? call

theorem exists_splice {value name result new : Text} {kind : LiteralKind}
    (h : patchValue? value name result kind = some (.replaced new)) :
    ∃ front back, new = front ++ result ++ back ∧ front <+: value ∧ back <:+ value := by
  obtain ⟨span, rfl, -⟩ := patchValue?_eq_replaced_iff.mp h
  exact ⟨_, _, rfl, ⟨_, takeBytes_append_dropBytes ..⟩, ⟨_, takeBytes_append_dropBytes ..⟩⟩

/-- **A patched line is the line around a result.** What stands before the result is code. -/
theorem exists_of_patchLine {line name result filled : Text} {kind : LiteralKind}
    (h : patchLine line name result kind = .replaced filled) :
    ∃ front back, filled = front ++ result ++ back ∧ front <+: line ∧
      (back <:+ line ∨ back = [',']) ∧ ¬ Marker.IsComment front := by
  obtain ⟨head, value, new, cut, patched, rfl⟩ | ⟨-, ⟨new, patched, rfl⟩ | ⟨-, rfl⟩⟩ :=
    patchLine_eq_replaced_iff.mp h
  · obtain ⟨rfl, c, rest, lead, notSlash⟩ := splitHead?_lead cut
    obtain ⟨front, back, rfl, before, after⟩ := exists_splice patched
    refine ⟨head ++ front, back, by simp, List.prefix_append_right_inj _ |>.mpr before,
      .inl (after.trans (List.suffix_append ..)), ?_⟩
    intro comment
    obtain ⟨tail, shown⟩ := Marker.isComment_iff.mp comment
    rw [trimStart_append (by simp [lead]), lead] at shown
    exact notSlash (List.cons.inj shown).1
  · obtain ⟨front, back, rfl, before, after⟩ := exists_splice patched
    have whole : line.takeWhile isBlank ++ trimStart line = line := List.takeWhile_append_dropWhile
    have part : line.takeWhile isBlank ++ front <+: line := by
      have inside := (List.prefix_append_right_inj (line.takeWhile isBlank)).mpr before
      rwa [whole] at inside
    refine ⟨line.takeWhile isBlank ++ front, back, by simp, part,
      .inl (after.trans (List.dropWhile_suffix _)), ?_⟩
    intro comment
    -- The tokens of a comment line are none, so nothing of it can be replaced.
    obtain ⟨rest, shown⟩ := part
    have comment := comment.append rest
    rw [shown] at comment
    exact tokenize_ne_nil_of_replaced patched (Marker.tokenize_of_isComment comment)
  · refine ⟨line.takeWhile isBlank, _, rfl, List.takeWhile_prefix _, ?_, ?_⟩
    · split
      · exact .inr rfl
      · exact .inl List.nil_suffix
    · have none : trimStart (line.takeWhile isBlank) = [] := by
        rw [trimStart, List.dropWhile_eq_nil_iff]
        exact fun c member => List.mem_takeWhile_imp member
      simp [Marker.IsComment, none, startsWith, after?, strip?]

theorem patched_plain {line name result filled : Text} {kind : LiteralKind}
    (solid : Literal.Solid result) (h : patchLine line name result kind = .replaced filled) :
    Marker.Plain filled := by
  obtain ⟨front, back, rfl, -, -, code⟩ := exists_of_patchLine h
  obtain ⟨c, rest, rfl, notBlank, notSlash⟩ := solid.first
  apply Marker.plain_of_not_isComment
  · exact blank_eq_false_of_mem (by simp) notBlank
  · intro comment
    obtain ⟨tail, shown⟩ := Marker.isComment_iff.mp comment
    rw [List.append_assoc] at shown
    cases lead : trimStart front with
    | nil =>
      have blanks : ∀ d ∈ front, isBlank d = true := List.dropWhile_eq_nil_iff.mp lead
      rw [trimStart_of_all_blank blanks, List.cons_append, trimStart,
        List.dropWhile_cons_of_neg (by simp [notBlank])] at shown
      exact notSlash (List.cons.inj shown).1
    | cons d more =>
      rw [trimStart_append (by simp [lead]), lead] at shown
      obtain ⟨rfl, second⟩ := List.cons.inj shown
      cases more with
      | nil => exact notSlash (List.cons.inj second).1
      | cons e more =>
        obtain ⟨rfl, -⟩ := List.cons.inj second
        exact code (Marker.isComment_iff.mpr ⟨more, lead⟩)

theorem patched_noBreak {line name result filled : Text} {kind : LiteralKind}
    (noBreak : '\n' ∉ line) (h : patchLine line name result kind = .replaced filled) :
    '\n' ∈ filled ↔ '\n' ∈ result := by
  obtain ⟨front, back, rfl, before, after, -⟩ := exists_of_patchLine h
  have inFront : '\n' ∉ front := fun member => noBreak (before.subset member)
  have inBack : '\n' ∉ back := by
    obtain after | rfl := after
    · exact fun member => noBreak (after.subset member)
    · decide
  simp [inFront, inBack]

/-- A line that a text on one line is put into is still one line. -/
theorem wellFormed_of_patchLine {line : Line} {name result filled : Text} {kind : LiteralKind}
    (someResult : result ≠ []) (noBreak : '\n' ∉ result) (noReturn : result.getLast? ≠ some '\r')
    (formed : line.WellFormed) (h : patchLine line.body name result kind = .replaced filled) :
    Line.WellFormed ⟨filled, line.ending⟩ := by
  refine ⟨(patched_noBreak formed.noBreak h).not.mpr noBreak, formed.ending, ?_⟩
  intro feed last
  obtain ⟨front, back, rfl, -, after, -⟩ := exists_of_patchLine h
  rw [List.getLast?_append] at last
  cases ended : back.getLast? with
  | none =>
    have last : (front ++ result).getLast? = some '\r' := by simpa [ended] using last
    rw [List.getLast?_append, List.getLast?_eq_some_getLast someResult, Option.some_or,
      ← List.getLast?_eq_some_getLast someResult] at last
    exact noReturn last
  | some c =>
    obtain rfl : c = '\r' := by simpa [ended] using last
    obtain ⟨gone, whole⟩ | rfl := after
    · refine formed.noReturn feed ?_
      rw [← whole, List.getLast?_append, ended]
      rfl
    · exact absurd ended (by decide)

theorem patched_wellFormed {line : Line} {name result filled : Text} {kind : LiteralKind}
    (solid : Literal.Solid result) (formed : line.WellFormed)
    (h : patchLine line.body name result kind = .replaced filled) :
    Line.WellFormed ⟨filled, line.ending⟩ := by
  obtain ⟨c, rest, shown, -⟩ := solid.first
  exact wellFormed_of_patchLine (by simp [shown]) solid.noBreak solid.noReturn formed h

/-! ## Lines that stay as they are -/

/-- The part of a line that patching may change. -/
def valueOf (line : Text) : Text :=
  match splitHead? line with
  | some (_, value) => value
  | none => trimStart line

/-- Whether a token is a literal that holds the zero value of a kind. -/
def isZeroOf (kind : LiteralKind) (token : Token) : Bool :=
  match kind with
  | .string => token.kind = .string && (token.text = ['"', '"'] || token.text = ['`', '`'])
  | .int | .uint => token.kind = .number && token.text = ['0']
  | .float => token.kind = .number && (token.text = ['0', '.', '0'] || token.text = ['0'])
  | .bool => token.kind = .name && token.text = "false".toList
  | .other => false

theorem findToken?_eq_none_iff {tokens : List Token} {kind : Token.Kind} {texts : List String} :
    findToken? tokens kind texts = none ↔
      ∀ token ∈ tokens, token.kind = kind → ∀ text ∈ texts, token.text ≠ text.toList := by
  simp [findToken?]

theorem zeroLiteral?_eq_none_iff {text : Text} {kind : LiteralKind} :
    zeroLiteral? text kind = none ↔
      ∀ token ∈ Token.tokenize text, isZeroOf kind token = false := by
  have empty : "\"\"".toList = ['"', '"'] := by decide
  have raw : "``".toList = ['`', '`'] := by decide
  have zero : "0".toList = ['0'] := by decide
  have point : "0.0".toList = ['0', '.', '0'] := by decide
  cases kind <;> simp only [zeroLiteral?, Option.or_eq_none_iff, findToken?_eq_none_iff, isZeroOf]
  case string => simp [empty, raw]
  case int => simp [zero]
  case uint => simp [zero]
  case float =>
    simp only [List.mem_singleton, forall_eq, zero, point, Bool.and_eq_false_imp,
      decide_eq_true_eq, Bool.or_eq_false_iff, decide_eq_false_iff_not]
    exact ⟨fun h token member number => ⟨h.1 token member number, h.2 token member number⟩,
      fun h => ⟨fun token member number => (h token member number).1,
        fun token member number => (h token member number).2⟩⟩
  case bool => simp
  case other => simp

/-- A line that holds its result for good. Where a zero literal of the kind is left, the first
literal of the kind reads exactly like the result. Where none is left, nothing on the line calls
the name, and the result is there or the line is an assignment, which is never replaced as a
whole. -/
structure Settled (line name result : Text) (kind : LiteralKind) : Prop where
  first : ∀ token ∈ Token.tokenize (valueOf line), isZeroOf kind token = true →
    firstLiteral? (valueOf line) kind = some result
  rest : (∀ token ∈ Token.tokenize (valueOf line), isZeroOf kind token = false) →
    call? (valueOf line) name = none ∧
      (holds (valueOf line) result = true ∨ (splitHead? line).isSome = true)

theorem exists_patchLine_iff {line name result : Text} {kind : LiteralKind} :
    (∃ filled, patchLine line name result kind = .replaced filled) ↔
      (∃ new, patchValue? (valueOf line) name result kind = some (.replaced new)) ∨
      splitHead? line = none ∧ patchValue? (valueOf line) name result kind = none := by
  simp only [patchLine_eq_replaced_iff, valueOf]
  cases splitHead? line with
  | some parts =>
    obtain ⟨head, value⟩ := parts
    constructor
    · rintro ⟨_, ⟨_, _, new, ⟨⟩, patched, -⟩ | ⟨⟨⟩, -⟩⟩
      exact .inl ⟨new, patched⟩
    · rintro (⟨new, patched⟩ | ⟨⟨⟩, -⟩)
      exact ⟨_, .inl ⟨head, value, new, rfl, patched, rfl⟩⟩
  | none =>
    constructor
    · rintro ⟨_, ⟨_, _, _, ⟨⟩, -⟩ | ⟨-, ⟨new, patched, -⟩ | ⟨nothing, -⟩⟩⟩
      · exact .inl ⟨new, patched⟩
      · exact .inr ⟨rfl, nothing⟩
    · rintro (⟨new, patched⟩ | ⟨-, nothing⟩)
      · exact ⟨_, .inr ⟨rfl, .inl ⟨new, patched, rfl⟩⟩⟩
      · exact ⟨_, .inr ⟨rfl, .inr ⟨nothing, rfl⟩⟩⟩

/-- **Settled lines** are those that patching leaves alone. -/
theorem settled_iff {line name result : Text} {kind : LiteralKind} :
    Settled line name result kind ↔
      ¬ ∃ filled, patchLine line name result kind = .replaced filled := by
  rw [exists_patchLine_iff, patchValue?_eq_none_iff]
  simp only [patchValue?_eq_replaced_iff]
  constructor
  · rintro ⟨first, rest⟩
      (⟨_, span, -, ⟨zero, changed⟩ | ⟨noZero, called⟩⟩ | ⟨plain, noZero, -, unheld⟩)
    · have someZero : ¬ ∀ token ∈ Token.tokenize (valueOf line), isZeroOf kind token = false := by
        rw [← zeroLiteral?_eq_none_iff, zero]
        exact Option.some_ne_none span
      simp only [not_forall, Bool.not_eq_false] at someZero
      obtain ⟨token, member, isZero⟩ := someZero
      exact changed (first token member isZero)
    · have left := (rest (zeroLiteral?_eq_none_iff.mp noZero)).1
      simp [called] at left
    · have left := (rest (zeroLiteral?_eq_none_iff.mp noZero)).2
      simp [plain, unheld] at left
  · intro stays
    refine ⟨?_, ?_⟩
    · intro token member isZero
      by_contra changed
      cases zero : zeroLiteral? (valueOf line) kind with
      | none => simp [zeroLiteral?_eq_none_iff.mp zero token member] at isZero
      | some span => exact stays (.inl ⟨_, span, rfl, .inl ⟨zero, changed⟩⟩)
    · intro noZero
      have noZero := zeroLiteral?_eq_none_iff.mpr noZero
      have uncalled : call? (valueOf line) name = none := by
        by_contra called
        obtain ⟨span, called⟩ := Option.ne_none_iff_exists'.mp called
        exact stays (.inl ⟨_, span, rfl, .inr ⟨noZero, called⟩⟩)
      refine ⟨uncalled, ?_⟩
      by_contra open_
      simp only [not_or, Bool.not_eq_true, Option.isSome_eq_false_iff,
        Option.isNone_iff_eq_none] at open_
      exact stays (.inr ⟨open_.2, noZero, uncalled, open_.1⟩)

end Patch

end Prefill
