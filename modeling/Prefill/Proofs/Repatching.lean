import Mathlib.Data.Prod.Lex
import Mathlib.Logic.Function.Iterate
import Mathlib.Order.WellFounded
import Prefill.Proofs.Balancing
import Prefill.Proofs.Results

/-!
Patching a line again and again. Each edit takes away an open parenthesis or a zero literal, or
replaces the line as a whole, so a line is patched finitely often. The exception are results that
are a zero literal behind a sign: they bring back the literal that they replace.

* `zero_edit`, `call_edit`: where the result goes, and what stood there;
* `edit_decreases`: what an edit takes away;
* `repatch_decreases`: what a patch of a line takes away;
* `repatching_stabilises_iff`: the results that every line comes to rest with.
-/

namespace Prefill

open Text

namespace Patch

open Token Literal

/-! ## Edits of a value -/

theorem splice_between (front middle back result : Text) :
    splice (front ++ (middle ++ back))
        ⟨byteLength front, byteLength front + byteLength middle⟩ result =
      front ++ (result ++ back) := by
  have dropped := dropBytes_append middle back 0
  rw [Nat.add_zero, show dropBytes 0 back = back by rw [dropBytes, splitAtByte_zero]] at dropped
  rw [splice, takeBytes_front, dropBytes_append, dropped, List.append_assoc]

theorem exists_of_findToken? {tokens : List Token} {kind : Token.Kind} {texts : List String}
    {span : Span} {shapes : List (Token.Kind × Text)} (h : findToken? tokens kind texts = some span)
    (known : ∀ text ∈ texts, (kind, text.toList) ∈ shapes) :
    ∃ token ∈ tokens, span = .ofToken token ∧ token.shape ∈ shapes := by
  obtain ⟨token, found, rfl⟩ := Option.map_eq_some_iff.mp h
  have wanted := List.find?_some found
  simp only [Bool.and_eq_true, decide_eq_true_eq, List.any_eq_true] at wanted
  obtain ⟨rfl, text, member, shown⟩ := wanted
  refine ⟨token, List.mem_of_find?_eq_some found, rfl, ?_⟩
  rw [shape, shown]
  exact known text member

/-- The literal that is replaced holds the zero value of the kind. -/
theorem exists_of_zeroLiteral? {text : Text} {kind : LiteralKind} {span : Span}
    (h : zeroLiteral? text kind = some span) :
    ∃ token ∈ tokenize text, span = .ofToken token ∧ token.shape ∈ zeros kind := by
  unfold zeroLiteral? at h
  cases kind with
  | string | int | uint | bool => exact exists_of_findToken? h (by decide)
  | float =>
    obtain pointed | ⟨-, plain⟩ := Option.or_eq_some_iff.mp h
    · exact exists_of_findToken? pointed (by decide)
    · exact exists_of_findToken? plain (by decide)
  | other => cases h

/-- **A zero literal is replaced** where a scan of the value comes to it. -/
theorem zero_edit {value : Text} {kind : LiteralKind} {span : Span}
    (h : zeroLiteral? value kind = some span) (result : Text) :
    ∃ front token zero back passed, value = front ++ (zero ++ back) ∧
      splice value span result = front ++ (result ++ back) ∧ (token, zero) ∈ zeros kind ∧
      Passes (zero ++ back) front passed ∧
      cut? (zero ++ back) = some ⟨some token, zero, back⟩ := by
  obtain ⟨token, member, rfl, isZero⟩ := exists_of_zeroLiteral? h
  obtain ⟨before, after, scan⟩ := List.append_of_mem member
  obtain ⟨front, back, stands⟩ := exists_stands ((tokenize_eq _).symm.trans scan)
  refine ⟨front, token.kind, token.text, back, _, stands.text, ?_, isZero, stands.passes,
    stands.cut⟩
  have start := stands.start
  have stop := stands.stop
  rw [Nat.zero_add] at start stop
  rw [stands.text, Span.ofToken, start, stop, splice_between]

/-- **A call is replaced** from its name to the parenthesis that closes it, and at least one open
parenthesis goes with it. -/
theorem call_edit {value name : Text} {span : Span} (h : call? value name = some span)
    (result : Text) :
    ∃ front middle back passed, middle ≠ [] ∧ splice value span result = front ++ (result ++ back) ∧
      value = front ++ (middle ++ back) ∧ Passes (middle ++ back) front passed ∧
      parens passed + opens back < opens value := by
  obtain ⟨before, first, others, paren, inner, close, after, call, -, -, rfl⟩ :=
    (callAmong_eq_some_iff (pieces_ne_nil _ _)).mp h
  obtain ⟨more, inCall, scan⟩ : ∃ more, paren ∈ first :: more ∧
      tokenize value = before ++ first :: (more ++ close :: after) :=
    ⟨others ++ paren :: inner, by simp, by rw [call.shown]; simp⟩
  obtain ⟨front, rest, atFirst⟩ := exists_stands ((tokenize_eq _).symm.trans scan)
  obtain ⟨inside, back, atClose⟩ := exists_stands atFirst.after.symm
  have start : first.start = byteLength front := by simpa using atFirst.start
  have stop : first.stop = byteLength front + byteLength first.text := by simpa using atFirst.stop
  have whole : first.text ++ rest = first.text ++ (inside ++ close.text) ++ back := by
    rw [atClose.text]
    simp
  have text := atFirst.text
  have passes := atFirst.passes
  rw [whole] at text passes
  refine ⟨front, first.text ++ (inside ++ close.text), back, _, ?_, ?_, text, passes, ?_⟩
  · simp [cut?_ne_nil atFirst.cut]
  · have closes : close.stop =
        byteLength front + byteLength (first.text ++ (inside ++ close.text)) := by
      rw [atClose.stop, stop, byteLength_append, byteLength_append]
      omega
    rw [text, start, closes, splice_between]
  -- Behind the call the scan goes on as it would from a fresh start there.
  · have counted : opens value = parens (before.map shape) +
        (parens ((first :: more).map shape) + (parens [close.shape] + opens back)) := by
      rw [opens, opens, shapes, scan, ← map_shape_tokensFrom close.stop back, ← atClose.after]
      simp [parens, List.countP_append, List.countP_cons]
      omega
    have one : 0 < parens ((first :: more).map shape) :=
      List.countP_pos_iff.mpr
        ⟨paren.shape, List.mem_map_of_mem inCall, by simp [shape, call.isOpen]⟩
    omega

/-! ## What an edit takes away -/

/-- Whether a token is a zero literal that does not read like the result. -/
def isStray (kind : LiteralKind) (result : Text) (token : Token.Kind × Text) : Bool :=
  token ∈ zeros kind && token.2 ≠ result

/-- The zero literals of a text that a result has yet to replace. -/
def strays (kind : LiteralKind) (result text : Text) : Nat :=
  (shapes text).countP (isStray kind result)

theorem ReadsAs.countP_isStray {kind : LiteralKind} {result rest : Text}
    {passed : List (Token.Kind × Text)} (h : ReadsAs kind result rest passed)
    (unsigned : isSignedZero kind result = false) : passed.countP (isStray kind result) = 0 := by
  apply List.countP_eq_zero.mpr
  intro token member
  simpa [isStray] using h.noZero unsigned token member

section

variable {kind : LiteralKind} {result value : Text} {span : Span}

/-- **A zero literal that is replaced leaves the other tokens alone.** -/
theorem zero_edit_shapes (isResult : Result kind result) (h : zeroLiteral? value kind = some span) :
    ∃ passed token zero rest read more, (token, zero) ∈ zeros kind ∧
      (zero = result → splice value span result = value) ∧
      shapes value = passed ++ ((token, zero) :: more) ∧
      shapes (splice value span result) = passed ++ (read ++ more) ∧
      ReadsAs kind result rest read := by
  obtain ⟨front, token, zero, back, passed, rfl, new, isZero, passes, cut⟩ := zero_edit h result
  obtain ⟨read, reads⟩ := exists_readsAs isResult (not_prolongs isZero cut)
  have kept : Passes (result ++ back) front passed := by
    obtain ⟨d, more, rfl, -⟩ := isResult.exists_first
    cases zero with
    | nil => exact absurd rfl (cut?_ne_nil cut)
    | cons c zero => exact passes.swap (softer_result isResult isZero)
  rw [new]
  refine ⟨passed, token, zero, back, read, shapes back, isZero, ?_, ?_, ?_, reads⟩
  · rintro rfl
    rfl
  · rw [passes.shapes_append, shapes_of_cut? cut]
    rfl
  · rw [kept.shapes_append, reads.passes.shapes_append]

theorem zero_edit_decreases (isResult : Result kind result)
    (unsigned : isSignedZero kind result = false) (h : zeroLiteral? value kind = some span) :
    splice value span result = value ∨ opens (splice value span result) = opens value ∧
      strays kind result (splice value span result) < strays kind result value := by
  obtain ⟨passed, token, zero, rest, read, more, isZero, unchanged, before, after, reads⟩ :=
    zero_edit_shapes isResult h
  by_cases same : zero = result
  · exact .inl (unchanged same)
  refine .inr ⟨?_, ?_⟩
  · have notParen : ∀ shape ∈ zeros kind, parens [shape] = 0 := by cases kind <;> decide
    rw [opens, opens, before, after, ← List.singleton_append, parens_append, parens_append,
      parens_append, parens_append, notParen _ isZero, reads.noParen]
  · have one : isStray kind result (token, zero) = true := by simp [isStray, isZero, same]
    have none := reads.countP_isStray unsigned
    rw [strays, strays, before, after, List.countP_append, List.countP_append, List.countP_append,
      List.countP_cons_of_pos one, none]
    omega

/-- A call that is replaced takes its parenthesis with it. -/
theorem call_edit_decreases {name : Text} (isResult : Result kind result)
    (h : call? value name = some span) : opens (splice value span result) < opens value := by
  obtain ⟨front, middle, back, passed, someText, new, text, passes, fewer⟩ := call_edit h result
  obtain ⟨c, rest, rfl⟩ := List.exists_cons_of_ne_nil someText
  obtain ⟨d, more, rfl, -, notMark⟩ := isResult.exists_first
  simp only [List.mem_cons, not_or] at notMark
  calc opens (splice value span (d :: more))
      = parens passed + opens (d :: more ++ back) := by
        rw [new]
        exact opens_front passes notMark.1 notMark.2.1
    _ = parens passed + opens back := by rw [isResult.opens_append]
    _ < opens value := fewer

/-- **An edit takes something away**: an open parenthesis, or else a zero literal; where the literal
reads like the result, nothing changes. -/
theorem edit_decreases {name new : Text} (isResult : Result kind result)
    (unsigned : isSignedZero kind result = false)
    (h : patchValue? value name result kind = some (.replaced new)) :
    new = value ∨ opens new < opens value ∨
      opens new = opens value ∧ strays kind result new < strays kind result value := by
  obtain ⟨span, rfl, ⟨zero, -⟩ | ⟨-, call⟩⟩ := patchValue?_eq_replaced_iff.mp h
  · exact (zero_edit_decreases isResult unsigned zero).imp_right .inr
  · exact .inr (.inl (call_edit_decreases isResult call))

/-- An edited value starts as the value or as the result did. -/
theorem edit_first {name new : Text} (isResult : Result kind result)
    (h : patchValue? value name result kind = some (.replaced new)) :
    ∃ c, new.head? = some c ∧ (value.head? = some c ∨ Edge c) := by
  obtain ⟨front, back, rfl, ⟨rest, rfl⟩, -⟩ := exists_splice h
  obtain ⟨d, more, rfl, edge⟩ := isResult.exists_first
  cases front with
  | nil => exact ⟨d, rfl, .inr edge⟩
  | cons c front => exact ⟨c, rfl, .inl rfl⟩

end

/-! ## Patching a line again -/

/-- The line after it has been patched, or as it was. -/
def repatch (name result : Text) (kind : LiteralKind) (line : Text) : Text :=
  match patchLine line name result kind with
  | .replaced filled => filled
  | .upToDate | .noTarget => line

/-- Patching again and again comes to rest. -/
def Stabilises (step : Text → Text) (line : Text) : Prop :=
  ∃ n, ∀ m, n ≤ m → step^[m] line = step^[n] line

theorem repatch_eq_or (name result : Text) (kind : LiteralKind) (line : Text) :
    repatch name result kind line = line ∨
      patchLine line name result kind = .replaced (repatch name result kind line) := by
  unfold repatch
  cases patchLine line name result kind with
  | replaced filled => exact .inr rfl
  | upToDate | noTarget => exact .inl rfl

/-- What is left to be done on a line. -/
def work (kind : LiteralKind) (result line : Text) : Nat × Nat × Nat :=
  (if (splitHead? line).isSome then 0 else 1, opens (valueOf line),
    strays kind result (valueOf line))

/-- Less work, by the first part that differs. -/
def Less : Nat × Nat × Nat → Nat × Nat × Nat → Prop := Prod.Lex (· < ·) (Prod.Lex (· < ·) (· < ·))

theorem less_wf : WellFounded Less :=
  wellFounded_lt.prod_lex (wellFounded_lt.prod_lex wellFounded_lt)

theorem less_of_edit {kind : LiteralKind} {result line next : Text}
    (head : (splitHead? next).isSome = (splitHead? line).isSome)
    (edit : opens (valueOf next) < opens (valueOf line) ∨
      opens (valueOf next) = opens (valueOf line) ∧
        strays kind result (valueOf next) < strays kind result (valueOf line)) :
    Less (work kind result next) (work kind result line) := by
  unfold work
  rw [head]
  obtain fewer | ⟨same, fewer⟩ := edit
  · exact .right _ (.left _ _ fewer)
  · rw [same]
    exact .right _ (.right _ fewer)

theorem less_of_head {kind : LiteralKind} {result line next : Text}
    (plain : splitHead? line = none) (head : splitHead? next ≠ none) :
    Less (work kind result next) (work kind result line) := by
  have isHead : (splitHead? next).isSome = true := Option.isSome_iff_ne_none.mpr head
  unfold work
  rw [plain, isHead]
  exact .left _ _ (by decide)

theorem valueOf_of_some {line head value : Text} (cut : splitHead? line = some (head, value)) :
    valueOf line = value := by
  rw [valueOf, cut]

theorem valueOf_of_none {line : Text} (plain : splitHead? line = none) :
    valueOf line = trimStart line := by
  rw [valueOf, plain]

theorem trimStart_indented {indent text : Text} (blanks : ∀ c ∈ indent, isBlank c = true)
    (first : ∃ c, text.head? = some c ∧ isBlank c = false) : trimStart (indent ++ text) = text := by
  obtain ⟨c, head, notBlank⟩ := first
  obtain ⟨rest, rfl⟩ := List.head?_eq_some_iff.mp head
  rw [trimStart_of_all_blank blanks, trimStart, List.dropWhile_cons_of_neg (by simp [notBlank])]

theorem takeWhile_indented {indent text : Text} (blanks : ∀ c ∈ indent, isBlank c = true)
    (first : ∃ c, text.head? = some c ∧ isBlank c = false) :
    (indent ++ text).takeWhile isBlank = indent := by
  obtain ⟨c, head, notBlank⟩ := first
  obtain ⟨rest, rfl⟩ := List.head?_eq_some_iff.mp head
  rw [List.takeWhile_append_of_pos blanks, List.takeWhile_cons_of_neg (by simp [notBlank]),
    List.append_nil]

theorem getLast?_trimEnd {c : Char} (notBlank : isBlank c = false) (front : Text) :
    (trimEnd (front ++ [c])).getLast? = some c := by
  simp [trimEnd, notBlank]

section

variable {kind : LiteralKind} {result line : Text}

/-- A line with nothing on it but a result, and a comma or not, has no work on it. -/
theorem alone_done (isResult : Result kind result) (unsigned : isSignedZero kind result = false)
    {comma : Text} (isComma : comma = [','] ∨ comma = []) :
    opens (result ++ comma) = 0 ∧ strays kind result (result ++ comma) = 0 := by
  have nothing : shapes [] = [] := shapes_of_none rfl
  have inert : Inert comma := by
    obtain rfl | rfl := isComma <;> simp [Inert, delimiters]
  have noComma : strays kind result comma = 0 := by
    obtain rfl | rfl := isComma
    · have comma : Passes [] [','] [(.punctuation, [','])] :=
        passes_single (.punctuation (by decide)) (by simp)
      have shown := comma.shapes_append
      rw [List.append_nil, nothing] at shown
      rw [strays, shown]
      cases kind <;> simp [isStray, zeros]
    · rw [strays, nothing]
      rfl
  have ends : ∀ c ∈ comma.head?, prolongs kind c = false := by
    obtain rfl | rfl := isComma
    · rintro _ ⟨⟩
      cases kind <;> decide
    · simp
  obtain ⟨read, reads⟩ := exists_readsAs isResult ends
  constructor
  · have counted := opens_of_inert inert []
    rw [List.append_nil] at counted
    rw [isResult.opens_append, counted, opens, nothing]
    rfl
  · rw [strays, reads.passes.shapes_append, List.countP_append, reads.countP_isStray unsigned,
      ← strays, noComma]

/-- **A line that is replaced as a whole is not changed again**, unless it has become an
assignment. -/
theorem repatch_alone (isResult : Result kind result) (unsigned : isSignedZero kind result = false)
    (name : Text) {indent comma : Text} (blanks : ∀ c ∈ indent, isBlank c = true)
    (isComma : comma = [','] ∨ comma = [])
    (plain : splitHead? (indent ++ (result ++ comma)) = none) :
    repatch name result kind (indent ++ (result ++ comma)) = indent ++ (result ++ comma) := by
  have first : ∃ c, (result ++ comma).head? = some c ∧ isBlank c = false := by
    obtain ⟨c, rest, rfl, edge⟩ := isResult.exists_first
    exact ⟨c, rfl, edge.1⟩
  have value := trimStart_indented blanks first
  obtain ⟨noParen, noStray⟩ := alone_done isResult unsigned isComma
  obtain same | replaced := repatch_eq_or name result kind (indent ++ (result ++ comma))
  · exact same
  obtain ⟨_, _, _, cut, -⟩ | ⟨-, ⟨new, edit, shown⟩ | ⟨-, shown⟩⟩ :=
    patchLine_eq_replaced_iff.mp replaced
  · rw [plain] at cut
    cases cut
  · rw [value] at edit
    rw [shown, takeWhile_indented blanks first]
    obtain rfl | fewer | ⟨-, fewer⟩ := edit_decreases isResult unsigned edit
    · rfl
    · omega
    · omega
  · rw [shown, takeWhile_indented blanks first, List.append_assoc]
    congr 2
    obtain rfl | rfl := isComma
    · rw [← List.append_assoc, if_pos (getLast?_trimEnd (by decide) _)]
    · obtain ⟨front, c, rfl, notBlank, notMark⟩ := isResult.exists_last
      rw [List.append_nil, ← List.append_assoc, getLast?_trimEnd notBlank, if_neg]
      rintro ⟨⟩
      exact notMark (by decide)

/-- **Every patch makes progress**: it leaves the line alone, or leaves it for good, or leaves less
work on it. -/
theorem repatch_decreases (isResult : Result kind result)
    (unsigned : isSignedZero kind result = false) (name line : Text) :
    repatch name result kind line = line ∨
      repatch name result kind (repatch name result kind line) = repatch name result kind line ∨
      Less (work kind result (repatch name result kind line)) (work kind result line) := by
  obtain same | replaced := repatch_eq_or name result kind line
  · exact .inl same
  generalize repatch name result kind line = next at replaced ⊢
  obtain ⟨head, value, new, cut, edit, rfl⟩ | ⟨plain, after⟩ :=
    patchLine_eq_replaced_iff.mp replaced
  -- An assignment keeps its head: no result starts with an `=`, which would make it a comparison.
  · obtain ⟨front, rfl, rfl, unmarked, assigns, notEqual⟩ := splitHead?_eq_some_iff.mp cut
    have first : new.head? ≠ some '=' := by
      obtain ⟨c, isFirst, same | edge⟩ := edit_first isResult edit <;> rw [isFirst]
      · rwa [← same]
      · rintro ⟨⟩
        exact edge.2 (by decide)
    have cut' : splitHead? (front ++ ['='] ++ new) = some (front ++ ['='], new) :=
      splitHead?_eq_some_iff.mpr ⟨front, by simp, rfl, unmarked, assigns, first⟩
    obtain rfl | fewer := edit_decreases isResult unsigned edit
    · exact .inl (by simp)
    · right; right
      apply less_of_edit
      · rw [cut, cut']
        rfl
      · rwa [valueOf_of_some cut, valueOf_of_some cut']
  · have blanks : ∀ c ∈ line.takeWhile isBlank, isBlank c = true := fun c member =>
      List.mem_takeWhile_imp member
    -- A string may bring an `=` to a line that had none; no patch takes it away again.
    by_cases plain' : splitHead? next = none
    swap
    · exact .inr (.inr (less_of_head plain plain'))
    obtain ⟨new, edit, rfl⟩ | ⟨-, rfl⟩ := after
    · have first : ∃ c, new.head? = some c ∧ isBlank c = false := by
        obtain ⟨c, isFirst, same | edge⟩ := edit_first isResult edit
        · have notBlank := List.head?_dropWhile_not isBlank line
          rw [trimStart] at same
          rw [same] at notBlank
          exact ⟨c, isFirst, notBlank⟩
        · exact ⟨c, isFirst, edge.1⟩
      obtain rfl | fewer := edit_decreases isResult unsigned edit
      · exact .inl List.takeWhile_append_dropWhile
      · right; right
        apply less_of_edit
        · rw [plain, plain']
        · rwa [valueOf_of_none plain, valueOf_of_none plain', trimStart_indented blanks first]
    · right; left
      rw [List.append_assoc] at plain' ⊢
      apply repatch_alone isResult unsigned name blanks _ plain'
      split
      · exact .inl rfl
      · exact .inr rfl

end

/-! ## Coming to rest -/

theorem exists_fixed {α β : Type} {r : β → β → Prop} (wf : WellFounded r) {step : α → α}
    {measure : α → β}
    (decreases : ∀ a, step a = a ∨ step (step a) = step a ∨ r (measure (step a)) (measure a))
    (a : α) : ∃ n, step (step^[n] a) = step^[n] a := by
  induction size : measure a using wf.induction generalizing a with
  | _ size ih =>
  obtain fixed | fixed | less := decreases a
  · exact ⟨0, fixed⟩
  · exact ⟨1, fixed⟩
  · subst size
    obtain ⟨n, fixed⟩ := ih _ less (step a) rfl
    exact ⟨n + 1, fixed⟩

theorem stabilises_of_fixed {step : Text → Text} {line : Text} {n : Nat}
    (fixed : step (step^[n] line) = step^[n] line) : Stabilises step line := by
  refine ⟨n, fun m le => ?_⟩
  obtain ⟨k, rfl⟩ := Nat.exists_eq_add_of_le' le
  rw [Function.iterate_add_apply]
  exact Function.iterate_fixed fixed k

/-! ## Zeros behind a sign -/

/-- A value up to its zero, after a zero behind a sign has been put there some times. -/
def stem (sign : Char) (n : Nat) : Text := [' ', '5', ' ', '+', ' '] ++ List.replicate n sign

section

variable {kind : LiteralKind} {sign : Char} {zero : Text}

theorem exists_of_isSignedZero {result : Text} (h : isSignedZero kind result = true) :
    ∃ sign zero, (sign = '+' ∨ sign = '-') ∧ (.number, zero) ∈ zeros kind ∧
      result = sign :: zero := by
  cases result with
  | nil => cases h
  | cons sign zero =>
    simp only [isSignedZero, Bool.and_eq_true, Bool.or_eq_true, beq_iff_eq, decide_eq_true_eq] at h
    exact ⟨sign, zero, h.1, h.2, rfl⟩

theorem passes_signs (isSign : sign = '+' ∨ sign = '-') (rest : Text) (n : Nat) :
    Passes rest (List.replicate n sign) (List.replicate n (.punctuation, [sign])) := by
  have mark : Whole (some .punctuation) [sign] ∧
      ∀ c, goesOn (some .punctuation) [sign] c = false := by
    obtain rfl | rfl := isSign <;> exact ⟨.punctuation (by decide), fun _ => rfl⟩
  induction n with
  | zero => exact .nil
  | succ n ih => exact .cons mark.1 (fun c _ => mark.2 c) ih

theorem passes_stem (isSign : sign = '+' ∨ sign = '-') (rest : Text) (n : Nat) :
    Passes rest (stem sign n)
      ((.number, ['5']) :: (.punctuation, ['+']) :: List.replicate n (.punctuation, [sign])) := by
  have gap {front : Text} {passed : List (Token.Kind × Text)} (h : Passes rest front passed) :
      Passes rest (' ' :: front) passed := .cons (.gap (by decide)) (fun _ _ => rfl) h
  have plus : Passes rest ('+' :: ' ' :: List.replicate n sign)
      ((.punctuation, ['+']) :: List.replicate n (.punctuation, [sign])) :=
    .cons (.punctuation (by decide)) (fun _ _ => rfl) (gap (passes_signs isSign rest n))
  have five : Whole (some .number) ['5'] := .number (.inl (by decide)) trivial
  refine gap (.cons five ?_ (gap plus))
  rintro _ ⟨⟩
  decide

theorem bare_of_mem_zeros (isZero : (Token.Kind.number, zero) ∈ zeros kind) : Bare zero := by
  have shown : zero = ['0'] ∨ zero = ['0', '.', '0'] := by
    cases kind <;> simp [zeros] at isZero <;> simp [isZero.symm]
  obtain rfl | rfl := shown
  · exact bare_of_digits ⟨by decide, List.all_eq_true.mp rfl⟩
  · exact bare_of_pointed ⟨['0'], ['0'], rfl, by decide, List.all_eq_true.mp rfl⟩

/-- The tokens of a grown value: a number that is no zero, signs, and the zero at its end. -/
theorem exists_tokens_grown (isSign : sign = '+' ∨ sign = '-')
    (isZero : (Token.Kind.number, zero) ∈ zeros kind) (n : Nat) :
    ∃ five before, tokenize (stem sign n ++ zero) = five :: (before ++
        [⟨.number, zero, byteLength (stem sign n), byteLength (stem sign n) + byteLength zero⟩]) ∧
      five.shape = (.number, ['5']) ∧ ∀ token ∈ five :: before, token.shape ∉ zeros kind := by
  obtain ⟨tokens, shown, scan⟩ := (passes_stem isSign zero n).tokensFrom_append 0
  obtain ⟨five, before, rfl, isFive, rest⟩ := List.map_eq_cons_iff.mp shown
  refine ⟨five, before, ?_, isFive, ?_⟩
  · have cut : cut? (zero ++ []) = some ⟨some .number, zero, []⟩ :=
      cut?_of_whole (bare_of_mem_zeros isZero).whole (by simp)
    rw [List.append_nil] at cut
    rw [tokenize_eq, scan, tokensFrom_of_cut? cut, tokensFrom_of_none rfl, Nat.zero_add]
    rfl
  · have number : (Token.Kind.number, ['5']) ∉ zeros kind := by cases kind <;> decide
    have mark (text : Text) : (Token.Kind.punctuation, text) ∉ zeros kind := by
      cases kind <;> simp [zeros]
    intro token member
    have inStem : token.shape ∈ (five :: before).map shape := List.mem_map_of_mem member
    rw [shown] at inStem
    simp only [List.mem_cons, List.mem_replicate] at inStem
    obtain five | plus | ⟨-, signs⟩ := inStem
    · rwa [five]
    · rw [plus]
      exact mark _
    · rw [signs]
      exact mark _

theorem firstLiteral?_grown {value : Text} {five : Token} {more : List Token}
    (isSign : sign = '+' ∨ sign = '-') (isZero : (Token.Kind.number, zero) ∈ zeros kind)
    (scan : tokenize value = five :: more) (isFive : five.shape = (.number, ['5'])) :
    firstLiteral? value kind ≠ some (sign :: zero) := by
  obtain ⟨number, text⟩ := Prod.mk.inj isFive
  have literal : isLiteralOf kind five = true := by
    cases kind <;> simp [zeros] at isZero <;> simp [isLiteralOf, number]
  rw [firstLiteral?, scan, firstLiteralAfter, if_pos literal]
  obtain rfl | rfl := isSign <;> simp [text]

theorem zeroLiteral?_grown {value : Text} (before : List Token) {last : Token}
    (scan : tokenize value = before ++ [last]) (isZero : last.shape ∈ zeros kind)
    (others : ∀ token ∈ before, token.shape ∉ zeros kind) :
    zeroLiteral? value kind = some (.ofToken last) := by
  cases found : zeroLiteral? value kind with
  | none =>
    have never := zeroLiteral?_eq_none_iff.mp found last (by simp [scan])
    rw [isZeroOf_iff.mpr isZero] at never
    cases never
  | some span =>
    obtain ⟨token, member, rfl, zeroToken⟩ := exists_of_zeroLiteral? found
    rw [scan, List.mem_append, List.mem_singleton] at member
    obtain inside | rfl := member
    · exact absurd zeroToken (others token inside)
    · rfl

/-- **A zero behind a sign grows.** It is put before itself. -/
theorem repatch_grown (isSign : sign = '+' ∨ sign = '-')
    (isZero : (Token.Kind.number, zero) ∈ zeros kind) (name : Text) (n : Nat) :
    repatch name (sign :: zero) kind (['x', ' ', '='] ++ (stem sign n ++ zero)) =
      ['x', ' ', '='] ++ (stem sign (n + 1) ++ zero) := by
  obtain ⟨five, before, scan, isFive, others⟩ := exists_tokens_grown isSign isZero n
  have first := firstLiteral?_grown isSign isZero scan isFive
  have place := zeroLiteral?_grown (five :: before) scan isZero others
  have edit : patchValue? (stem sign n ++ zero) name (sign :: zero) kind =
      some (.replaced (stem sign (n + 1) ++ zero)) := by
    refine patchValue?_eq_replaced_iff.mpr ⟨_, ?_, .inl ⟨place, first⟩⟩
    have spliced := splice_between (stem sign n) zero [] (sign :: zero)
    rw [List.append_nil, List.append_nil] at spliced
    rw [Span.ofToken, spliced, stem, stem, List.replicate_succ']
    simp
  have cut : splitHead? (['x', ' ', '='] ++ (stem sign n ++ zero)) =
      some (['x', ' ', '='], stem sign n ++ zero) :=
    splitHead?_eq_some_iff.mpr ⟨['x', ' '], rfl, rfl, by decide, by decide, by simp [stem]⟩
  have replaced := patchLine_eq_replaced_iff.mpr (.inl ⟨_, _, _, cut, edit, rfl⟩)
  rw [repatch, replaced]

theorem not_stabilises_of_signed (isSign : sign = '+' ∨ sign = '-')
    (isZero : (Token.Kind.number, zero) ∈ zeros kind) (name : Text) :
    ¬ Stabilises (repatch name (sign :: zero) kind) (['x', ' ', '='] ++ (stem sign 0 ++ zero)) := by
  have iterates (n : Nat) :
      (repatch name (sign :: zero) kind)^[n] (['x', ' ', '='] ++ (stem sign 0 ++ zero)) =
        ['x', ' ', '='] ++ (stem sign n ++ zero) := by
    induction n with
    | zero => rfl
    | succ n ih => rw [Function.iterate_succ_apply', ih, repatch_grown isSign isZero]
  rintro ⟨n, rests⟩
  have same := congrArg List.length (rests (n + 1) (by omega))
  rw [iterates, iterates] at same
  simp [stem] at same

end

/-- **Which results come to rest.** Patching a line again and again with the literal of a canonical
output ends after finitely many steps, whatever the line is, exactly when the literal is no zero
behind a sign. -/
theorem repatching_stabilises_iff {output : Text} {kind : LiteralKind}
    (canonical : Canonical output kind) (name : Text) :
    (∀ line, Stabilises (repatch name (ofOutput output kind) kind) line) ↔
      isSignedZero kind (ofOutput output kind) = false := by
  constructor
  · intro rests
    by_contra signed
    obtain ⟨sign, zero, isSign, isZero, shown⟩ :=
      exists_of_isSignedZero (Bool.not_eq_false _ ▸ signed)
    rw [shown] at rests
    exact not_stabilises_of_signed isSign isZero name (rests _)
  · intro unsigned line
    obtain ⟨n, fixed⟩ := exists_fixed less_wf
      (repatch_decreases (result_ofOutput canonical) unsigned name) line
    exact stabilises_of_fixed fixed

/-- A zero with a digit too many is no zero literal, so it may stand behind a sign. -/
theorem long_negative_zero_settles :
    Canonical " -00\n".toList .int ∧
      ∀ line, Stabilises (repatch "Offset".toList "-00".toList .int) line :=
  have canonical : Canonical " -00\n".toList .int := ⟨by decide, List.all_eq_true.mp (by decide)⟩
  ⟨canonical, (repatching_stabilises_iff canonical "Offset".toList).mpr (by decide)⟩

/-- The integer `-0` is put before itself on every patch. -/
theorem negative_zero_never_settles :
    Canonical "-0".toList .int ∧
      ¬ Stabilises (repatch "F".toList (ofOutput "-0".toList .int) .int) "x = 5 + 0".toList :=
  ⟨⟨by decide, List.all_eq_true.mp (by decide)⟩, not_stabilises_of_signed (.inr rfl) (by decide) _⟩

end Patch

end Prefill
