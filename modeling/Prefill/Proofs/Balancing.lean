import Prefill.Patch
import Prefill.Proofs.Boundaries

/-!
Calls. A call of a dotted name is the name, token by token with points between the parts, and the
parentheses behind it. The first call of a name counts, and it ends at the parenthesis that closes
its own one: between the two every parenthesis has its partner.

* `afterName?_eq_some_iff`: the tokens that spell a name;
* `closing?_eq_some_iff`: a count of open parentheses finds the partner of the first;
* `callAmong_eq_closing?`, `callAmong_eq_none`: the first call is looked at, and no other;
* `first_call_balanced`: where a call starts and ends.
-/

namespace Prefill

open Text

namespace Patch

open Token

/-! ## Parentheses -/

/-- Tokens between which every parenthesis has its partner. -/
inductive Nested : List Token → Prop
  | nil : Nested []
  | other {token : Token} {rest : List Token} :
      token.text ≠ ['('] → token.text ≠ [')'] → Nested rest → Nested (token :: rest)
  | group {paren close : Token} {inside rest : List Token} :
      paren.text = ['('] → close.text = [')'] → Nested inside → Nested rest →
      Nested (paren :: (inside ++ close :: rest))

theorem closing?_open {token : Token} (isOpen : token.text = ['(']) (depth : Nat)
    (rest : List Token) : closing? depth (token :: rest) = closing? (depth + 1) rest :=
  if_pos isOpen

theorem closing?_close {token : Token} (isClose : token.text = [')']) (depth : Nat)
    (rest : List Token) : closing? depth (token :: rest) =
      if depth ≤ 1 then some token.stop else closing? (depth - 1) rest := by
  rw [closing?, isClose, if_neg (by decide), if_pos rfl]

theorem closing?_other {token : Token} (notOpen : token.text ≠ ['('])
    (notClose : token.text ≠ [')']) (depth : Nat) (rest : List Token) :
    closing? depth (token :: rest) = closing? depth rest := by
  rw [closing?, if_neg notOpen, if_neg notClose]

/-- The count passes over tokens that are balanced among themselves. -/
theorem closing?_nested {inside : List Token} (nested : Nested inside) (depth : Nat)
    (rest : List Token) : closing? (depth + 1) (inside ++ rest) = closing? (depth + 1) rest := by
  induction nested generalizing depth rest with
  | nil => rfl
  | other notOpen notClose _ ih =>
    rw [List.cons_append, closing?_other notOpen notClose, ih]
  | @group paren close inside more isOpen isClose _ _ ihInside ihMore =>
    rw [List.cons_append, closing?_open isOpen, List.append_assoc, ihInside, List.cons_append,
      closing?_close isClose, if_neg (by omega), Nat.add_sub_cancel, ihMore]

/-- A count that ends has come past the partner of the last open parenthesis. -/
theorem exists_nested_of_closing? {depth stop : Nat} {tokens : List Token}
    (h : closing? (depth + 1) tokens = some stop) :
    ∃ inside close after, tokens = inside ++ close :: after ∧ Nested inside ∧
      close.text = [')'] ∧
      if depth = 0 then close.stop = stop else closing? depth after = some stop := by
  induction size : tokens.length using Nat.strong_induction_on generalizing tokens depth with
  | _ n ih =>
  cases tokens with
  | nil => cases h
  | cons token rest =>
    rw [List.length_cons] at size
    by_cases isOpen : token.text = ['(']
    · -- The group that opens here is closed first; behind it the count is as deep as before.
      rw [closing?_open isOpen] at h
      obtain ⟨inside, close, after, rfl, nested, isClose, left⟩ := ih _ (by omega) h rfl
      rw [List.length_append, List.length_cons] at size
      obtain ⟨more, last, behind, rfl, nested', isLast, left'⟩ := ih _ (by omega) left rfl
      exact ⟨token :: (inside ++ close :: more), last, behind, by simp,
        .group isOpen isClose nested nested', isLast, left'⟩
    · by_cases isClose : token.text = [')']
      · rw [closing?_close isClose] at h
        refine ⟨[], token, rest, rfl, .nil, isClose, ?_⟩
        cases depth with
        | zero => simpa using h
        | succ depth => simpa using h
      · rw [closing?_other isOpen isClose] at h
        obtain ⟨inside, close, after, rfl, nested, found⟩ := ih _ (by omega) h rfl
        exact ⟨token :: inside, close, after, rfl, .other isOpen isClose nested, found⟩

/-- **The count finds the partner** of a parenthesis that has just been opened. -/
theorem closing?_eq_some_iff {tokens : List Token} {stop : Nat} :
    closing? 1 tokens = some stop ↔ ∃ inside close after, tokens = inside ++ close :: after ∧
      Nested inside ∧ close.text = [')'] ∧ close.stop = stop := by
  constructor
  · intro found
    have found : closing? (0 + 1) tokens = some stop := found
    exact exists_nested_of_closing? found
  · rintro ⟨inside, close, after, rfl, nested, isClose, rfl⟩
    rw [closing?_nested nested 0, closing?_close isClose, if_pos (Nat.le_refl 1)]

/-- The count with a check before each step down: there is no answer if it would fall below zero. -/
def checkedClosing? : Nat → List Token → Option (Option Nat)
  | _, [] => some none
  | depth, token :: rest =>
    if token.text = ['('] then checkedClosing? (depth + 1) rest
    else if token.text = [')'] then
      if depth = 0 then none
      else if depth = 1 then some (some token.stop)
      else checkedClosing? (depth - 1) rest
    else checkedClosing? depth rest

/-- **The count stays above zero** once a parenthesis is open, until it ends. -/
theorem checkedClosing?_succ (depth : Nat) (tokens : List Token) :
    checkedClosing? (depth + 1) tokens = some (closing? (depth + 1) tokens) := by
  induction tokens generalizing depth with
  | nil => rfl
  | cons token rest ih =>
    rw [checkedClosing?, closing?]
    split
    · exact ih (depth + 1)
    · split
      · cases depth with
        | zero => rfl
        | succ depth => simpa using ih depth
      · exact ih depth

/-- Whether a token is a parenthesis. -/
def isParen (token : Token) : Bool := token.text = ['('] || token.text = [')']

theorem closing?_filter_isParen (depth : Nat) (tokens : List Token) :
    closing? depth (tokens.filter isParen) = closing? depth tokens := by
  induction tokens generalizing depth with
  | nil => rfl
  | cons token rest ih =>
    by_cases isOpen : token.text = ['(']
    · rw [List.filter_cons_of_pos (by simp [isParen, isOpen]), closing?_open isOpen,
        closing?_open isOpen, ih]
    · by_cases isClose : token.text = [')']
      · rw [List.filter_cons_of_pos (by simp [isParen, isClose]), closing?_close isClose,
          closing?_close isClose, ih]
      · rw [List.filter_cons_of_neg (by simp [isParen, isOpen, isClose]),
          closing?_other isOpen isClose, ih]

/-- A parenthesis is a mark: no string, rune or comment is one. -/
theorem kind_of_paren {kind : Option Token.Kind} {inner back : Text}
    (cut : cut? (inner ++ back) = some ⟨kind, inner, back⟩)
    (paren : inner = ['('] ∨ inner = [')']) : kind = some .punctuation := by
  have whole : Whole (some .punctuation) inner := by
    obtain rfl | rfl := paren <;> exact .punctuation (by decide)
  have ends : ∀ c ∈ back.head?, goesOn (some .punctuation) inner c = false := by
    obtain rfl | rfl := paren <;> simp [goesOn]
  simpa [cut] using cut?_of_whole whole ends

/-- **What stands in a string, a rune or a comment is not counted.** The parentheses of a text are
those before a piece that is no mark and those behind it. -/
theorem filter_isParen_around {front inner back : Text} {passed : List (Token.Kind × Text)}
    {kind : Option Token.Kind} (passes : Passes (inner ++ back) front passed)
    (cut : cut? (inner ++ back) = some ⟨kind, inner, back⟩) (noMark : kind ≠ some .punctuation) :
    (tokenize (front ++ (inner ++ back))).filter isParen = (tokenize front).filter isParen ++
      (tokensFrom (byteLength (front ++ inner)) back).filter isParen := by
  have none : (Piece.token? ⟨kind, inner, back⟩ (byteLength front)).toList.filter isParen = [] := by
    cases kind with
    | none => rfl
    | some kind =>
      have notParen : ¬ (inner = ['('] ∨ inner = [')']) := fun paren =>
        noMark (kind_of_paren cut paren)
      rw [not_or] at notParen
      simp [Piece.token?, isParen, notParen]
  rw [tokenize_eq, passes.tokensFrom_parts, tokensFrom_of_cut? cut, Nat.zero_add,
    List.filter_append, List.filter_append, none, List.nil_append, byteLength_append, tokenize_eq]

/-- What stands in a comment at the end of a text is not counted. -/
theorem filter_isParen_before {front ending : Text} {passed : List (Token.Kind × Text)}
    (passes : Passes ending front passed) (done : cut? ending = none) :
    (tokenize (front ++ ending)).filter isParen = (tokenize front).filter isParen := by
  rw [tokenize_eq, passes.tokensFrom_parts, tokensFrom_of_none done, List.append_nil, tokenize_eq]

/-! ## Names -/

/-- Tokens that spell a dotted name: its parts, with points between them. -/
inductive Spells : List Text → List Token → Prop
  | last {part : Text} {token : Token} :
      token.kind = .name → token.text = part → Spells [part] [token]
  | dotted {part : Text} {parts : List Text} {token point : Token} {named : List Token} :
      token.kind = .name → token.text = part → point.text = ['.'] → Spells parts named →
      Spells (part :: parts) (token :: point :: named)

theorem Spells.exists_cons {parts : List Text} {named : List Token} (h : Spells parts named) :
    ∃ first more, named = first :: more := by
  cases h with
  | last => exact ⟨_, _, rfl⟩
  | dotted => exact ⟨_, _, rfl⟩

theorem afterName?_of_spells {parts : List Text} {named : List Token} (h : Spells parts named)
    (left : List Token) : afterName? parts (named ++ left) = some left := by
  induction h with
  | last isName reads => simp [afterName?, isName, reads]
  | @dotted part parts token point named isName reads isPoint spelled ih =>
    cases parts with
    | nil => cases spelled
    | cons next parts => simpa [afterName?, isName, reads, isPoint] using ih

theorem exists_spells_of_afterName? {parts : List Text} {tokens left : List Token}
    (somePart : parts ≠ []) (h : afterName? parts tokens = some left) :
    ∃ named, tokens = named ++ left ∧ Spells parts named := by
  induction parts generalizing tokens with
  | nil => exact absurd rfl somePart
  | cons part parts ih =>
    cases parts with
    | nil =>
      cases tokens with
      | nil => simp [afterName?] at h
      | cons token rest =>
        simp only [afterName?, Option.ite_none_right_eq_some, Option.some.injEq, Bool.and_eq_true,
          decide_eq_true_eq] at h
        obtain ⟨⟨isName, reads⟩, rfl⟩ := h
        exact ⟨[token], rfl, .last isName reads⟩
    | cons next parts =>
      cases tokens with
      | nil => simp [afterName?] at h
      | cons token rest =>
        cases rest with
        | nil => simp [afterName?] at h
        | cons point rest =>
          simp only [afterName?, Option.ite_none_right_eq_some, Bool.and_eq_true,
            decide_eq_true_eq] at h
          obtain ⟨⟨⟨isName, reads⟩, isPoint⟩, more⟩ := h
          obtain ⟨named, rfl, spelled⟩ := ih (by simp) more
          exact ⟨token :: point :: named, rfl, .dotted isName reads isPoint spelled⟩

/-- **A name is read off** exactly where the tokens spell it. -/
theorem afterName?_eq_some_iff {parts : List Text} (somePart : parts ≠ [])
    {tokens left : List Token} :
    afterName? parts tokens = some left ↔ ∃ named, tokens = named ++ left ∧ Spells parts named := by
  constructor
  · exact exists_spells_of_afterName? somePart
  · rintro ⟨named, rfl, spelled⟩
    exact afterName?_of_spells spelled left

/-! ## Calls -/

/-- A call of a name among tokens: the name is not part of a longer one, and a parenthesis opens
directly behind it. -/
structure Opening (parts : List Text) (tokens before named : List Token) (paren : Token)
    (rest : List Token) : Prop where
  shown : tokens = before ++ (named ++ paren :: rest)
  spelled : Spells parts named
  apart : ∀ point ∈ before.getLast?, point.text ≠ ['.']
  isOpen : paren.text = ['(']

/-- The leftmost call of a name. -/
structure FirstCall (parts : List Text) (tokens before named : List Token) (paren : Token)
    (rest : List Token) : Prop extends Opening parts tokens before named paren rest where
  first : ∀ before' named' paren' rest', Opening parts tokens before' named' paren' rest' →
    before.length ≤ before'.length

/-- Whether some tokens end in a point. -/
def endsInPoint (tokens : List Token) : Bool := tokens.getLast?.any (·.text = ['.'])

theorem endsInPoint_eq_false_iff {tokens : List Token} :
    endsInPoint tokens = false ↔ ∀ point ∈ tokens.getLast?, point.text ≠ ['.'] := by
  rw [endsInPoint]
  cases tokens.getLast? <;> simp

theorem endsInPoint_concat (tokens : List Token) (token : Token) :
    endsInPoint (tokens ++ [token]) = decide (token.text = ['.']) := by
  simp [endsInPoint]

/-- A call that opens at a place is looked at. -/
theorem callAmong_of_opening {parts : List Text} {before tokens named rest : List Token}
    {paren : Token} (h : Opening parts (before ++ tokens) before named paren rest) :
    ∃ first more, named = first :: more ∧ callAmong parts (endsInPoint before) tokens =
      (closing? 1 rest).map fun stop => ⟨first.start, stop⟩ := by
  obtain ⟨shown, spelled, apart, isOpen⟩ := h
  obtain rfl := List.append_cancel_left shown
  have read := afterName?_of_spells spelled (paren :: rest)
  obtain ⟨first, more, rfl⟩ := spelled.exists_cons
  refine ⟨first, more, rfl, ?_⟩
  rw [List.cons_append] at read ⊢
  rw [callAmong, endsInPoint_eq_false_iff.mpr apart]
  simp [read, isOpen]

/-- Where no call opens, the next token is looked at. -/
theorem callAmong_cons {parts : List Text} (somePart : parts ≠ []) {before rest : List Token}
    {token : Token} (none : ∀ named paren left,
      ¬ Opening parts (before ++ token :: rest) before named paren left) :
    callAmong parts (endsInPoint before) (token :: rest) =
      callAmong parts (endsInPoint (before ++ [token])) rest := by
  rw [callAmong, endsInPoint_concat]
  cases point : endsInPoint before with
  | true => rfl
  | false =>
    split
    · rename_i paren inner opened
      split
      · rename_i isOpen
        obtain ⟨named, shown, spelled⟩ := (afterName?_eq_some_iff somePart).mp opened
        exact absurd ⟨congrArg _ shown, spelled, endsInPoint_eq_false_iff.mp point, isOpen⟩
          (none named paren inner)
      · rfl
    · rfl

/-- The search passes over all tokens at which no call opens. -/
theorem callAmong_append {parts : List Text} (somePart : parts ≠ [])
    (before skipped rest : List Token)
    (none : ∀ front named paren left, before.length ≤ front.length →
      front.length < (before ++ skipped).length →
      ¬ Opening parts (before ++ (skipped ++ rest)) front named paren left) :
    callAmong parts (endsInPoint before) (skipped ++ rest) =
      callAmong parts (endsInPoint (before ++ skipped)) rest := by
  induction skipped generalizing before with
  | nil => simp
  | cons token skipped ih =>
    have length : (before ++ token :: skipped).length = before.length + 1 + skipped.length := by
      simp only [List.length_append, List.length_cons]
      omega
    have here (named : List Token) (paren : Token) (left : List Token) :
        ¬ Opening parts (before ++ token :: (skipped ++ rest)) before named paren left :=
      none before named paren left (Nat.le_refl _) (by omega)
    -- The token joins those before it, since whether it is a point decides about the next one.
    have later := ih (before ++ [token]) fun front named paren left low high => by
      have low : before.length + 1 ≤ front.length := by simpa using low
      simpa using none front named paren left (by omega) (by simpa using high)
    rw [List.cons_append, callAmong_cons somePart here, later]
    simp

section

variable {parts : List Text} {tokens : List Token}

/-- **The first call of a name is looked at, and no other one.** -/
theorem callAmong_eq_closing? (somePart : parts ≠ []) {before named rest : List Token}
    {paren : Token} (h : FirstCall parts tokens before named paren rest) :
    ∃ first more, named = first :: more ∧ callAmong parts false tokens =
      (closing? 1 rest).map fun stop => ⟨first.start, stop⟩ := by
  have opening := h.toOpening
  rw [h.shown] at opening
  obtain ⟨first, more, shown, found⟩ := callAmong_of_opening opening
  refine ⟨first, more, shown, ?_⟩
  rw [← found, h.shown]
  refine callAmong_append somePart [] before _ fun front named' paren' left _ short other => ?_
  rw [List.nil_append, ← h.shown] at other
  have least := h.first _ _ _ _ other
  simp only [List.nil_append] at short
  omega

theorem callAmong_eq_none (somePart : parts ≠ [])
    (none : ∀ before named paren rest, ¬ Opening parts tokens before named paren rest) :
    callAmong parts false tokens = .none := by
  have passed := callAmong_append somePart [] tokens [] fun front named paren left _ _ => by
    simpa using none front named paren left
  rw [List.append_nil] at passed
  exact passed

/-- Where a name is called, there is a first call of it. -/
theorem exists_firstCall {before named rest : List Token} {paren : Token}
    (h : Opening parts tokens before named paren rest) :
    ∃ before named paren rest, FirstCall parts tokens before named paren rest := by
  induction size : before.length using Nat.strong_induction_on
    generalizing before named paren rest with
  | _ n ih =>
  by_cases least : ∀ before' named' paren' rest',
      Opening parts tokens before' named' paren' rest' → before.length ≤ before'.length
  · exact ⟨before, named, paren, rest, h, least⟩
  · simp only [not_forall, not_le] at least
    obtain ⟨_, _, _, _, other, shorter⟩ := least
    exact ih _ (size ▸ shorter) other rfl

/-- A call is found where the parenthesis of the first one has its partner. -/
theorem callAmong_eq_some_iff (somePart : parts ≠ []) {span : Span} :
    callAmong parts false tokens = some span ↔
      ∃ before first more paren inside close after,
        FirstCall parts tokens before (first :: more) paren (inside ++ close :: after) ∧
        Nested inside ∧ close.text = [')'] ∧ span = ⟨first.start, close.stop⟩ := by
  constructor
  · intro found
    by_cases called : ∃ before named paren rest, Opening parts tokens before named paren rest
    · obtain ⟨_, _, _, _, opening⟩ := called
      obtain ⟨before, named, paren, rest, call⟩ := exists_firstCall opening
      obtain ⟨first, more, rfl, looked⟩ := callAmong_eq_closing? somePart call
      rw [looked] at found
      obtain ⟨stop, closes, rfl⟩ := Option.map_eq_some_iff.mp found
      obtain ⟨inside, close, after, rfl, nested, isClose, rfl⟩ := closing?_eq_some_iff.mp closes
      exact ⟨before, first, more, paren, inside, close, after, call, nested, isClose, rfl⟩
    · simp only [not_exists] at called
      rw [callAmong_eq_none somePart called] at found
      cases found
  · rintro ⟨before, first, more, paren, inside, close, after, call, nested, isClose, rfl⟩
    obtain ⟨_, _, ⟨⟩, looked⟩ := callAmong_eq_closing? somePart call
    rw [looked, closing?_eq_some_iff.mpr ⟨inside, close, after, rfl, nested, isClose, rfl⟩]
    rfl

end

/-- **A call is the first balanced one.** A call of a name is found exactly if the leftmost place
where tokens spell the name, apart from a longer name and with a parenthesis directly behind it, has
a partner of that parenthesis. The call starts with the name and ends with the partner, and the
parentheses between the two are nested. The count of open parentheses never falls below zero, and
it counts nothing that stands in a string, a rune or a comment. -/
theorem first_call_balanced (text name : Text) :
    (∀ span, call? text name = some span ↔
      ∃ before first more paren inside close after,
        FirstCall (pieces '.' name) (tokenize text) before (first :: more) paren
          (inside ++ close :: after) ∧
        Nested inside ∧ close.text = [')'] ∧ span = ⟨first.start, close.stop⟩) ∧
    (∀ before named paren rest,
      FirstCall (pieces '.' name) (tokenize text) before named paren rest →
        checkedClosing? 0 (paren :: rest) = some (closing? 1 rest) ∧
        closing? 1 rest = closing? 1 (rest.filter isParen)) ∧
    (∀ front inner back passed kind, text = front ++ (inner ++ back) →
      Passes (inner ++ back) front passed → cut? (inner ++ back) = some ⟨kind, inner, back⟩ →
      kind ≠ some .punctuation →
        (tokenize text).filter isParen = (tokenize front).filter isParen ++
          (tokensFrom (byteLength (front ++ inner)) back).filter isParen) ∧
    ∀ front ending passed, text = front ++ ending → Passes ending front passed →
      cut? ending = none → (tokenize text).filter isParen = (tokenize front).filter isParen := by
  refine ⟨fun span => callAmong_eq_some_iff (pieces_ne_nil '.' name), ?_, ?_, ?_⟩
  · intro before named paren rest call
    refine ⟨?_, (closing?_filter_isParen 1 rest).symm⟩
    rw [checkedClosing?, if_pos call.isOpen, checkedClosing?_succ]
  · rintro front inner back passed kind rfl passes cut noMark
    exact filter_isParen_around passes cut noMark
  · rintro front ending passed rfl passes done
    exact filter_isParen_before passes done

/-- A call in its own arguments, with parentheses in a string, a rune and a comment. -/
example : call? "a.F + F(F(\")\"), ')' /* ) */) + F()".toList ['F'] = some ⟨6, 28⟩ := by
  decide +kernel

/-- The first call is not closed, and the one in it is not looked at. -/
example : call? "F(F(1)".toList ['F'] = none := by decide +kernel

end Patch

end Prefill
