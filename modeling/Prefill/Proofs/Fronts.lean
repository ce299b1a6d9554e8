import Prefill.Proofs.Comments
import Prefill.Proofs.Cuts
import Prefill.Go.Lexeme

/-!
What stands at the front of a text is decided by the lines it stands on: a piece that is complete
and ends within the first lines of a text is read there whatever the lines after them are
(`front_congr`). A line feed stops every scan except those of comments, raw strings and escapes,
which say themselves where they end.
-/

namespace Prefill.Go

open Text

/-! ### Numbers -/

namespace Number

/-- A scan that stops at a line feed at the latest. -/
def StopsAtFeed (scan : Scan) : Prop :=
  ∀ lines after : Text, '\n' ∈ lines →
    scan (lines ++ after) = (scan lines).map (· ++ after) ∧
      ∀ left, scan lines = some left → '\n' ∈ left

theorem stops_char {isWanted : Char → Bool} (h : isWanted '\n' = false) :
    StopsAtFeed (char isWanted) := by
  intro lines after feed
  cases lines with
  | nil => cases feed
  | cons c rest =>
    simp only [List.cons_append, char]
    cases wanted : isWanted c with
    | false => simp
    | true =>
      have differs : '\n' ≠ c := by rintro rfl; simp [h] at wanted
      refine ⟨rfl, ?_⟩
      rintro _ ⟨⟩
      exact (List.mem_cons.mp feed).resolve_left differs

theorem stops_followedBy {first second : Scan} (h : StopsAtFeed first) (h' : StopsAtFeed second) :
    StopsAtFeed (followedBy first second) := by
  intro lines after feed
  obtain ⟨here, within⟩ := h lines after feed
  unfold followedBy
  rw [here]
  cases read : first lines with
  | none => simp
  | some left => exact h' left after (within left read)

theorem stops_optionally {scan : Scan} (h : StopsAtFeed scan) : StopsAtFeed (optionally scan) := by
  intro lines after feed
  obtain ⟨here, within⟩ := h lines after feed
  unfold optionally
  rw [here]
  cases read : scan lines with
  | none =>
    refine ⟨rfl, ?_⟩
    rintro _ ⟨⟩
    exact feed
  | some left =>
    refine ⟨rfl, ?_⟩
    rintro _ ⟨⟩
    exact within left read

/-- The shorter of what two forms leave over. -/
def shorter (best : Option Text) (rest : Text) : Option Text :=
  match best with
  | some chosen => if rest.length < chosen.length then some rest else some chosen
  | none => some rest

theorem foldl_shorter_append (after : Text) (lefts : List Text) (best : Option Text) :
    (lefts.map (· ++ after)).foldl shorter (best.map (· ++ after)) =
      (lefts.foldl shorter best).map (· ++ after) := by
  induction lefts generalizing best with
  | nil => rfl
  | cons left lefts ih =>
    have step : shorter (best.map (· ++ after)) (left ++ after) =
        (shorter best left).map (· ++ after) := by
      cases best with
      | none => rfl
      | some chosen =>
        simp only [shorter, Option.map_some, List.length_append, Nat.add_lt_add_iff_right]
        split <;> rfl
    rw [List.map_cons, List.foldl_cons, List.foldl_cons, step, ih]

theorem foldl_shorter_mem (lefts : List Text) (best : Option Text) (chosen : Text)
    (h : lefts.foldl shorter best = some chosen) : best = some chosen ∨ chosen ∈ lefts := by
  induction lefts generalizing best with
  | nil => exact .inl h
  | cons left lefts ih =>
    obtain found | found := ih _ h
    · cases best with
      | none =>
        obtain rfl := Option.some.inj found
        exact .inr (List.mem_cons_self ..)
      | some before =>
        simp only [shorter] at found
        split at found
        · obtain rfl := Option.some.inj found
          exact .inr (List.mem_cons_self ..)
        · exact .inl found
    · exact .inr (List.mem_cons_of_mem _ found)

theorem stops_longest {scans : List Scan} (h : ∀ scan ∈ scans, StopsAtFeed scan) :
    StopsAtFeed (longest scans) := by
  intro lines after feed
  have lefts : (scans.filterMap fun scan => scan (lines ++ after)) =
      (scans.filterMap fun scan => scan lines).map (· ++ after) := by
    induction scans with
    | nil => rfl
    | cons scan scans ih =>
      rw [List.forall_mem_cons] at h
      rw [List.filterMap_cons, List.filterMap_cons, (h.1 lines after feed).1, ih h.2]
      cases scan lines <;> rfl
  refine ⟨?_, fun left found => ?_⟩
  · show List.foldl shorter none _ = _
    rw [lefts]
    exact foldl_shorter_append after _ none
  · obtain noneLeft | member := foldl_shorter_mem _ _ _ found
    · cases noneLeft
    · obtain ⟨scan, isScan, read⟩ := List.mem_filterMap.mp member
      exact (h scan isScan lines after feed).2 left read

theorem moreDigits_append {isDigit : Char → Bool} (h : isDigit '\n' = false) (after : Text)
    (lines : Text) (feed : '\n' ∈ lines) :
    moreDigits isDigit (lines ++ after) = moreDigits isDigit lines ++ after ∧
      '\n' ∈ moreDigits isDigit lines := by
  fun_induction moreDigits isDigit lines with
  | case1 d rest digit ih =>
    have differs : '\n' ≠ d := by rintro rfl; simp [h] at digit
    have inner : '\n' ∈ rest := by simpa [differs] using feed
    simpa [moreDigits, digit] using ih inner
  | case2 d rest notDigit => simpa [moreDigits, notDigit] using feed
  | case3 c rest noBar digit ih =>
    have differs : '\n' ≠ c := by rintro rfl; simp [h] at digit
    have inner : '\n' ∈ rest := by simpa [differs] using feed
    obtain ⟨d, more, rfl⟩ := List.exists_cons_of_ne_nil (List.ne_nil_of_mem inner)
    have step : moreDigits isDigit (c :: (d :: more ++ after)) =
        moreDigits isDigit (d :: more ++ after) := by
      rw [List.cons_append, moreDigits]
      · simp [digit]
      · intro e tail bar _
        exact noBar d more bar rfl
    rw [List.cons_append, step]
    exact ih inner
  | case4 c rest noBar notDigit =>
    refine ⟨?_, feed⟩
    cases rest with
    | nil =>
      obtain rfl : c = '\n' := by simpa [eq_comm] using feed
      simp [moreDigits, h]
    | cons d more =>
      rw [List.cons_append, List.cons_append, moreDigits]
      · simp [notDigit]
      · intro e tail bar _
        exact noBar d more bar rfl
  | case5 => cases feed

theorem stops_digits {isDigit : Char → Bool} (h : isDigit '\n' = false) :
    StopsAtFeed (digits isDigit) := by
  intro lines after feed
  obtain ⟨here, within⟩ := stops_char h lines after feed
  unfold digits
  rw [here]
  cases read : char isDigit lines with
  | none => simp
  | some left =>
    obtain ⟨same, inner⟩ := moreDigits_append h after left (within left read)
    refine ⟨by simp [same], ?_⟩
    rintro _ ⟨⟩
    exact inner

theorem stops_oneOf {chars : String} (h : chars.toList.contains '\n' = false) :
    StopsAtFeed (oneOf chars) := stops_char h

theorem stops_underscore : StopsAtFeed underscore := stops_optionally (stops_oneOf (by decide))

theorem stops_decimal : StopsAtFeed decimal := stops_digits (by decide)

theorem stops_base {letters : String} (h : letters.toList.contains '\n' = false) :
    StopsAtFeed (base letters) := stops_followedBy (stops_oneOf (by decide)) (stops_oneOf h)

theorem stops_exponent {letters : String} (h : letters.toList.contains '\n' = false) :
    StopsAtFeed (exponent letters) :=
  stops_followedBy (stops_oneOf h)
    (stops_followedBy (stops_optionally (stops_oneOf (by decide))) stops_decimal)

theorem stops_hexDigits : StopsAtFeed (digits isHexDigit) := stops_digits (by decide)

theorem stops_integerForms : ∀ form ∈ integerForms, StopsAtFeed form := by
  simp only [integerForms, List.forall_mem_cons, List.not_mem_nil, false_imp_iff, implies_true,
    and_true]
  refine ⟨?_, stops_oneOf (by decide), ?_, ?_, ?_⟩
  · exact stops_followedBy (stops_base (by decide))
      (stops_followedBy stops_underscore (stops_digits (by decide)))
  · exact stops_followedBy (stops_oneOf (by decide))
      (stops_optionally (stops_followedBy stops_underscore stops_decimal))
  · exact stops_followedBy (stops_oneOf (by decide))
      (stops_followedBy (stops_optionally (stops_oneOf (by decide)))
        (stops_followedBy stops_underscore (stops_digits (by decide))))
  · exact stops_followedBy (stops_base (by decide))
      (stops_followedBy stops_underscore stops_hexDigits)

theorem stops_hexMantissa : StopsAtFeed hexMantissa := by
  refine stops_longest ?_
  simp only [List.forall_mem_cons, List.not_mem_nil, false_imp_iff, implies_true, and_true]
  refine ⟨?_, stops_followedBy stops_underscore stops_hexDigits, ?_⟩
  · exact stops_followedBy stops_underscore (stops_followedBy stops_hexDigits
      (stops_followedBy (stops_oneOf (by decide)) (stops_optionally stops_hexDigits)))
  · exact stops_followedBy (stops_oneOf (by decide)) stops_hexDigits

theorem stops_floatForms : ∀ form ∈ floatForms, StopsAtFeed form := by
  have power : StopsAtFeed (optionally (exponent "eE")) :=
    stops_optionally (stops_exponent (by decide))
  have point : StopsAtFeed (oneOf ".") := stops_oneOf (by decide)
  simp only [floatForms, List.forall_mem_cons, List.not_mem_nil, false_imp_iff, implies_true,
    and_true]
  refine ⟨?_, ?_, ?_, ?_⟩
  · exact stops_followedBy stops_decimal (stops_followedBy point
      (stops_followedBy (stops_optionally stops_decimal) power))
  · exact stops_followedBy stops_decimal (stops_exponent (by decide))
  · exact stops_followedBy point (stops_followedBy stops_decimal power)
  · exact stops_followedBy (stops_base (by decide))
      (stops_followedBy stops_hexMantissa (stops_exponent (by decide)))

theorem stops_scan : StopsAtFeed scan := by
  have real : ∀ form ∈ integerForms ++ floatForms, StopsAtFeed form := by
    intro form member
    exact (List.mem_append.mp member).elim (stops_integerForms form) (stops_floatForms form)
  refine stops_longest fun form member => ?_
  obtain plain | imaginary := List.mem_append.mp member
  · exact real form plain
  · obtain ⟨inner, isForm, rfl⟩ := List.mem_map.mp imaginary
    obtain rfl | isForm := List.mem_cons.mp isForm
    · exact stops_followedBy stops_decimal (stops_oneOf (by decide))
    · exact stops_followedBy (real inner isForm) (stops_oneOf (by decide))

end Number

/-! ### Comments, strings and runes -/

theorem takeWhile_append_congr {α : Type} {p : α → Bool} {part after : List α} (after' : List α)
    (within : ((part ++ after).takeWhile p).length < part.length) :
    (part ++ after').takeWhile p = (part ++ after).takeWhile p := by
  induction part with
  | nil => simp at within
  | cons c part ih =>
    cases wanted : p c with
    | false => simp [wanted]
    | true =>
      simp only [List.cons_append, List.takeWhile_cons, wanted, if_true, List.length_cons] at within ⊢
      rw [ih (by omega)]

namespace Lexeme

theorem notHexDigit : Number.isHexDigit '"' = false ∧ Number.isHexDigit '\n' = false ∧
    Number.isHexDigit '\\' = false := by decide

/-- The digits at the front of a string are part of it, and its closing quote comes after them. -/
theorem hexDigits_lt {text : Text} {size : Nat} (read : stringLength? text = some size) :
    (text.takeWhile Number.isHexDigit).length < size := by
  fun_induction stringLength? text generalizing size with
  | case1 => cases read
  | case2 rest =>
    obtain rfl := Option.some.inj read
    simp [notHexDigit.1]
  | case3 rest => cases read
  | case4 c rest short => cases read
  | case5 c rest enough ih =>
    obtain ⟨inner, found, rfl⟩ := Option.map_eq_some_iff.mp read
    simp [notHexDigit.2.2]
  | case6 c rest _ _ _ ih =>
    obtain ⟨inner, found, rfl⟩ := Option.map_eq_some_iff.mp read
    have shorter := ih found
    rw [List.takeWhile_cons]
    split
    · simpa using shorter
    · simp

theorem stringLength?_congr {part after : Text} {size : Nat} (after' : Text)
    (read : stringLength? (part ++ after) = some size) (within : size ≤ part.length) :
    stringLength? (part ++ after') = some size := by
  generalize whole : part ++ after = text at read
  fun_induction stringLength? text generalizing part size with
  | case1 => cases read
  | case2 rest =>
    obtain rfl := Option.some.inj read
    obtain ⟨c, part, rfl⟩ := List.exists_cons_of_length_pos within
    obtain ⟨rfl, -⟩ := List.cons.inj whole
    rfl
  | case3 rest => cases read
  | case4 c rest short => cases read
  | case5 c rest enough ih =>
    obtain ⟨inner, found, rfl⟩ := Option.map_eq_some_iff.mp read
    match part, whole, within with
    | d :: e :: part, whole, within =>
      simp only [List.cons_append, List.cons.injEq] at whole
      obtain ⟨rfl, rfl, rfl⟩ := whole
      simp only [List.length_cons, Nat.add_le_add_iff_right] at within
      have digits := takeWhile_append_congr after'
        (Nat.lt_of_lt_of_le (hexDigits_lt found) within)
      simp only [List.cons_append, stringLength?, digits, if_neg enough, ih within rfl found,
        Option.map_some]
    | [_], _, within => simp at within
    | [], _, within => simp at within
  | case6 c rest notQuote notFeed notEscape ih =>
    obtain ⟨inner, found, rfl⟩ := Option.map_eq_some_iff.mp read
    obtain ⟨d, part, rfl⟩ := List.exists_cons_of_length_pos (Nat.lt_of_lt_of_le inner.succ_pos within)
    simp only [List.cons_append, List.cons.injEq] at whole
    obtain ⟨rfl, rfl⟩ := whole
    have again := ih (by simpa using within) rfl found
    have plain : d ≠ '\\' := by
      rintro rfl
      cases part with
      | nil =>
        cases after with
        | nil => cases found
        | cons e after => exact notEscape e after rfl rfl
      | cons e part => exact notEscape e (part ++ after) rfl rfl
    rw [List.cons_append, stringLength?, again]
    · rfl
    · exact notQuote
    · exact notFeed
    · exact fun e tail escape => absurd escape plain

theorem runeEscapeLength?_pos {text : Text} {size : Nat}
    (read : runeEscapeLength? text = some size) : 0 < size := by
  unfold runeEscapeLength? at read
  repeat' split at read
  all_goals simp at read
  all_goals omega

theorem runeEscapeLength?_congr {part after : Text} {size : Nat} (after' : Text)
    (read : runeEscapeLength? (part ++ after) = some size) (within : size ≤ part.length) :
    runeEscapeLength? (part ++ after') = some size := by
  obtain ⟨c, part, rfl⟩ :=
    List.exists_cons_of_length_pos (Nat.lt_of_lt_of_le (runeEscapeLength?_pos read) within)
  simp only [List.length_cons] at within
  simp only [List.cons_append, runeEscapeLength?] at read ⊢
  -- Each form says how many of the characters after the first one it looks at.
  have same {count : Nat} (fits : count ≤ part.length) (rest : Text) :
      (part ++ rest).take count = part.take count := List.take_append_of_le_length fits
  split
  · rename_i simple
    rwa [if_pos simple] at read
  · rename_i notSimple
    rw [if_neg notSimple] at read
    split
    · rename_i digits
      rw [if_pos digits] at read
      split at read
      · rename_i all
        obtain rfl := Option.some.inj read
        have fits : escapeDigits c ≤ part.length := by omega
        rw [same fits] at all ⊢
        rw [if_pos all]
      · cases read
    · rename_i noDigits
      rw [if_neg noDigits] at read
      split at read
      · rename_i all
        obtain rfl := Option.some.inj read
        have fits : 2 ≤ part.length := by omega
        rw [same fits] at all ⊢
        rw [if_pos all]
      · cases read

theorem runeLength?_congr {part after : Text} {size : Nat} (after' : Text)
    (read : runeLength? (part ++ after) = some size) (within : size ≤ part.length) :
    runeLength? (part ++ after') = some size := by
  generalize whole : part ++ after = text at read
  fun_cases runeLength? text with
  | case1 rest =>
    obtain ⟨inner, escape, closed⟩ := Option.bind_eq_some_iff.mp read
    split at closed
    · rename_i quote
      obtain rfl := Option.some.inj closed
      obtain ⟨c, part, rfl⟩ :=
        List.exists_cons_of_length_pos (Nat.lt_of_lt_of_le inner.succ.succ_pos within)
      simp only [List.cons_append, List.cons.injEq] at whole
      obtain ⟨rfl, rfl⟩ := whole
      simp only [List.length_cons] at within
      have fits : inner < part.length := by omega
      have head (rest : Text) : ((part ++ rest).drop inner).head? = part[inner]? := by
        rw [List.head?_drop, List.getElem?_append_left fits]
      rw [head] at quote
      simp only [List.cons_append, runeLength?, head, quote, if_true,
        runeEscapeLength?_congr after' escape (Nat.le_of_lt fits), Option.bind_some]
    · cases closed
  | case2 rest => simp [runeLength?] at read
  | case3 c rest notEscape notQuote =>
    have two : size = 2 := by simpa [runeLength?, notEscape, notQuote, eq_comm] using read
    subst two
    match part, whole, within with
    | d :: e :: part, whole, _ =>
      simp only [List.cons_append, List.cons.injEq] at whole
      obtain ⟨rfl, rfl, rfl⟩ := whole
      simp [runeLength?, notQuote]
    | [_], _, within => simp at within
    | [], _, within => simp at within
  | case4 notEscape notPlain => rw [runeLength?] at read <;> simp_all

/-! ### Operators -/

theorem startsWith_append_feed {lead : String} (noFeed : '\n' ∉ lead.toList) {lines : Text}
    (feed : '\n' ∈ lines) (after : Text) :
    startsWith lead (lines ++ after) = startsWith lead lines := by
  unfold startsWith after?
  generalize lead.toList = text at noFeed
  induction text generalizing lines with
  | nil => rfl
  | cons c text ih =>
    cases lines with
    | nil => cases feed
    | cons d lines =>
      simp only [List.mem_cons, not_or] at noFeed
      simp only [List.cons_append, strip?]
      split
      · rename_i eq
        subst eq
        exact ih ((List.mem_cons.mp feed).resolve_left noFeed.1) noFeed.2
      · rfl

theorem operators_noFeed : ∀ op ∈ operators, '\n' ∉ op.toList := by decide

theorem find_operator_append {lines : Text} (feed : '\n' ∈ lines) (after : Text) :
    operators.find? (fun op => startsWith op (lines ++ after)) =
      operators.find? (fun op => startsWith op lines) := by
  have all := operators_noFeed
  generalize operators = ops at all
  induction ops with
  | nil => rfl
  | cons op ops ih =>
    rw [List.forall_mem_cons] at all
    rw [List.find?_cons, List.find?_cons, startsWith_append_feed all.1 feed, ih all.2]

/-! ### Pieces -/

theorem takeWhile_append_feed {p : Char → Bool} (stop : p '\n' = false) {lines : Text}
    (feed : '\n' ∈ lines) (after : Text) :
    (lines ++ after).takeWhile p = lines.takeWhile p := by
  induction lines with
  | nil => cases feed
  | cons c lines ih =>
    cases wanted : p c with
    | false => simp [wanted]
    | true =>
      have differs : '\n' ≠ c := by rintro rfl; simp [stop] at wanted
      simp [wanted, ih ((List.mem_cons.mp feed).resolve_left differs)]

theorem lexemeFront_congr {c : Char} {lines after : Text} (after' : Text) (feed : '\n' ∈ lines)
    (wellFormed : (lexemeFront c (lines ++ after)).1 ≠ .lexeme .bad)
    (within : (lexemeFront c (lines ++ after)).2 ≤ lines.length + 1) :
    lexemeFront c (lines ++ after') = lexemeFront c (lines ++ after) := by
  have head (rest : Text) : (lines ++ rest).head? = lines.head? := by
    obtain ⟨d, more, rfl⟩ := List.exists_cons_of_ne_nil (List.ne_nil_of_mem feed)
    rfl
  unfold lexemeFront at wellFormed within ⊢
  by_cases word : isIdentifierStart c = true
  · simp only [if_pos word, takeWhile_append_feed (p := isIdentifierPart) (by decide) feed]
  simp only [if_neg word] at wellFormed within ⊢
  rw [head] at wellFormed within ⊢
  rw [head]
  by_cases number : (isAsciiDigit c || (c = '.' && lines.head?.any isAsciiDigit)) = true
  · have scanned (rest : Text) :=
      (Number.stops_scan (c :: lines) rest (List.mem_cons_of_mem c feed)).1
    simp only [if_pos number, ← List.cons_append, scanned]
    cases Number.scan (c :: lines) with
    | none => rfl
    | some left =>
      simp only [Option.map_some, List.length_append]
      congr 1
      omega
  simp only [if_neg number] at wellFormed within ⊢
  by_cases string : c = '"'
  · simp only [if_pos string] at wellFormed within ⊢
    cases read : stringLength? (lines ++ after) with
    | none => simp [read] at wellFormed
    | some size =>
      simp only [read] at within
      rw [stringLength?_congr after' read (by omega)]
  simp only [if_neg string] at wellFormed within ⊢
  by_cases raw : c = '`'
  · simp only [if_pos raw] at wellFormed within ⊢
    cases read : cutAt? ['`'] (lines ++ after) with
    | none => simp [read] at wellFormed
    | some cut =>
      obtain ⟨inner, tail⟩ := cut
      simp only [read] at within
      obtain ⟨left, again⟩ := cutAt?_congr after' read (by simp) (by simp; omega)
      rw [again]
  simp only [if_neg raw] at wellFormed within ⊢
  by_cases rune : c = '\''
  · simp only [if_pos rune] at wellFormed within ⊢
    cases read : runeLength? (lines ++ after) with
    | none => simp [read] at wellFormed
    | some size =>
      simp only [read] at within
      rw [runeLength?_congr after' read (by omega)]
  simp only [if_neg rune] at wellFormed within ⊢
  have inner := List.mem_cons_of_mem c feed
  rw [← List.cons_append, ← List.cons_append, find_operator_append inner after',
    find_operator_append inner after]

theorem blockComment?_of_star (rest : Text) :
    blockComment? '/' ('*' :: rest) = cutAt? "*/".toList rest := by
  simp [blockComment?, after?, strip?, show "*".toList = ['*'] by decide]

theorem blockComment?_eq_none {c d : Char} (h : ¬ (c = '/' ∧ d = '*')) (rest : Text) :
    blockComment? c (d :: rest) = none := by
  unfold blockComment?
  split
  · rename_i slash
    have noStar : ¬ '*' = d := fun star => h ⟨slash, star.symm⟩
    simp [after?, strip?, show "*".toList = ['*'] by decide, noStar]
  · rfl

/-- A slash that opens no comment is an operator. -/
theorem lexemeFront_slash (rest : Text) : (lexemeFront '/' rest).1 = .lexeme .operator := by
  have divides : startsWith "/" ('/' :: rest) = true := by
    simp [startsWith, after?, strip?, show "/".toList = ['/'] by decide]
  obtain ⟨op, found⟩ := Option.isSome_iff_exists.mp
    (List.find?_isSome.mpr ⟨"/", by decide, divides⟩ :
      (operators.find? fun op => startsWith op ('/' :: rest)).isSome = true)
  have notWord : isIdentifierStart '/' = false := by decide
  have notDigit : isAsciiDigit '/' = false := by decide
  simp [lexemeFront, notWord, notDigit, found]

/-- A piece that stays as it is whatever follows: no literal that breaks off, and no comment that is
left open. -/
def Complete (c : Char) (rest : Text) : Prop :=
  (front c rest).1 ≠ .lexeme .bad ∧
    ¬ (c = '/' ∧ rest.head? = some '*' ∧ (front c rest).1 = .lexeme .operator)

/-- **A piece that ends within the first lines** of a text does not depend on the lines after. -/
theorem front_congr {c : Char} {lines after : Text} (after' : Text)
    (ended : (c :: lines).getLast? = some '\n') (complete : Complete c (lines ++ after))
    (within : (front c (lines ++ after)).2 ≤ (c :: lines).length) :
    front c (lines ++ after') = front c (lines ++ after) := by
  obtain ⟨wellFormed, closed⟩ := complete
  rw [front] at wellFormed within
  rw [front, front]
  by_cases blank : isBlank c = true
  · rw [if_pos blank, if_pos blank]
  rw [if_neg blank] at wellFormed within
  rw [if_neg blank, if_neg blank]
  have feed : '\n' ∈ lines := by
    have last := List.mem_of_getLast? ended
    obtain rfl | inner := List.mem_cons.mp last
    · exact absurd (by decide) blank
    · exact inner
  obtain ⟨d, more, rfl⟩ := List.exists_cons_of_ne_nil (List.ne_nil_of_mem feed)
  have head (rest : Text) : (d :: more ++ rest).head? = some d := rfl
  simp only [head] at wellFormed within closed ⊢
  by_cases line : (c = '/' && some d = some '/') = true
  · rw [if_pos line, if_pos line, takeWhile_append_feed (by decide) feed,
      takeWhile_append_feed (by decide) feed]
  rw [if_neg line] at wellFormed within
  rw [if_neg line, if_neg line]
  by_cases block : c = '/' ∧ d = '*'
  · obtain ⟨rfl, rfl⟩ := block
    simp only [List.cons_append, blockComment?_of_star] at wellFormed within ⊢
    cases cut : cutAt? "*/".toList (more ++ after) with
    | none =>
      have operator : (front '/' ('*' :: more ++ after)).1 = .lexeme .operator := by
        rw [front, if_neg (by decide), if_neg (by simp), List.cons_append,
          blockComment?_of_star, cut]
        exact lexemeFront_slash _
      exact absurd ⟨rfl, rfl, operator⟩ closed
    | some found =>
      obtain ⟨inner, tail⟩ := found
      simp only [cut, List.length_cons] at within
      have size : "*/".toList.length = 2 := by decide
      obtain ⟨left, again⟩ := cutAt?_congr after' cut (by decide) (by omega)
      rw [again]
  · simp only [List.cons_append, blockComment?_eq_none block] at wellFormed within ⊢
    exact lexemeFront_congr after' feed wellFormed within

end Lexeme

end Prefill.Go
