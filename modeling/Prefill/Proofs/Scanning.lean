import Prefill.Proofs.Fronts
import Prefill.Proofs.Moving

/-!
Reading a file in parts. Whole lines that no piece runs out of are read in the same way whatever
follows (`exists_readsAs`), so a file can be read one part at a time; and a part that stands
elsewhere is read in the same way with its positions moved (`lexemes_rebased`).
-/

namespace Prefill.Go

open Text

/-! ### Positions -/

namespace Position

theorem past_append (p : Position) (front back : Text) :
    p.past (front ++ back) = (p.past front).past back := List.foldl_append ..

theorem past_cons (p : Position) (c : Char) (rest : Text) :
    p.past (c :: rest) = (p.next c).past rest := rfl

theorem next_line (p : Position) (c : Char) :
    (p.next c).line = p.line + if c = '\n' then 1 else 0 := by
  unfold next
  split <;> rfl

theorem next_byte (p : Position) (c : Char) : (p.next c).byte = p.byte + c.utf8Size := by
  unfold next
  split
  · rename_i feed
    subst feed
    rfl
  · rfl

/-- The number of line feeds of a text says how far down it leads. -/
theorem past_line (p : Position) (text : Text) : (p.past text).line = p.line + text.count '\n' := by
  induction text generalizing p with
  | nil => rfl
  | cons c rest ih =>
    rw [past_cons, ih, next_line, List.count_cons]
    simp only [beq_iff_eq]
    omega

theorem past_byte (p : Position) (text : Text) : (p.past text).byte = p.byte + byteLength text := by
  induction text generalizing p with
  | nil => rfl
  | cons c rest ih => rw [past_cons, ih, next_byte, byteLength, Nat.add_assoc]

theorem past_column {p q : Position} (same : p.column = q.column) (text : Text) :
    (p.past text).column = (q.past text).column := by
  induction text generalizing p q with
  | nil => exact same
  | cons c rest ih =>
    apply ih
    unfold next
    split
    · rfl
    · simp only [same]

/-- A position that is as far from a new place as it was from the old one. -/
def rebased (old new p : Position) : Position :=
  ⟨new.byte + (p.byte - old.byte), new.line + (p.line - old.line), p.column⟩

theorem rebased_past {old new : Position} (same : old.column = new.column) (text : Text) :
    rebased old new (old.past text) = new.past text := by
  have column := past_column same text
  have byte := past_byte new text
  have line := past_line new text
  unfold rebased
  rw [past_byte, past_line, Nat.add_sub_cancel_left, Nat.add_sub_cancel_left, ← byte, ← line, column]

theorem line_le_past (p : Position) (text : Text) : p.line ≤ (p.past text).line := by
  rw [past_line]
  omega

end Position

namespace Lexeme

/-! ### Pieces of a text -/

/-- The first piece of a text that starts with `c`. -/
def firstPiece (c : Char) (rest : Text) : Text := c :: rest.take ((front c rest).2 - 1)

/-- What follows the first piece. -/
def afterPiece (c : Char) (rest : Text) : Text := rest.drop ((front c rest).2 - 1)

theorem firstPiece_append_afterPiece (c : Char) (rest : Text) :
    firstPiece c rest ++ afterPiece c rest = c :: rest := by
  rw [firstPiece, afterPiece, List.cons_append, List.take_append_drop]

theorem afterPiece_length (c : Char) (rest : Text) : (afterPiece c rest).length ≤ rest.length := by
  rw [afterPiece, List.length_drop]
  omega

/-- Two lexemes are the same when all that can be seen of them is. -/
theorem eq_of_parts {t u : Lexeme} (kind : t.kind = u.kind) (text : t.text = u.text)
    (span : t.span = u.span) (newline : t.afterNewline = u.afterNewline) : t = u := by
  obtain ⟨_, _, _, _, _⟩ := t
  obtain ⟨_, _, _, _, _⟩ := u
  simp only at kind text span newline
  subst kind text span newline
  rfl

section

variable {fuel : Nat} {p : Position} {newline : Bool} {c : Char} {rest : Text}

theorem scanFrom_blank (h : (front c rest).1 = .blank) :
    scanFrom (fuel + 1) p newline (c :: rest) =
      scanFrom fuel (p.past (firstPiece c rest)) (newline || c = '\n') (afterPiece c rest) := by
  rw [scanFrom]
  split <;> simp_all [firstPiece, afterPiece]

theorem scanFrom_comment (h : (front c rest).1 = .comment) :
    scanFrom (fuel + 1) p newline (c :: rest) =
      let stream := scanFrom fuel (p.past (firstPiece c rest)) newline (afterPiece c rest)
      ⟨stream.lexemes,
        ⟨firstPiece c rest, ⟨p, p.past (firstPiece c rest)⟩⟩ :: stream.comments⟩ := by
  rw [scanFrom]
  split <;> simp_all [firstPiece, afterPiece]

theorem scanFrom_lexeme {kind : Kind} (h : (front c rest).1 = .lexeme kind) (fuel : Nat)
    (p : Position) (newline : Bool) :
    ∃ t : Lexeme, t.kind = kind ∧ t.text = firstPiece c rest ∧
      t.span = ⟨p, p.past (firstPiece c rest)⟩ ∧ t.afterNewline = newline ∧
      scanFrom (fuel + 1) p newline (c :: rest) =
        let stream := scanFrom fuel (p.past (firstPiece c rest)) false (afterPiece c rest)
        ⟨t :: stream.lexemes, stream.comments⟩ := by
  rw [scanFrom]
  split
  · simp_all
  · simp_all
  · rename_i found eq
    obtain rfl : found = kind := by simpa [h] using eq.symm
    exact ⟨_, rfl, rfl, rfl, rfl, rfl⟩

end

/-- The fuel does not matter as long as it is enough. -/
theorem scanFrom_fuel {fuel fuel' : Nat} {text : Text} (enough : text.length ≤ fuel)
    (enough' : text.length ≤ fuel') (p : Position) (newline : Bool) :
    scanFrom fuel p newline text = scanFrom fuel' p newline text := by
  induction fuel generalizing fuel' p newline text with
  | zero =>
    obtain rfl := List.length_eq_zero_iff.mp (Nat.le_zero.mp enough)
    cases fuel' <;> rfl
  | succ fuel ih =>
    cases text with
    | nil => cases fuel' <;> rfl
    | cons c rest =>
      obtain ⟨fuel', rfl⟩ := Nat.exists_eq_add_of_le'
        (Nat.le_trans (Nat.le_add_left 1 rest.length) enough')
      simp only [List.length_cons, Nat.add_le_add_iff_right] at enough enough'
      have shorter := afterPiece_length c rest
      have left (p : Position) (newline : Bool) :=
        ih (Nat.le_trans shorter enough) (Nat.le_trans shorter enough') p newline
      cases nature : (front c rest).1 with
      | blank => rw [scanFrom_blank nature, scanFrom_blank nature, left]
      | comment => rw [scanFrom_comment nature, scanFrom_comment nature, left]
      | lexeme kind =>
        obtain ⟨t, tKind, tText, tSpan, tNewline, first⟩ :=
          scanFrom_lexeme nature fuel p newline
        obtain ⟨u, uKind, uText, uSpan, uNewline, second⟩ :=
          scanFrom_lexeme nature fuel' p newline
        obtain rfl : t = u := eq_of_parts (tKind.trans uKind.symm) (tText.trans uText.symm)
          (tSpan.trans uSpan.symm) (tNewline.trans uNewline.symm)
        rw [first, second, left]

/-- The lexemes and the comments of a text that starts at a position. -/
def readFrom (p : Position) (newline : Bool) (text : Text) : Stream :=
  scanFrom text.length p newline text

section

variable {p : Position} {newline : Bool} {c : Char} {rest : Text}

theorem readFrom_nil : readFrom p newline [] = ⟨[ending p newline], []⟩ := rfl

theorem readFrom_blank (h : (front c rest).1 = .blank) : readFrom p newline (c :: rest) =
    readFrom (p.past (firstPiece c rest)) (newline || c = '\n') (afterPiece c rest) := by
  rw [readFrom, List.length_cons, scanFrom_blank h]
  exact scanFrom_fuel (afterPiece_length c rest) (Nat.le_refl _) ..

theorem readFrom_comment (h : (front c rest).1 = .comment) : readFrom p newline (c :: rest) =
    let stream := readFrom (p.past (firstPiece c rest)) newline (afterPiece c rest)
    ⟨stream.lexemes, ⟨firstPiece c rest, ⟨p, p.past (firstPiece c rest)⟩⟩ :: stream.comments⟩ := by
  rw [readFrom, List.length_cons, scanFrom_comment h]
  dsimp only
  rw [scanFrom_fuel (afterPiece_length c rest) (Nat.le_refl _)]
  rfl

theorem readFrom_lexeme {kind : Kind} (h : (front c rest).1 = .lexeme kind) (p : Position)
    (newline : Bool) :
    ∃ t : Lexeme, t.kind = kind ∧ t.text = firstPiece c rest ∧
      t.span = ⟨p, p.past (firstPiece c rest)⟩ ∧ t.afterNewline = newline ∧
      readFrom p newline (c :: rest) =
        let stream := readFrom (p.past (firstPiece c rest)) false (afterPiece c rest)
        ⟨t :: stream.lexemes, stream.comments⟩ := by
  obtain ⟨t, kind, text, span, flag, read⟩ := scanFrom_lexeme h rest.length p newline
  refine ⟨t, kind, text, span, flag, ?_⟩
  rw [readFrom, List.length_cons, read]
  dsimp only
  rw [scanFrom_fuel (afterPiece_length c rest) (Nat.le_refl _)]
  rfl

end

/-! ### Parts of a file -/

/-- A slash and a star that touch: a comment that is never closed. -/
def OpensComment (t u : Lexeme) : Prop :=
  t.text = ['/'] ∧ t.span.stop = u.span.start ∧ u.text.head? = some '*'

instance (t u : Lexeme) : Decidable (OpensComment t u) := inferInstanceAs (Decidable (_ ∧ _ ∧ _))

/-- Nothing runs across the end of a line: no lexeme, which may be a literal that breaks off, and no
comment, which may be never closed. -/
structure Stream.BreaksAfter (stream : Stream) (line : Nat) : Prop where
  lexemes : ∀ t ∈ stream.lexemes, t.span.start.line ≤ line → t.kind ≠ .bad ∧ t.span.stop.line ≤ line
  comments : ∀ c ∈ stream.comments, c.span.start.line ≤ line → c.span.stop.line ≤ line
  closed : ∀ t ∈ stream.lexemes, ∀ u ∈ stream.lexemes, OpensComment t u → line < t.span.start.line

instance (stream : Stream) (line : Nat) : Decidable (stream.BreaksAfter line) :=
  decidable_of_iff (_ ∧ _ ∧ _) ⟨fun ⟨a, b, c⟩ => ⟨a, b, c⟩, fun ⟨a, b, c⟩ => ⟨a, b, c⟩⟩

theorem Stream.BreaksAfter.mono {stream more : Stream} {line : Nat} (h : stream.BreaksAfter line)
    (lexemes : ∀ t ∈ more.lexemes, t ∈ stream.lexemes)
    (comments : ∀ c ∈ more.comments, c ∈ stream.comments) : more.BreaksAfter line :=
  ⟨fun t member => h.lexemes t (lexemes t member), fun c member => h.comments c (comments c member),
    fun t member u member' => h.closed t (lexemes t member) u (lexemes u member')⟩

theorem exists_lexemeFront (c : Char) (rest : Text) :
    ∃ kind, (lexemeFront c rest).1 = .lexeme kind := by
  unfold lexemeFront
  repeat' split
  all_goals exact ⟨_, rfl⟩

theorem front_star (rest : Text) : ∃ kind, (front '*' rest).1 = .lexeme kind := by
  have noComment : blockComment? '*' rest = none := if_neg (by decide)
  rw [front, if_neg (by decide), if_neg (by simp), noComment]
  exact exists_lexemeFront '*' rest

theorem firstPiece_slash {rest : Text}
    (h : (front '/' ('*' :: rest)).1 = .lexeme .operator) :
    firstPiece '/' ('*' :: rest) = ['/'] := by
  have size : (front '/' ('*' :: rest)).2 = 1 := by
    rw [front, if_neg (by decide), if_neg (by simp), blockComment?_of_star] at h ⊢
    cases cut : cutAt? "*/".toList rest with
    | some found =>
      rw [cut] at h
      cases h
    | none =>
      have slash : operators.find? (fun op => startsWith op ('/' :: '*' :: rest)) = some "/" := rfl
      have one : "/".length = 1 := rfl
      have notWord : isIdentifierStart '/' = false := by decide
      have notDigit : isAsciiDigit '/' = false := by decide
      simp [lexemeFront, notWord, notDigit, slash, one]
  rw [firstPiece, size]
  rfl

theorem complete_of_breaks {p : Position} {newline : Bool} {c : Char} {rest : Text} {line : Nat}
    (h : (readFrom p newline (c :: rest)).BreaksAfter line) (here : p.line ≤ line) :
    Complete c rest := by
  constructor
  · intro bad
    obtain ⟨t, kind, -, tSpan, -, read⟩ := readFrom_lexeme bad p newline
    have first : t ∈ (readFrom p newline (c :: rest)).lexemes := by
      rw [read]
      exact List.mem_cons_self ..
    exact (h.lexemes t first (by rw [tSpan]; exact here)).1 kind
  · rintro ⟨rfl, star, operator⟩
    obtain ⟨d, rest, rfl⟩ : ∃ d more, rest = d :: more := by
      cases rest with
      | nil => cases star
      | cons d more => exact ⟨d, more, rfl⟩
    obtain rfl : d = '*' := by simpa using star
    have piece := firstPiece_slash operator
    have left : afterPiece '/' ('*' :: rest) = '*' :: rest := by
      have whole := firstPiece_append_afterPiece '/' ('*' :: rest)
      rw [piece] at whole
      exact (List.cons.inj whole).2
    obtain ⟨t, -, tText, tSpan, -, read⟩ := readFrom_lexeme operator p newline
    obtain ⟨kind, star⟩ := front_star rest
    obtain ⟨u, -, uText, uSpan, -, next⟩ :=
      readFrom_lexeme star (p.past (firstPiece '/' ('*' :: rest))) false
    rw [read, left, next] at h
    have opens : OpensComment t u := by
      refine ⟨?_, ?_, ?_⟩
      · rw [tText, piece]
      · rw [tSpan, uSpan]
      · rw [uText]
        rfl
    have later := h.closed t (List.mem_cons_self ..) u (by simp) opens
    rw [tSpan] at later
    exact absurd here (Nat.not_le_of_lt later)

/-- A part of a text is read as some lexemes and comments whatever follows it. -/
def ReadsAs (p : Position) (newline : Bool) (part : Text) (lexemes : List Lexeme)
    (comments : List Comment) (newline' : Bool) : Prop :=
  ∀ after, readFrom p newline (part ++ after) =
    let stream := readFrom (p.past part) newline' after
    ⟨lexemes ++ stream.lexemes, comments ++ stream.comments⟩

theorem ReadsAs.lexemes {p : Position} {newline newline' : Bool} {part : Text}
    {lexemes : List Lexeme} {comments : List Comment}
    (h : ReadsAs p newline part lexemes comments newline') (after : Text) :
    (readFrom p newline (part ++ after)).lexemes =
      lexemes ++ (readFrom (p.past part) newline' after).lexemes :=
  congrArg Stream.lexemes (h after)

theorem ReadsAs.append {p : Position} {newline newline' newline'' : Bool} {part part' : Text}
    {lexemes lexemes' : List Lexeme} {comments comments' : List Comment}
    (first : ReadsAs p newline part lexemes comments newline')
    (second : ReadsAs (p.past part) newline' part' lexemes' comments' newline'') :
    ReadsAs p newline (part ++ part') (lexemes ++ lexemes') (comments ++ comments') newline'' := by
  intro after
  rw [List.append_assoc, first, second, Position.past_append]
  simp only [List.append_assoc]

theorem front_of_isBlank {c : Char} (h : isBlank c = true) (rest : Text) :
    front c rest = (.blank, 1) := by
  rw [front, if_pos h]

theorem isBlank_of_front {c : Char} {rest : Text} (h : (front c rest).1 = .blank) :
    isBlank c = true := by
  by_contra notBlank
  rw [front, if_neg notBlank] at h
  split at h
  · cases h
  · split at h
    · cases h
    · obtain ⟨kind, lexeme⟩ := exists_lexemeFront c rest
      rw [lexeme] at h
      cases h

theorem readsAs_blank {c : Char} (h : isBlank c = true) (p : Position) (newline : Bool) :
    ReadsAs p newline [c] [] [] (newline || c = '\n') := by
  intro after
  have piece : firstPiece c after = [c] := by rw [firstPiece, front_of_isBlank h]; rfl
  have left : afterPiece c after = after := by rw [afterPiece, front_of_isBlank h]; rfl
  rw [List.singleton_append, readFrom_blank (by rw [front_of_isBlank h]), piece, left]
  rfl

/-- Lines lead to a later line. -/
theorem line_lt_past {p : Position} {lines : Text} (ended : lines.getLast? = some '\n') :
    p.line < (p.past lines).line := by
  have feed := List.count_pos_iff.mpr (List.mem_of_getLast? ended)
  rw [Position.past_line]
  omega

section

variable {p : Position} {newline : Bool} {c : Char} {lines after : Text}

/-- A piece that does not run across the end of the last of some lines ends before it. -/
theorem piece_within (notAcross : (p.past (firstPiece c (lines ++ after))).line <
      (p.past (c :: lines)).line) : (front c (lines ++ after)).2 - 1 < lines.length := by
  by_contra across
  rw [Nat.not_lt] at across
  have split : firstPiece c (lines ++ after) =
      c :: lines ++ after.take ((front c (lines ++ after)).2 - 1 - lines.length) := by
    rw [firstPiece, List.take_append, List.take_of_length_le across, List.cons_append]
  rw [split, Position.past_append] at notAcross
  exact absurd (Position.line_le_past _ _) (Nat.not_le_of_lt notAcross)

/-- Such a piece is the same whatever the lines after are. -/
theorem front_same (ended : (c :: lines).getLast? = some '\n')
    (breaks : (readFrom p newline (c :: lines ++ after)).BreaksAfter
      ((p.past (c :: lines)).line - 1))
    (within : (front c (lines ++ after)).2 - 1 < lines.length) (after' : Text) :
    front c (lines ++ after') = front c (lines ++ after) := by
  have below := line_lt_past (p := p) ended
  refine front_congr after' ended (complete_of_breaks breaks (by omega)) ?_
  simp only [List.length_cons]
  omega

theorem firstPiece_of_within (within : (front c (lines ++ after)).2 - 1 < lines.length) :
    firstPiece c (lines ++ after) = c :: lines.take ((front c (lines ++ after)).2 - 1) := by
  rw [firstPiece, List.take_append_of_le_length (Nat.le_of_lt within)]

theorem afterPiece_of_within (within : (front c (lines ++ after)).2 - 1 < lines.length) :
    afterPiece c (lines ++ after) = lines.drop ((front c (lines ++ after)).2 - 1) ++ after := by
  rw [afterPiece, List.drop_append_of_le_length (Nat.le_of_lt within)]

end

/-- The first piece of some lines is read there whatever follows them, and the rest of them after
it. Where it is the last piece, it is the line feed at their end. -/
theorem exists_step {c : Char} {lines after : Text} {p : Position} {newline : Bool}
    (ended : (c :: lines).getLast? = some '\n')
    (breaks : (readFrom p newline (c :: lines ++ after)).BreaksAfter
      ((p.past (c :: lines)).line - 1)) :
    ∃ piece rest lexemes comments newline', c :: lines = piece ++ rest ∧
      rest.length ≤ lines.length ∧ (rest = [] → newline' = true) ∧
      (∀ t ∈ lexemes, t.span = ⟨p, p.past piece⟩ ∧ rest ≠ []) ∧
      ∀ after, readFrom p newline (c :: lines ++ after) =
        let stream := readFrom (p.past piece) newline' (rest ++ after)
        ⟨lexemes ++ stream.lexemes, comments ++ stream.comments⟩ := by
  have below := line_lt_past (p := p) ended
  have split (count : Nat) : c :: lines = c :: lines.take count ++ lines.drop count := by simp
  have shorter (count : Nat) : (lines.drop count).length ≤ lines.length := by simp
  cases nature : (front c (lines ++ after)).1 with
  | blank =>
    have first := readsAs_blank (isBlank_of_front nature) p newline
    refine ⟨[c], lines, [], [], newline || c = '\n', rfl, Nat.le_refl _, ?_, by simp, fun after =>
      first (lines ++ after)⟩
    rintro rfl
    obtain rfl : c = '\n' := by simpa using ended
    simp
  | comment =>
    have notAcross : (p.past (firstPiece c (lines ++ after))).line < (p.past (c :: lines)).line := by
      have stays := breaks.comments ⟨firstPiece c (lines ++ after),
        ⟨p, p.past (firstPiece c (lines ++ after))⟩⟩ (by
          rw [List.cons_append, readFrom_comment nature]
          exact List.mem_cons_self ..)
      simp only at stays
      omega
    have within := piece_within notAcross
    have same := front_same ended breaks within
    have more : lines.drop ((front c (lines ++ after)).2 - 1) ≠ [] := by simpa using within
    have piece := firstPiece_of_within within
    refine ⟨_, _, [], [⟨firstPiece c (lines ++ after), ⟨p, p.past (firstPiece c (lines ++ after))⟩⟩],
      newline, split _, shorter _, fun empty => absurd empty more, by simp, fun after' => ?_⟩
    rw [List.cons_append, readFrom_comment (by rw [same, nature]),
      firstPiece_of_within (by rwa [same]), afterPiece_of_within (by rwa [same]), same, piece]
    rfl
  | lexeme kind =>
    obtain ⟨t, tKind, tText, tSpan, tNewline, read⟩ := readFrom_lexeme nature p newline
    have notAcross : (p.past (firstPiece c (lines ++ after))).line < (p.past (c :: lines)).line := by
      have stays := breaks.lexemes t (by
        rw [List.cons_append, read]
        exact List.mem_cons_self ..)
      rw [tSpan] at stays
      have stays := (stays (by simp only; omega)).2
      simp only at stays
      omega
    have within := piece_within notAcross
    have same := front_same ended breaks within
    have more : lines.drop ((front c (lines ++ after)).2 - 1) ≠ [] := by simpa using within
    rw [firstPiece_of_within within] at tText tSpan
    refine ⟨_, _, [t], [], false, split _, shorter _, fun empty => absurd empty more, ?_,
      fun after' => ?_⟩
    · intro u member
      obtain rfl := List.mem_singleton.mp member
      exact ⟨tSpan, more⟩
    · obtain ⟨u, uKind, uText, uSpan, uNewline, read'⟩ :=
        readFrom_lexeme (by rw [same after', nature]) p newline
      rw [firstPiece_of_within (by rwa [same]), same] at uText uSpan
      obtain rfl : u = t := eq_of_parts (uKind.trans tKind.symm) (uText.trans tText.symm)
        (uSpan.trans tSpan.symm) (uNewline.trans tNewline.symm)
      rw [List.cons_append, read', firstPiece_of_within (by rwa [same]),
        afterPiece_of_within (by rwa [same]), same]
      rfl

/-- **Reading whole lines.** Lines that no piece runs out of are read in the same way whatever
follows them. -/
theorem exists_readsAs {lines after : Text} {p : Position} {newline : Bool}
    (ended : lines.getLast? = some '\n')
    (breaks : (readFrom p newline (lines ++ after)).BreaksAfter ((p.past lines).line - 1)) :
    ∃ lexemes comments, ReadsAs p newline lines lexemes comments true ∧
      ∀ t ∈ lexemes, t.span.start.line < (p.past lines).line ∧
        t.span.stop.line < (p.past lines).line := by
  induction size : lines.length using Nat.strongRecOn generalizing lines p newline with
  | ind n ih =>
    subst size
    cases lines with
    | nil => cases ended
    | cons c lines =>
      obtain ⟨piece, rest, lexemes, comments, newline', whole, shorter, last, spans, step⟩ :=
        exists_step ended breaks
      have position : (p.past piece).past rest = p.past (c :: lines) := by
        rw [← Position.past_append, whole]
      have feed (rest : Text) (whole : c :: lines = piece ++ rest) (more : rest ≠ []) :
          rest.getLast? = some '\n' := by
        obtain ⟨last, isLast⟩ := List.getLast?_isSome.mpr more |> Option.isSome_iff_exists.mp
        simpa [whole, List.getLast?_append, isLast] using ended
      have bounds : ∀ t ∈ lexemes, t.span.start.line < (p.past (c :: lines)).line ∧
          t.span.stop.line < (p.past (c :: lines)).line := by
        intro t member
        obtain ⟨span, more⟩ := spans t member
        have after := line_lt_past (p := p.past piece) (feed rest whole more)
        have before := Position.line_le_past p piece
        rw [position] at after
        rw [span]
        exact ⟨Nat.lt_of_le_of_lt before after, after⟩
      by_cases empty : rest = []
      · subst empty
        refine ⟨lexemes, comments, fun after => ?_, bounds⟩
        rw [step, last rfl, ← position]
        rfl
      · have ended' := feed rest whole empty
        rw [step, ← position] at breaks
        obtain ⟨lexemes', comments', reads, bounds'⟩ := ih rest.length
          (by simp only [List.length_cons]; omega) ended'
          (breaks.mono (fun t => List.mem_append_right _) fun t => List.mem_append_right _) rfl
        refine ⟨lexemes ++ lexemes', comments ++ comments', fun after => ?_, ?_⟩
        · rw [step, reads, position]
          simp only [List.append_assoc]
        · intro t member
          rw [position] at bounds'
          exact (List.mem_append.mp member).elim (bounds t) (bounds' t)

/-! ### Where lexemes stand -/

/-- Induction on a text along the pieces it is read in. -/
theorem read_induction {motive : Position → Bool → Text → Prop}
    (nil : ∀ p newline, motive p newline [])
    (blank : ∀ p newline c rest, (front c rest).1 = .blank →
      motive (p.past (firstPiece c rest)) (newline || c = '\n') (afterPiece c rest) →
      motive p newline (c :: rest))
    (comment : ∀ p newline c rest, (front c rest).1 = .comment →
      motive (p.past (firstPiece c rest)) newline (afterPiece c rest) →
      motive p newline (c :: rest))
    (lexeme : ∀ p newline c rest kind, (front c rest).1 = .lexeme kind →
      motive (p.past (firstPiece c rest)) false (afterPiece c rest) →
      motive p newline (c :: rest))
    (p : Position) (newline : Bool) (text : Text) : motive p newline text := by
  induction size : text.length using Nat.strongRecOn generalizing text p newline with
  | ind n ih =>
    subst size
    cases text with
    | nil => exact nil p newline
    | cons c rest =>
      have shorter := Nat.lt_succ_of_le (afterPiece_length c rest)
      have again (p : Position) (newline : Bool) := ih _ shorter p newline (afterPiece c rest) rfl
      cases nature : (front c rest).1 with
      | blank => exact blank p newline c rest nature (again ..)
      | comment => exact comment p newline c rest nature (again ..)
      | lexeme kind => exact lexeme p newline c rest kind nature (again ..)

/-- **A text that stands elsewhere** has the same lexemes, moved. -/
theorem lexemes_moved {move : Position → Position} {p p' : Position}
    (follows : ∀ piece, move (p.past piece) = p'.past piece) (newline : Bool) (text : Text) :
    (readFrom p' newline text).lexemes =
      (readFrom p newline text).lexemes.map (Lexeme.moved move) := by
  have later {p p' : Position} (follows : ∀ piece, move (p.past piece) = p'.past piece)
      (first piece : Text) : move ((p.past first).past piece) = (p'.past first).past piece := by
    rw [← Position.past_append, ← Position.past_append, follows]
  induction p, newline, text using read_induction generalizing p' with
  | nil p newline =>
    have here : move p = p' := follows []
    simp only [readFrom_nil, List.map_cons, List.map_nil, List.cons.injEq, and_true]
    exact eq_of_parts rfl rfl (by simp [ending, Lexeme.moved, Span.moved, here]) rfl
  | blank p newline c rest nature ih =>
    rw [readFrom_blank nature, readFrom_blank nature]
    exact ih (later follows _)
  | comment p newline c rest nature ih =>
    rw [readFrom_comment nature, readFrom_comment nature]
    exact ih (later follows _)
  | lexeme p newline c rest kind nature ih =>
    obtain ⟨t, tKind, tText, tSpan, tNewline, read⟩ := readFrom_lexeme nature p newline
    obtain ⟨u, uKind, uText, uSpan, uNewline, read'⟩ := readFrom_lexeme nature p' newline
    have here : move p = p' := follows []
    have first : u = t.moved move := by
      refine eq_of_parts (uKind.trans tKind.symm) (uText.trans tText.symm) ?_
        (uNewline.trans tNewline.symm)
      simp only [Lexeme.moved, Span.moved, uSpan, tSpan, here, follows]
    rw [read, read', first, List.map_cons]
    exact congrArg (t.moved move :: ·) (ih (later follows _))

/-- A part that stands elsewhere. -/
theorem ReadsAs.lexemes_rebased {p p' : Position} {newline newline' : Bool} {part : Text}
    {lexemes : List Lexeme} {comments : List Comment}
    (h : ReadsAs p newline part lexemes comments newline') (column : p.column = p'.column)
    (after : Text) : (readFrom p' newline (part ++ after)).lexemes =
      lexemes.map (Lexeme.moved (Position.rebased p p')) ++
        (readFrom (p'.past part) newline' after).lexemes := by
  have follows (piece : Text) := Position.rebased_past column piece
  have later (piece : Text) :
      Position.rebased p p' ((p.past part).past piece) = (p'.past part).past piece := by
    rw [← Position.past_append, ← Position.past_append, follows]
  rw [lexemes_moved follows, h.lexemes, List.map_append, lexemes_moved later]

/-- A span between two points of a text. -/
def StandsIn (p : Position) (text : Text) (span : Span) : Prop :=
  ∃ before piece after, text = before ++ piece ++ after ∧
    span = ⟨p.past before, p.past (before ++ piece)⟩

theorem StandsIn.after {p : Position} {first rest : Text} {span : Span}
    (h : StandsIn (p.past first) rest span) : StandsIn p (first ++ rest) span := by
  obtain ⟨before, piece, after, rfl, rfl⟩ := h
  refine ⟨first ++ before, piece, after, by simp only [List.append_assoc], ?_⟩
  rw [List.append_assoc, Position.past_append p first, Position.past_append p first]

/-- A lexeme of a text stands between two points of it. -/
theorem standsIn_of_mem {p : Position} {newline : Bool} {text : Text} {t : Lexeme}
    (member : t ∈ (readFrom p newline text).lexemes) : StandsIn p text t.span := by
  induction p, newline, text using read_induction with
  | nil p newline =>
    obtain rfl := List.mem_singleton.mp member
    exact ⟨[], [], [], rfl, rfl⟩
  | blank p newline c rest nature ih =>
    rw [readFrom_blank nature] at member
    rw [← firstPiece_append_afterPiece]
    exact (ih member).after
  | comment p newline c rest nature ih =>
    rw [readFrom_comment nature] at member
    rw [← firstPiece_append_afterPiece]
    exact (ih member).after
  | lexeme p newline c rest kind nature ih =>
    obtain ⟨u, -, -, uSpan, -, read⟩ := readFrom_lexeme nature p newline
    rw [read] at member
    rw [← firstPiece_append_afterPiece]
    obtain rfl | member := List.mem_cons.mp member
    · exact ⟨[], firstPiece c rest, afterPiece c rest, rfl, uSpan⟩
    · exact (ih member).after

/-- Lexemes stand one after the other. -/
theorem lexemes_pairwise (p : Position) (newline : Bool) (text : Text) :
    (readFrom p newline text).lexemes.Pairwise fun t u => t.span.stop.line ≤ u.span.start.line := by
  induction p, newline, text using read_induction with
  | nil p newline => simp [readFrom_nil]
  | blank p newline c rest nature ih => rwa [readFrom_blank nature]
  | comment p newline c rest nature ih => rwa [readFrom_comment nature]
  | lexeme p newline c rest kind nature ih =>
    obtain ⟨t, -, -, tSpan, -, read⟩ := readFrom_lexeme nature p newline
    rw [read]
    refine List.pairwise_cons.mpr ⟨fun u member => ?_, ih⟩
    obtain ⟨before, piece, after, -, span⟩ := standsIn_of_mem member
    rw [tSpan, span]
    exact Position.line_le_past _ _

end Lexeme

end Prefill.Go
