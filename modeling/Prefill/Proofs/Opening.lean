import Prefill.Proofs.ImportLines
import Prefill.Proofs.Placing

/-!
How files open. A text opens files with some items when every file that starts with it has these
items first and goes on with what its lexemes below the text are read as (`OpensWith`). The lines of
the head of a file are such a text, if nothing else stands on them (`opensWith_head`), and so are
these lines with lines of imports behind them (`OpensWith.imports`).
-/

namespace Prefill.Go

open Text Lexeme

/-! ### Lexemes below a point -/

namespace Lexeme

/-- After a line feed the next lexeme has one before it. -/
theorem exists_flagged (p : Position) (newline : Bool) (text : Text) :
    ∃ t ts, (readFrom p newline text).lexemes = t :: ts ∧
      (newline = true → t.afterNewline = true) := by
  induction p, newline, text using read_induction with
  | nil p newline => exact ⟨_, _, rfl, id⟩
  | blank p newline c rest nature ih =>
    rw [readFrom_blank nature]
    obtain ⟨t, ts, read, flag⟩ := ih
    exact ⟨t, ts, read, fun isTrue => flag (by simp [isTrue])⟩
  | comment p newline c rest nature ih =>
    rw [readFrom_comment nature]
    exact ih
  | lexeme p newline c rest kind nature ih =>
    obtain ⟨t, -, -, -, flag, read⟩ := readFrom_lexeme nature p newline
    rw [read]
    exact ⟨t, _, rfl, fun isTrue => flag.trans isTrue⟩

end Lexeme

/-- The lexemes of what follows on the next line, after the line feed has ended an item. -/
def lexemesBelow (p : Position) (text : Text) : List Lexeme :=
  (readFrom p true text).lexemes.modifyHead Lexeme.inLine

theorem exists_lexemesBelow (p : Position) (text : Text) :
    ∃ t ts, (readFrom p true text).lexemes = t :: ts ∧ t.afterNewline = true ∧
      lexemesBelow p text = t.inLine :: ts := by
  obtain ⟨t, ts, read, flag⟩ := exists_flagged p true text
  exact ⟨t, ts, read, flag rfl, by rw [lexemesBelow, read]; rfl⟩

theorem lexemesBelow_inLine (p : Position) (text : Text) :
    (lexemesBelow p text).map Lexeme.inLine =
      (readFrom p true text).lexemes.map Lexeme.inLine := by
  obtain ⟨t, ts, read, -, below⟩ := exists_lexemesBelow p text
  rw [below, read]
  rfl

/-- The items of what follows on the next line, and whether an error ends them. -/
def readBelow (p : Position) (text : Text) : List Located × Bool :=
  let ts := lexemesBelow p text
  Grammar.items (Grammar.rules ts.length) ts.length ts

/-- The items of what follows on the next line. -/
def itemsBelow (p : Position) (text : Text) : List Located := (readBelow p text).1

/-- Where nothing follows, there is no error. -/
theorem readBelow_nil (p : Position) : readBelow p [] = ([], false) := rfl

/-! ### Texts that open files -/

/-- Every file that starts with the text starts with the items, and what follows is read on its
own. -/
structure OpensWith (front : Text) (first : List Located) : Prop where
  heads : ∀ located ∈ first, located.item.isPreamble = true
  fits : ∀ after, first.length + (lexemesBelow (Position.origin.past front) after).length ≤
    (scan (front ++ after)).lexemes.length
  items : ∀ r fuel after, first.length ≤ fuel →
    Grammar.items r fuel (scan (front ++ after)).lexemes =
      Prod.map (first ++ ·) id (Grammar.items r (fuel - first.length)
        (lexemesBelow (Position.origin.past front) after))

namespace OpensWith

variable {front : Text} {first : List Located} (h : OpensWith front first)
include h

theorem parsed (after : Text) :
    Grammar.items (Grammar.rules (scan (front ++ after)).lexemes.length)
        (scan (front ++ after)).lexemes.length (scan (front ++ after)).lexemes =
      Prod.map (first ++ ·) id (readBelow (Position.origin.past front) after) := by
  have fits := h.fits after
  have below : Grammar.items (Grammar.rules (scan (front ++ after)).lexemes.length)
      ((scan (front ++ after)).lexemes.length - first.length)
      (lexemesBelow (Position.origin.past front) after) =
        readBelow (Position.origin.past front) after :=
    Grammar.items_depth (by omega) (by omega)
  rw [h.items _ _ after (by omega), below]

/-- **The items of a file** that starts with the text. -/
theorem parse (after : Text) : (File.parse (front ++ after)).items =
    first ++ itemsBelow (Position.origin.past front) after :=
  congrArg Prod.fst (h.parsed after)

/-- **The errors of a file** that starts with the text are those of what follows. -/
theorem hasErrors (after : Text) : (File.parse (front ++ after)).hasErrors =
    (readBelow (Position.origin.past front) after).2 := by
  show (Grammar.items _ _ _).2 = _
  rw [h.parsed after]
  rfl

theorem imports_append (after : Text) : (Source.ofText (front ++ after)).imports =
    first.flatMap (·.item.importsOf) ++
      (itemsBelow (Position.origin.past front) after).flatMap (·.item.importsOf) := by
  show (File.parse (front ++ after)).items.flatMap _ = _
  rw [h.parse, List.flatMap_append]

/-- **The text as a file of its own** has no error and imports what its items do. -/
theorem alone : (Source.ofText front).hasErrors = false ∧
    (Source.ofText front).imports = first.flatMap (·.item.importsOf) := by
  have errors := h.hasErrors []
  have imports := h.imports_append []
  rw [List.append_nil, readBelow_nil] at errors
  rw [List.append_nil, itemsBelow, readBelow_nil] at imports
  exact ⟨errors, by simpa using imports⟩

/-- An empty line behind the text. -/
theorem feed : OpensWith (front ++ ['\n']) first := by
  have same (after : Text) : lexemesBelow (Position.origin.past (front ++ ['\n'])) after =
      lexemesBelow (Position.origin.past front) ('\n' :: after) := by
    have read := readsAs_blank (by decide : isBlank '\n' = true) (Position.origin.past front) true after
    rw [Position.past_append, lexemesBelow, lexemesBelow]
    rw [List.singleton_append] at read
    rw [read]
    simp
  refine ⟨h.heads, fun after => ?_, fun r fuel after enough => ?_⟩
  · rw [same, List.append_assoc]
    exact h.fits _
  · rw [same, List.append_assoc]
    exact h.items r fuel _ enough

/-- **Lines of imports** behind the text. -/
theorem imports {specs : List ImportSpec} (writable : ∀ spec ∈ specs, spec.Writable) :
    ∃ added : List Located, (added.flatMap (·.item.importsOf)).map (·.toImportSpec) = specs ∧
      OpensWith (front ++ specs.flatMap ImportSpec.line) (first ++ added) := by
  cases specs with
  | nil => exact ⟨[], rfl, by simpa using h⟩
  | cons spec specs =>
    obtain ⟨t, ts, lexemes, -, reads⟩ :=
      exists_importLexemes writable (Position.origin.past front) true
    obtain ⟨added, size, heads, imports, read⟩ := items_imports lexemes.inLine writable
    have enoughLexemes := lexemes.length_le
    have below (after : Text) : ∃ y ys, y.afterNewline = true ∧
        lexemesBelow (Position.origin.past front)
          ((spec :: specs).flatMap ImportSpec.line ++ after) = t.inLine :: ts ++ y :: ys ∧
        lexemesBelow (Position.origin.past (front ++ (spec :: specs).flatMap ImportSpec.line)) after =
          y.inLine :: ys := by
      rw [Position.past_append]
      obtain ⟨y, ys, read, flag, below⟩ := exists_lexemesBelow
        ((Position.origin.past front).past ((spec :: specs).flatMap ImportSpec.line)) after
      refine ⟨y, ys, flag, ?_, below⟩
      rw [lexemesBelow, reads.lexemes, read]
      rfl
    refine ⟨added, imports, ?_, fun after => ?_, fun r fuel after enough => ?_⟩
    · intro located member
      exact (List.mem_append.mp member).elim (h.heads located) (heads located)
    · obtain ⟨y, ys, -, before, behind⟩ := below after
      have fits := h.fits ((spec :: specs).flatMap ImportSpec.line ++ after)
      rw [before] at fits
      rw [behind, List.append_assoc front]
      simp only [List.length_append, List.length_cons] at fits enoughLexemes size ⊢
      omega
    · obtain ⟨y, ys, flag, before, behind⟩ := below after
      rw [List.length_append] at enough
      have opened := h.items r fuel ((spec :: specs).flatMap ImportSpec.line ++ after) (by omega)
      rw [before, read r _ y ys flag (by omega), ← List.append_assoc front] at opened
      have joined : (first ++ ·) ∘ (added ++ ·) = (first ++ added ++ ·) := by
        funext items
        exact (List.append_assoc first added items).symm
      rw [behind, opened, List.length_append, size, Nat.sub_sub, Prod.map_map, joined,
        Function.comp_id]

end OpensWith

theorem imports_ofText (text : Text) :
    (Source.ofText text).imports = (File.parse text).items.flatMap (·.item.importsOf) := rfl

theorem items_parse (text : Text) : (File.parse text).items =
    (Grammar.items (Grammar.rules (scan text).lexemes.length) (scan text).lexemes.length
      (scan text).lexemes).1 := rfl

theorem hasErrors_parse (text : Text) : (File.parse text).hasErrors =
    (Grammar.items (Grammar.rules (scan text).lexemes.length) (scan text).lexemes.length
      (scan text).lexemes).2 := rfl

/-- Lines of imports at the start of a file, below an empty line. -/
theorem opensWith_imports {spec : ImportSpec} {specs : List ImportSpec}
    (writable : ∀ other ∈ spec :: specs, other.Writable) :
    ∃ added : List Located, (added.flatMap (·.item.importsOf)).map (·.toImportSpec) = spec :: specs ∧
      OpensWith (['\n'] ++ (spec :: specs).flatMap ImportSpec.line) added := by
  obtain ⟨t, ts, lexemes, -, reads⟩ :=
    exists_importLexemes writable (Position.origin.past ['\n']) true
  obtain ⟨added, size, heads, imports, read⟩ := items_imports lexemes writable
  have first := readsAs_blank (by decide : isBlank '\n' = true) Position.origin false
  have joined := first.append reads
  have each := lexemes.length_le
  have scanned (after : Text) : ∃ y ys, y.afterNewline = true ∧
      (scan (['\n'] ++ (spec :: specs).flatMap ImportSpec.line ++ after)).lexemes =
        t :: ts ++ y :: ys ∧
      lexemesBelow (Position.origin.past (['\n'] ++ (spec :: specs).flatMap ImportSpec.line)) after =
        y.inLine :: ys := by
    obtain ⟨y, ys, below, flag, left⟩ := exists_lexemesBelow
      (Position.origin.past (['\n'] ++ (spec :: specs).flatMap ImportSpec.line)) after
    refine ⟨y, ys, flag, ?_, left⟩
    have whole := joined.lexemes after
    rw [below] at whole
    exact whole
  refine ⟨added, imports, heads, fun after => ?_, fun r fuel after enough => ?_⟩
  · obtain ⟨y, ys, -, whole, left⟩ := scanned after
    rw [whole, left]
    simp only [List.length_append, List.length_cons] at each size ⊢
    omega
  · obtain ⟨y, ys, flag, whole, left⟩ := scanned after
    rw [whole, left, read r fuel y ys flag (by omega), size]

/-! ### The head of a file -/

theorem foldl_max {α : Type} (f : α → Nat) (list : List α) (start : Nat) :
    let result := list.foldl (fun last a => max last (f a)) start
    start ≤ result ∧ (∀ a ∈ list, f a ≤ result) ∧ (result = start ∨ ∃ a ∈ list, f a = result) := by
  induction list generalizing start with
  | nil => simp
  | cons a list ih =>
    obtain ⟨above, all, attained⟩ := ih (max start (f a))
    simp only [List.foldl_cons, List.forall_mem_cons] at above all attained ⊢
    refine ⟨by omega, ⟨by omega, all⟩, ?_⟩
    obtain same | ⟨b, there, eq⟩ := attained
    · by_cases le : f a ≤ start
      · exact .inl (same.trans (Nat.max_eq_left le))
      · exact .inr ⟨a, List.mem_cons_self .., by omega⟩
    · exact .inr ⟨b, List.mem_cons_of_mem _ there, eq⟩

theorem stop_le_preambleEnd {text : Text} {located : Located}
    (member : located ∈ (File.parse text).items) (isHead : located.item.isPreamble = true) :
    located.span.stop.line ≤ (Source.ofText text).preambleEnd :=
  (foldl_max (fun located : Located => located.span.stop.line) _ 0).2.1 located
    (List.mem_filter.mpr ⟨member, isHead⟩)

theorem exists_preambleEnd {text : Text} (someHead : 0 < (Source.ofText text).preambleEnd) :
    ∃ located ∈ (File.parse text).items,
      located.span.stop.line = (Source.ofText text).preambleEnd := by
  obtain empty | ⟨located, member, stop⟩ := (foldl_max (fun located : Located =>
    located.span.stop.line) ((File.parse text).items.filter (·.item.isPreamble)) 0).2.2
  · exact absurd empty (Nat.ne_of_gt someHead)
  · exact ⟨located, (List.mem_filter.mp member).1, stop⟩

theorem importsOf_eq_nil {it : Item} (notHead : it.isPreamble = false) : it.importsOf = [] := by
  cases it with
  | imports lines => cases notHead
  | _ => rfl

/-- **The head stands apart:** nothing else starts on its lines, no semicolon stands there, and no
lexeme or comment runs out of them. -/
structure HeadApart (text : Text) : Prop where
  others : ∀ located ∈ (File.parse text).items, located.item.isPreamble = false →
    (Source.ofText text).preambleEnd < located.span.start.line
  noSemicolon : ∀ t ∈ (scan text).lexemes, Parser.isOperator ";" t = true →
    (Source.ofText text).preambleEnd < t.span.start.line
  breaks : (scan text).BreaksAfter (Source.ofText text).preambleEnd

instance (text : Text) : Decidable (HeadApart text) :=
  decidable_of_iff (_ ∧ _ ∧ _) ⟨fun ⟨a, b, c⟩ => ⟨a, b, c⟩, fun ⟨a, b, c⟩ => ⟨a, b, c⟩⟩

/-- The lines of the head, and of what comes before it. -/
def headLines (text : Text) : List Text := (rawLines text).take (Source.ofText text).preambleEnd

/-- What comes below the head. -/
def belowHead (text : Text) : Text :=
  ((rawLines text).drop (Source.ofText text).preambleEnd).flatten

theorem headLines_append_belowHead (text : Text) :
    (headLines text).flatten ++ belowHead text = text := by
  rw [headLines, belowHead, ← List.flatten_append, List.take_append_drop, rawLines_flatten]

theorem rawLines_eq_headLines_append (text : Text) :
    rawLines text = headLines text ++ (rawLines text).drop (Source.ofText text).preambleEnd :=
  (List.take_append_drop ..).symm

theorem line_le_of_mem {p : Position} {newline : Bool} {text : Text} {t : Lexeme}
    (member : t ∈ (readFrom p newline text).lexemes) : p.line ≤ t.span.start.line := by
  obtain ⟨before, piece, after, -, span⟩ := standsIn_of_mem member
  rw [span]
  exact Position.line_le_past _ _

theorem line_le_of_mem_itemsBelow {p : Position} {text : Text} {located : Located}
    (member : located ∈ itemsBelow p text) : p.line ≤ located.span.stop.line := by
  have covers := Grammar.items_cover (lexemesBelow p text).length (lexemesBelow p text).length
    (lexemesBelow p text)
  rw [lexemesBelow_inLine] at covers
  obtain ⟨_, inLine, u, -, -, span, le⟩ :=
    covers.exists_ends (inOrder_readFrom p true text).inLine member
  obtain ⟨t, inText, rfl⟩ := List.mem_map.mp inLine
  have start := line_le_of_mem inText
  rw [span]
  exact Nat.le_trans start le

/-- A file without a head imports nothing. -/
theorem imports_of_no_head {text : Text} (noHead : (Source.ofText text).preambleEnd = 0) :
    (Source.ofText text).imports = [] := by
  rw [imports_ofText, List.flatMap_eq_nil_iff]
  intro located member
  apply importsOf_eq_nil
  by_contra isHead
  have stop := stop_le_preambleEnd member (by simpa using isHead)
  obtain ⟨_, inLine, u, -, -, span, ordered⟩ :=
    (items_cover_scan text).exists_ends (inOrder_scan text).inLine member
  obtain ⟨t, inText, rfl⟩ := List.mem_map.mp inLine
  obtain ⟨mark, body, -, -, scanned⟩ := exists_scan text
  rw [scanned] at inText
  have first : 1 ≤ (Position.origin.past mark).line := Position.line_le_past Position.origin mark
  have start := line_le_of_mem inText
  have same : t.inLine.span = t.span := rfl
  rw [span] at stop
  rw [same] at ordered
  dsimp only at stop
  omega

section

variable {text : Text} (later : ∃ located ∈ (File.parse text).items,
  (Source.ofText text).preambleEnd < located.span.start.line)
include later

theorem preambleEnd_lt_length : (Source.ofText text).preambleEnd < (rawLines text).length := by
  obtain ⟨located, member, after⟩ := later
  obtain ⟨line, found, -, -⟩ := exists_line_of_item member
  have inside := (List.getElem?_eq_some_iff.mp found).1
  omega

theorem headLines_ended : (headLines text).length = (Source.ofText text).preambleEnd ∧
    ∀ line ∈ headLines text, Ended line := by
  have fewer := preambleEnd_lt_length later
  refine ⟨?_, (lined_rawLines text).ended_take fewer⟩
  rw [headLines, List.length_take]
  omega

theorem past_headLines : (Position.origin.past (headLines text).flatten).line =
    (Source.ofText text).preambleEnd + 1 := by
  obtain ⟨size, ended⟩ := headLines_ended later
  rw [Position.past_line, count_flatten ended, size, Nat.add_comm]
  rfl

/-- Lexemes below the head stop there. -/
theorem preambleEnd_lt_stop {u : Lexeme}
    (member : u ∈ (readFrom (Position.origin.past (headLines text).flatten) true
      (belowHead text)).lexemes) : (Source.ofText text).preambleEnd < u.span.stop.line := by
  have below := past_headLines later
  have start := line_le_of_mem member
  have stop := (inOrder_readFrom _ _ _).within u member
  omega

/-- A file imports what its head does. -/
theorem imports_of_opensWith {first : List Located}
    (opens : OpensWith (headLines text).flatten first) :
    (Source.ofText text).imports = first.flatMap (·.item.importsOf) := by
  have below := past_headLines later
  have parsed := opens.parse (belowHead text)
  rw [headLines_append_belowHead] at parsed
  have others : (itemsBelow (Position.origin.past (headLines text).flatten)
      (belowHead text)).flatMap (·.item.importsOf) = [] := by
    rw [List.flatMap_eq_nil_iff]
    intro located member
    have past := line_le_of_mem_itemsBelow member
    apply importsOf_eq_nil
    by_contra isHead
    have stop := stop_le_preambleEnd (by rw [parsed]; exact List.mem_append_right _ member)
      (by simpa using isHead)
    omega
  rw [imports_ofText, parsed, List.flatMap_append, others, List.append_nil]

variable (apart : HeadApart text) (someHead : 0 < (Source.ofText text).preambleEnd)
include apart someHead

/-- The lines of a head that stands apart are read in the same way whatever follows them. -/
theorem HeadApart.exists_lexemes :
    ∃ ts, (∀ t ∈ ts, t.span.start.line ≤ (Source.ofText text).preambleEnd) ∧
      ∀ after, (scan ((headLines text).flatten ++ after)).lexemes =
        ts ++ (readFrom (Position.origin.past (headLines text).flatten) true after).lexemes := by
  obtain ⟨size, ended⟩ := headLines_ended later
  have below := past_headLines later
  have someLines : headLines text ≠ [] := List.ne_nil_of_length_pos (by omega)
  have last := getLast?_flatten ended someLines
  have someFront : (headLines text).flatten ≠ [] := by
    intro empty
    rw [empty] at last
    cases last
  obtain ⟨mark, body, split, noFeed, read⟩ := scan_append someFront
  have bodyLast : body.getLast? = some '\n' := by
    have inside : '\n' ∈ mark ++ body := List.mem_of_getLast? (split ▸ last)
    have someBody : body ≠ [] := by
      rintro rfl
      exact noFeed (by simpa using inside)
    obtain ⟨c, isLast⟩ := Option.isSome_iff_exists.mp (List.getLast?_isSome.mpr someBody)
    rw [split, List.getLast?_append, isLast] at last
    rw [isLast]
    exact last
  have position : (Position.origin.past mark).past body =
      Position.origin.past (headLines text).flatten := by
    rw [← Position.past_append, split]
  have breaks : (readFrom (Position.origin.past mark) false (body ++ belowHead text)).BreaksAfter
      (((Position.origin.past mark).past body).line - 1) := by
    rw [← read, headLines_append_belowHead, position, below]
    exact apart.breaks
  obtain ⟨ts, comments, reads, bounds⟩ := exists_readsAs bodyLast breaks
  rw [position] at bounds
  refine ⟨ts, fun t member => ?_, fun after => ?_⟩
  · have above := (bounds t member).1
    omega
  · rw [read, reads.lexemes, position]

/-- There are such lexemes, and none of them is a semicolon. -/
theorem HeadApart.exists_head :
    ∃ t head, (∀ u ∈ t :: head, u.span.start.line ≤ (Source.ofText text).preambleEnd) ∧
      (∀ u ∈ t :: head, Parser.isOperator ";" u = false) ∧
      ∀ after, (scan ((headLines text).flatten ++ after)).lexemes = t :: head ++
        (readFrom (Position.origin.past (headLines text).flatten) true after).lexemes := by
  obtain ⟨ts, above, lexemes⟩ := apart.exists_lexemes later someHead
  have scanned := lexemes (belowHead text)
  rw [headLines_append_belowHead] at scanned
  cases ts with
  | nil =>
    -- Some item of the head stops on its last line, so a lexeme does.
    obtain ⟨located, member, stop⟩ := exists_preambleEnd someHead
    obtain ⟨_, -, _, inLine, -, span, -⟩ :=
      (items_cover_scan text).exists_ends (inOrder_scan text).inLine member
    obtain ⟨u, inText, rfl⟩ := List.mem_map.mp inLine
    rw [scanned] at inText
    have past := preambleEnd_lt_stop later inText
    rw [span] at stop
    exact absurd stop (Nat.ne_of_gt past)
  | cons t head =>
    refine ⟨t, head, above, ?_, lexemes⟩
    intro u member
    by_contra isSemicolon
    have inText : u ∈ (scan text).lexemes := by
      rw [scanned]
      exact List.mem_append_left _ member
    have past := apart.noSemicolon u inText (by simpa using isSemicolon)
    have here := above u member
    omega

/-- **The head opens the file:** whatever follows its lines, they are read as its items. -/
theorem opensWith_head : ∃ first, OpensWith (headLines text).flatten first ∧
    (Source.ofText text).imports = first.flatMap (·.item.importsOf) := by
  obtain ⟨t, head, above, noSemicolon, lexemes⟩ := apart.exists_head later someHead
  have readBelow (after : Text) :=
    exists_lexemesBelow (Position.origin.past (headLines text).flatten) after
  obtain ⟨z, zs, read, -, -⟩ := readBelow (belowHead text)
  have scanned := lexemes (belowHead text)
  rw [headLines_append_belowHead, read] at scanned
  have items : (Grammar.items (Grammar.rules (scan text).lexemes.length)
      (scan text).lexemes.length (t :: head ++ z :: zs)).1 = (File.parse text).items := by
    rw [items_parse, scanned]
  obtain ⟨first, heads, few, opened⟩ := Grammar.items_head above noSemicolon
    (fun u member => preambleEnd_lt_stop later (read ▸ member))
    (by
      rw [items]
      exact fun located member isHead => stop_le_preambleEnd member isHead)
    (by
      rw [items]
      exact apart.others)
    (by
      rw [items]
      exact later)
  have opens : OpensWith (headLines text).flatten first := by
    refine ⟨heads, fun after => ?_, fun r fuel after enough => ?_⟩
    · obtain ⟨y, ys, read, -, below⟩ := readBelow after
      rw [below, lexemes, read]
      simp only [List.length_append, List.length_cons]
      omega
    · obtain ⟨y, ys, read, flag, below⟩ := readBelow after
      rw [below, lexemes, read]
      exact opened r fuel y ys flag enough
  exact ⟨first, opens, imports_of_opensWith later opens⟩

/-- **Imports below the head** are imported after those of the head. -/
theorem opensWith_imports_below_head {specs : List ImportSpec}
    (writable : ∀ spec ∈ specs, spec.Writable) {space : Text} (empty : space = [] ∨ space = ['\n']) :
    ∃ first added : List Located,
      OpensWith ((headLines text).flatten ++ (space ++ specs.flatMap ImportSpec.line))
        (first ++ added) ∧
      (Source.ofText text).imports = first.flatMap (·.item.importsOf) ∧
      (added.flatMap (·.item.importsOf)).map (·.toImportSpec) = specs := by
  obtain ⟨first, opens, imported⟩ := opensWith_head later apart someHead
  have spaced : OpensWith ((headLines text).flatten ++ space) first := by
    obtain rfl | rfl := empty
    · rwa [List.append_nil]
    · exact opens.feed
  obtain ⟨added, imports, opens⟩ := spaced.imports writable
  rw [List.append_assoc] at opens
  exact ⟨first, added, opens, imported, imports⟩

end

end Prefill.Go
