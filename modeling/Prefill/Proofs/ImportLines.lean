import Prefill.Proofs.Comments
import Prefill.Proofs.Lines
import Prefill.Proofs.Preamble
import Prefill.Proofs.Scanning

/-!
Imports that are written are read back. An import whose path is shown as it is, and whose name is an
identifier, is written on a line of its own; these lines have the lexemes one expects
(`exists_importLexemes`), and between the head of a file and whatever follows they add their imports
to the items (`items_imports`). The imports that are read from a file are of this form, as far as
their names go (`written_of_import`).
-/

namespace Prefill

open Text

namespace Text

theorem isIdentifierStart_of_blank : ∀ code ∈ [9, 10, 11, 12, 13, 32, 0x85, 0xa0, 0x1680, 0x2000,
    0x2001, 0x2002, 0x2003, 0x2004, 0x2005, 0x2006, 0x2007, 0x2008, 0x2009, 0x200a, 0x2028, 0x2029,
    0x202f, 0x205f, 0x3000], isIdentifierStart (Char.ofNat code) = false := by
  decide +kernel

theorem isBlank_eq_false {c : Char} (h : isIdentifierStart c = true) : isBlank c = false := by
  by_contra blank
  have blank : isBlank c = true := by simpa using blank
  have code : c.toNat ∈ [9, 10, 11, 12, 13, 32, 0x85, 0xa0, 0x1680, 0x2000, 0x2001, 0x2002, 0x2003,
      0x2004, 0x2005, 0x2006, 0x2007, 0x2008, 0x2009, 0x200a, 0x2028, 0x2029, 0x202f, 0x205f,
      0x3000] := by
    simp only [isBlank, Ranges.has, List.any_cons, List.any_nil, Bool.or_false, Bool.or_eq_true,
      Bool.and_eq_true, beq_iff_eq, decide_eq_true_eq] at blank
    have tab : '\t' ≤ c ↔ 9 ≤ c.toNat := Iff.rfl
    have feed : c ≤ '\r' ↔ c.toNat ≤ 13 := Iff.rfl
    rw [tab, feed] at blank
    simp only [List.mem_cons, List.not_mem_nil, or_false]
    obtain (rfl | ascii) | wide := blank
    · decide
    · omega
    · omega
  have notStart := isIdentifierStart_of_blank c.toNat code
  rw [Char.ofNat_toNat] at notStart
  rw [notStart] at h
  cases h

end Text

namespace Go

namespace Lexeme

/-! ### Words and strings -/

section

variable {c : Char} {rest : Text} {kind : Kind}

/-- A piece that is the same whatever follows some text behind it. -/
theorem exists_lexeme (tail : Text) (reads : ∀ after, front c (rest ++ (tail ++ after)) =
    (.lexeme kind, rest.length + 1)) (p : Position) (newline : Bool) :
    ∃ t : Lexeme, t.kind = kind ∧ t.text = c :: rest ∧ t.span = ⟨p, p.past (c :: rest)⟩ ∧
      t.afterNewline = newline ∧ ∀ after, readFrom p newline (c :: rest ++ (tail ++ after)) =
        let stream := readFrom (p.past (c :: rest)) false (tail ++ after)
        ⟨t :: stream.lexemes, stream.comments⟩ := by
  have piece (after : Text) : firstPiece c (rest ++ (tail ++ after)) = c :: rest := by
    rw [firstPiece, reads, Nat.add_sub_cancel, List.take_left]
  have left (after : Text) : afterPiece c (rest ++ (tail ++ after)) = tail ++ after := by
    rw [afterPiece, reads, Nat.add_sub_cancel, List.drop_left]
  have step (after : Text) := readFrom_lexeme (by rw [reads after]) p newline
  obtain ⟨t, tKind, tText, tSpan, tNewline, -⟩ := step []
  rw [piece] at tText tSpan
  refine ⟨t, tKind, tText, tSpan, tNewline, fun after => ?_⟩
  obtain ⟨u, uKind, uText, uSpan, uNewline, read⟩ := step after
  rw [piece] at uText uSpan
  obtain rfl : u = t := eq_of_parts (uKind.trans tKind.symm) (uText.trans tText.symm)
    (uSpan.trans tSpan.symm) (uNewline.trans tNewline.symm)
  rw [List.cons_append, read, piece, left]

end

theorem front_identifier {c : Char} {rest : Text} (isName : isIdentifier (c :: rest) = true)
    {next : Char} (ends : isIdentifierPart next = false) (after : Text) :
    front c (rest ++ next :: after) = (.lexeme .word, rest.length + 1) := by
  simp only [isIdentifier, Bool.and_eq_true, List.all_eq_true] at isName
  obtain ⟨start, parts⟩ := isName
  have notSlash : c ≠ '/' := by
    rintro rfl
    exact absurd start (by decide)
  have noComment : blockComment? c (rest ++ next :: after) = none := if_neg notSlash
  have read : (rest ++ next :: after).takeWhile isIdentifierPart = rest := by
    rw [List.takeWhile_append_of_pos parts]
    simp [ends]
  rw [front, if_neg (by simp [isBlank_eq_false start]), if_neg (by simp [notSlash]), noComment]
  simp only [lexemeFront, start, if_true, read, Nat.add_comm]

/-- A word with a blank behind it that does not end the line. -/
theorem exists_readsAs_word {word : Text} (isName : isIdentifier word = true) {blank : Char}
    (isBlank : Text.isBlank blank = true) (notFeed : blank ≠ '\n')
    (ends : isIdentifierPart blank = false) (p : Position) (newline : Bool) :
    ∃ t : Lexeme, t.kind = .word ∧ t.text = word ∧ t.afterNewline = newline ∧
      ReadsAs p newline (word ++ [blank]) [t] [] false := by
  cases word with
  | nil => cases isName
  | cons c rest =>
    obtain ⟨t, kind, text, -, flag, reads⟩ := exists_lexeme [blank]
      (fun after => front_identifier isName ends after) p newline
    refine ⟨t, kind, text, flag, fun after => ?_⟩
    rw [List.append_assoc, reads]
    have rest := readsAs_blank isBlank (p.past (c :: rest)) false after
    rw [rest, Position.past_append]
    simp [notFeed]

theorem stringLength?_plain {text : Text} (plain : ∀ c ∈ text, shown c = [c]) (rest : Text) :
    stringLength? (text ++ '"' :: rest) = some (text.length + 1) := by
  induction text with
  | nil => rfl
  | cons c text ih =>
    rw [List.forall_mem_cons] at plain
    have notQuote : c ≠ '"' := by
      rintro rfl
      exact absurd plain.1 (by decide)
    have notFeed : c ≠ '\n' := by
      rintro rfl
      exact absurd plain.1 (by decide)
    have notEscape : c ≠ '\\' := by
      rintro rfl
      exact absurd plain.1 (by decide)
    rw [List.cons_append, stringLength?, ih plain.2]
    · rfl
    · exact notQuote
    · exact notFeed
    · exact fun _ _ escape => absurd escape notEscape

theorem flatMap_shown {text : Text} (plain : ∀ c ∈ text, shown c = [c]) :
    text.flatMap shown = text := by
  induction text with
  | nil => rfl
  | cons c text ih =>
    rw [List.forall_mem_cons] at plain
    rw [List.flatMap_cons, plain.1, ih plain.2]
    rfl

/-- A text in quotes that is shown as it is. -/
theorem exists_readsAs_string {text : Text} (plain : ∀ c ∈ text, shown c = [c]) (p : Position)
    (newline : Bool) :
    ∃ t : Lexeme, t.kind = .string ∧ t.text = inQuotes text ∧ t.afterNewline = newline ∧
      ReadsAs p newline (inQuotes text) [t] [] false := by
  have reads (after : Text) : front '"' (text.flatMap shown ++ ['"'] ++ ([] ++ after)) =
      (.lexeme .string, (text.flatMap shown ++ ['"']).length + 1) := by
    have size := stringLength?_plain plain after
    have noComment (rest : Text) : blockComment? '"' rest = none := if_neg (by decide)
    have notWord : isIdentifierStart '"' = false := by decide
    have notDigit : isAsciiDigit '"' = false := by decide
    rw [front, if_neg (by decide), if_neg (by simp), noComment, flatMap_shown plain]
    simp [lexemeFront, notWord, notDigit, size, Nat.add_comm]
  obtain ⟨t, kind, said, -, flag, read⟩ := exists_lexeme [] reads p newline
  exact ⟨t, kind, said, flag, read⟩

end Lexeme

/-! ### Imports that can be written -/

/-- The quotes around an import path. -/
def isQuote (c : Char) : Bool := c = '"' || c = '`'

/-- A path that neither begins nor ends with a quote. -/
def Unquoted (path : Text) : Prop :=
  (∃ c, path.head? = some c ∧ isQuote c = false) ∧ ∃ c, path.getLast? = some c ∧ isQuote c = false

/-- A literal without the quotes at its ends. -/
def unquote (literal : Text) : Text :=
  ((literal.dropWhile isQuote).reverse.dropWhile isQuote).reverse

theorem import?_eq (line : ImportLine) : line.import? =
    if (unquote line.literal).isEmpty then none
    else some ⟨⟨line.label, unquote line.literal⟩, line.span⟩ := rfl

theorem unquoted_unquote {literal : Text} (h : unquote literal ≠ []) :
    Unquoted (unquote literal) := by
  unfold unquote at h ⊢
  have first := List.head?_dropWhile_not isQuote literal
  have last := List.head?_dropWhile_not isQuote (literal.dropWhile isQuote).reverse
  have within : (literal.dropWhile isQuote).reverse.dropWhile isQuote <:+
      (literal.dropWhile isQuote).reverse := List.dropWhile_suffix _
  generalize literal.dropWhile isQuote = opened at *
  generalize opened.reverse.dropWhile isQuote = path at *
  obtain ⟨c, path, rfl⟩ := List.exists_cons_of_ne_nil (by simpa using h)
  obtain ⟨front, whole⟩ := within
  obtain ⟨d, isLast⟩ := Option.isSome_iff_exists.mp
    (List.getLast?_isSome.mpr (List.cons_ne_nil c path))
  have same : opened.head? = some d := by
    rw [← List.getLast?_reverse, ← whole, List.getLast?_append, isLast]
    rfl
  rw [Unquoted, List.head?_reverse, List.getLast?_reverse]
  exact ⟨⟨d, isLast, by simpa [same] using first⟩, c, rfl, by simpa using last⟩

theorem unquote_inQuotes {path : Text} (plain : ∀ c ∈ path, shown c = [c]) (h : Unquoted path) :
    unquote (inQuotes path) = path := by
  obtain ⟨⟨first, isFirst, notQuote⟩, last, isLast, notQuote'⟩ := h
  have quote : isQuote '"' = true := by decide
  have opened : (inQuotes path).dropWhile isQuote = path ++ ['"'] := by
    rw [inQuotes, Lexeme.flatMap_shown plain, List.dropWhile_cons_of_pos quote]
    cases path with
    | nil => cases isFirst
    | cons c rest =>
      obtain rfl : c = first := by simpa using isFirst
      rw [List.cons_append, List.dropWhile_cons_of_neg (by simp [notQuote])]
  have closed : (path ++ ['"']).reverse.dropWhile isQuote = path.reverse := by
    rw [List.reverse_append, List.reverse_singleton, List.singleton_append,
      List.dropWhile_cons_of_pos quote]
    rw [← List.head?_reverse] at isLast
    cases backward : path.reverse with
    | nil => simp [backward] at isLast
    | cons c rest =>
      obtain rfl : c = last := by simpa [backward] using isLast
      rw [List.dropWhile_cons_of_neg (by simp [notQuote'])]
  rw [unquote, opened, closed, List.reverse_reverse]

namespace ImportSpec

/-- An import that reads back from the line it is written on. -/
structure Writable (spec : ImportSpec) : Prop where
  name : ∀ label, spec.label = some label → isIdentifier label = true
  plain : ∀ c ∈ spec.path, shown c = [c]
  unquoted : Unquoted spec.path

/-- The line that holds the import. -/
def line (spec : ImportSpec) : Text := "import ".toList ++ spec.render ++ ['\n']

end ImportSpec

theorem import?_of_writable {spec : ImportSpec} (h : spec.Writable) (span : Span) :
    ImportLine.import? ⟨spec.label, inQuotes spec.path, span⟩ = some ⟨spec, span⟩ := by
  have somePath : spec.path ≠ [] := by
    obtain ⟨⟨first, isFirst, -⟩, -⟩ := h.unquoted
    intro noneThere
    simp [noneThere] at isFirst
  rw [import?_eq]
  simp [unquote_inQuotes h.plain h.unquoted, somePath]

/-! ### Lines of imports -/

theorem feed_not_mem_of_isIdentifier {word : Text} (h : isIdentifier word = true) : '\n' ∉ word := by
  have notPart : isIdentifierPart '\n' = false := by decide +kernel
  have notStart : isIdentifierStart '\n' = false := by decide +kernel
  cases word with
  | nil => cases h
  | cons c rest =>
    simp only [isIdentifier, Bool.and_eq_true, List.all_eq_true] at h
    intro feeds
    obtain rfl | inRest := List.mem_cons.mp feeds
    · rw [notStart] at h
      cases h.1
    · have part := h.2 _ inRest
      rw [notPart] at part
      cases part

namespace ImportSpec

theorem Writable.ended_line {spec : ImportSpec} (h : spec.Writable) : Ended spec.line := by
  have quoted : '\n' ∉ inQuotes spec.path := by
    have inPath : '\n' ∉ spec.path := fun feeds => absurd (h.plain _ feeds) (by decide)
    simp [inQuotes, Lexeme.flatMap_shown h.plain, inPath]
  have lead : '\n' ∉ "import ".toList := by decide
  unfold line
  generalize "import ".toList = word at lead
  refine ⟨word ++ spec.render, ?_, rfl⟩
  unfold render
  cases named : spec.label with
  | none => simp [lead, quoted]
  | some label => simp [lead, quoted, feed_not_mem_of_isIdentifier (h.name label named)]

/-- A line with an import is code. -/
theorem plain_line (spec : ImportSpec) : Marker.Plain spec.line := by
  have lead : "import ".toList = 'i' :: "mport ".toList := by decide
  have notBlank : isBlank 'i' = false := by decide
  unfold line
  rw [lead, List.append_assoc, List.cons_append]
  refine Marker.plain_of_not_isComment (by simp [blank, notBlank]) ?_
  rw [Marker.isComment_iff, trimStart, List.dropWhile_cons_of_neg (by simp [notBlank])]
  rintro ⟨tail, shown⟩
  exact absurd (List.cons.inj shown).1 (by decide)

end ImportSpec

open Prefill.Go.Parser

/-- The lexemes of an import that stands on a line of its own. -/
inductive LineLexemes : ImportSpec → List Lexeme → Prop where
  | unnamed {path : Text} {t q : Lexeme} (keyword : isWord "import" t = true)
      (kind : q.kind = .string) (text : q.text = inQuotes path) : LineLexemes ⟨none, path⟩ [t, q]
  | named {label path : Text} {t l q : Lexeme} (keyword : isWord "import" t = true)
      (isName : l.kind = .word) (name : l.text = label) (kind : q.kind = .string)
      (text : q.text = inQuotes path) : LineLexemes ⟨some label, path⟩ [t, l, q]

/-- The lexemes of imports on lines of their own. -/
inductive ImportLexemes : List ImportSpec → List Lexeme → Prop where
  | last {spec : ImportSpec} {ts : List Lexeme} (line : LineLexemes spec ts) :
      ImportLexemes [spec] ts
  | cons {spec : ImportSpec} {specs : List ImportSpec} {u : Lexeme} {ts us : List Lexeme}
      (line : LineLexemes spec ts) (newline : u.afterNewline = true)
      (rest : ImportLexemes specs (u :: us)) : ImportLexemes (spec :: specs) (ts ++ u :: us)

theorem importLine_unnamed {q : Lexeme} (kind : q.kind = .string) (rest : List Lexeme) :
    Grammar.importLine (q :: rest) = some (⟨none, q.text, taken (q :: rest) rest⟩, rest) := by
  have notPoint : isOperator "." q = false := by simp [isOperator, kind]
  have unnamed : possibly Grammar.importName (q :: rest) = some (none, q :: rest) := by
    simp [possibly, Grammar.importName_cons, kind, notPoint]
  have read : (do
      let label ← possibly Grammar.importName
      let path ← accept fun t => t.kind = .string
      return (label, path.text) : Parser (Option Text × Text)) (q :: rest) =
        some ((none, q.text), rest) := by
    show (possibly Grammar.importName (q :: rest)).bind _ = _
    rw [unnamed]
    simp [accept, kind, bind_apply, pure_apply]
  show (placed _ (q :: rest)).bind _ = _
  rw [placed, read]
  rfl

theorem importLine_named {l q : Lexeme} (isName : l.kind = .word) (kind : q.kind = .string)
    (rest : List Lexeme) : Grammar.importLine (l :: q :: rest) =
      some (⟨some l.text, q.text, taken (l :: q :: rest) rest⟩, rest) := by
  have named : possibly Grammar.importName (l :: q :: rest) = some (some l.text, q :: rest) := by
    simp [possibly, Grammar.importName_cons, isName]
  have read : (do
      let label ← possibly Grammar.importName
      let path ← accept fun t => t.kind = .string
      return (label, path.text) : Parser (Option Text × Text)) (l :: q :: rest) =
        some ((some l.text, q.text), rest) := by
    show (possibly Grammar.importName (l :: q :: rest)).bind _ = _
    rw [named]
    simp [accept, kind, bind_apply, pure_apply]
  show (placed _ (l :: q :: rest)).bind _ = _
  rw [placed, read]
  rfl

theorem said_of_isWord {word : String} {t : Lexeme} (h : isWord word t = true) :
    t.kind = .word ∧ t.text = word.toList := by
  simpa [isWord] using h

/-- A line that starts with the keyword and goes on with no parenthesis holds one import. -/
theorem item_import {t u : Lexeme} {rest after : List Lexeme} {line : ImportLine}
    (keyword : isWord "import" t = true) (single : isOperator "(" u = false)
    (read : Grammar.importLine (u :: rest) = some (line, after)) (r : Rules) :
    Grammar.item r (t :: u :: rest) = some (.imports [line], after) := by
  have notPackage : isWord "package" t = false := by simp [isWord, (said_of_isWord keyword).2]
  have step : Grammar.item r (t :: u :: rest) = Grammar.importDeclaration (t :: u :: rest) := by
    show (if isWord "package" t then _ else if isWord "import" t then _ else _ : Parser Item) _ = _
    rw [if_neg (by simp [notPackage]), if_pos keyword]
  have taken : Parser.keyword "import" (t :: u :: rest) = some ((), u :: rest) := by
    simp [Parser.keyword, accept, keyword, bind_apply, pure_apply]
  have unseen : seesOperator "(" (u :: rest) = some (false, u :: rest) := by
    simp [seesOperator, sees, Parser.peek, single, bind_apply, pure_apply]
  rw [step, Grammar.importDeclaration]
  simp [-bind_pure_comp, bind_apply, pure_apply, taken, unseen, read]

/-- **An import is read** from the lexemes of its line. -/
theorem locatedItem_import {spec : ImportSpec} {ts : List Lexeme} (h : LineLexemes spec ts) :
    ∃ located span, located.item = .imports [⟨spec.label, inQuotes spec.path, span⟩] ∧
      (∃ t rest, ts = t :: rest ∧ t.kind ≠ .finish) ∧
      ∀ r after, Grammar.locatedItem r (ts ++ after) = some (located, after) := by
  obtain ⟨⟨t, rest, rfl, notEnd⟩, span, read⟩ : (∃ t rest, ts = t :: rest ∧ t.kind ≠ .finish) ∧
      ∃ span, Grammar.item .nothing ts =
        some (.imports [⟨spec.label, inQuotes spec.path, span⟩], []) := by
    cases h with
    | unnamed keyword kind text =>
      have isName := (said_of_isWord keyword).1
      have read := item_import keyword (by simp [isOperator, kind]) (importLine_unnamed kind [])
        .nothing
      rw [text] at read
      exact ⟨⟨_, _, rfl, by simp [isName]⟩, _, read⟩
    | named keyword isName name kind text =>
      have said := (said_of_isWord keyword).1
      have read := item_import keyword (by simp [isOperator, isName])
        (importLine_named isName kind []) .nothing
      rw [text, name] at read
      exact ⟨⟨_, _, rfl, by simp [said]⟩, _, read⟩
  have located : Grammar.locatedItem .nothing (t :: rest) =
      some (⟨.imports [⟨spec.label, inQuotes spec.path, span⟩], taken (t :: rest) []⟩, []) := by
    show (placed _ _).bind _ = _
    rw [placed, read]
    rfl
  obtain ⟨u, front, whole, -, again⟩ := Grammar.local_locatedItem located rfl
  rw [List.append_nil] at whole
  rw [← whole] at again
  exact ⟨_, span, rfl, ⟨t, rest, rfl, notEnd⟩, again⟩

/-- The first lexeme is read in the same way with or without a line feed before it. -/
theorem LineLexemes.inLine {spec : ImportSpec} {t : Lexeme} {ts : List Lexeme}
    (h : LineLexemes spec (t :: ts)) : LineLexemes spec (t.inLine :: ts) := by
  cases h with
  | unnamed keyword kind text => exact .unnamed keyword kind text
  | named keyword isName name kind text => exact .named keyword isName name kind text

theorem LineLexemes.ne_nil {spec : ImportSpec} {ts : List Lexeme} (h : LineLexemes spec ts) :
    ts ≠ [] := by
  cases h <;> simp

/-- Each import has a lexeme of its own. -/
theorem ImportLexemes.length_le {specs : List ImportSpec} {ts : List Lexeme}
    (h : ImportLexemes specs ts) : specs.length ≤ ts.length := by
  induction h with
  | last line => exact List.length_pos_iff.mpr line.ne_nil
  | cons line newline rest ih =>
    have someHere := List.length_pos_iff.mpr line.ne_nil
    simp only [List.length_cons, List.length_append] at ih ⊢
    omega

theorem ImportLexemes.inLine {specs : List ImportSpec} {t : Lexeme} {ts : List Lexeme}
    (h : ImportLexemes specs (t :: ts)) : ImportLexemes specs (t.inLine :: ts) := by
  generalize whole : t :: ts = all at h
  cases h with
  | last line =>
    subst whole
    exact .last line.inLine
  | cons line newline rest =>
    rename_i front _
    cases front with
    | nil => exact absurd rfl line.ne_nil
    | cons u front =>
      obtain ⟨rfl, rfl⟩ := by simpa using whole
      exact .cons line.inLine newline rest

/-- **Imports are read** from the lexemes of their lines, whatever follows on the next line. -/
theorem items_imports {specs : List ImportSpec} {ts : List Lexeme} (h : ImportLexemes specs ts)
    (writable : ∀ spec ∈ specs, spec.Writable) :
    ∃ added : List Located, added.length = specs.length ∧
      (∀ located ∈ added, located.item.isPreamble = true) ∧
      (added.flatMap (·.item.importsOf)).map (·.toImportSpec) = specs ∧
      ∀ r fuel y ys, y.afterNewline = true → specs.length ≤ fuel →
        Grammar.items r fuel (ts ++ y :: ys) =
          Prod.map (added ++ ·) id (Grammar.items r (fuel - specs.length) (y.inLine :: ys)) := by
  induction specs generalizing ts with
  | nil => cases h
  | cons spec specs ih =>
    have first {front : List Lexeme} (line : LineLexemes spec front) :
        ∃ located : Located, located.item.isPreamble = true ∧
          located.item.importsOf.map (·.toImportSpec) = [spec] ∧
          ∀ r fuel y ys, y.afterNewline = true →
            Grammar.items r (fuel + 1) (front ++ y :: ys) =
              Prod.map (located :: ·) id (Grammar.items r fuel (y.inLine :: ys)) := by
      obtain ⟨located, span, isImports, ⟨t, rest, rfl, more⟩, read⟩ := locatedItem_import line
      have imports := import?_of_writable (writable spec (List.mem_cons_self ..)) span
      refine ⟨located, by rw [isImports]; rfl, by simp [isImports, Item.importsOf, imports], ?_⟩
      intro r fuel y ys newline
      exact Grammar.items_cons more (read r (y :: ys)) (terminator_of_afterNewline newline ys)
    cases h with
    | last line =>
      obtain ⟨located, isHead, imports, read⟩ := first line
      refine ⟨[located], rfl, by simpa using isHead, by simpa using imports, ?_⟩
      intro r fuel y ys newline enough
      obtain ⟨fuel, rfl⟩ := Nat.exists_eq_add_of_le' enough
      exact read r fuel y ys newline
    | @cons _ _ u front us line newline' rest =>
      obtain ⟨located, isHead, imports, read⟩ := first line
      obtain ⟨added, size, heads, more, reads⟩ := ih rest.inLine fun spec member =>
        writable spec (List.mem_cons_of_mem _ member)
      refine ⟨located :: added, by simp [size], List.forall_mem_cons.mpr ⟨isHead, heads⟩, ?_, ?_⟩
      · simp [imports, more]
      · intro r fuel y ys newline enough
        obtain ⟨fuel, rfl⟩ := Nat.exists_eq_add_of_le' (Nat.le_trans
          (Nat.le_add_left 1 specs.length) enough)
        simp only [List.length_cons, Nat.add_le_add_iff_right] at enough
        have step := read r fuel u (us ++ y :: ys) newline'
        have next := reads r fuel y ys newline enough
        rw [List.cons_append] at next
        rw [next, Prod.map_map] at step
        rw [List.append_assoc, List.cons_append, step, List.length_cons, Nat.add_sub_add_right]
        rfl

/-! ### Reading lines of imports -/

namespace Lexeme

theorem exists_lineLexemes {spec : ImportSpec} (h : spec.Writable) (p : Position) (newline : Bool) :
    ∃ t ts, LineLexemes spec (t :: ts) ∧ t.afterNewline = newline ∧
      ReadsAs p newline spec.line (t :: ts) [] true := by
  have blank : isBlank ' ' = true := by decide
  have notFeed : ' ' ≠ '\n' := by decide
  have space : isIdentifierPart ' ' = false := by decide +kernel
  have isName : isIdentifier "import".toList = true := by decide +kernel
  obtain ⟨t, tKind, tText, tFlag, reads⟩ := exists_readsAs_word isName blank notFeed space p newline
  have keyword : isWord "import" t = true := by simp [isWord, tKind, tText]
  have lead : "import".toList ++ [' '] = "import ".toList := by decide
  rw [lead] at reads
  unfold ImportSpec.line
  generalize "import ".toList = lead at reads
  rw [List.append_assoc]
  have path (p : Position) : ∃ q : Lexeme, q.kind = .string ∧ q.text = inQuotes spec.path ∧
      ReadsAs p false (inQuotes spec.path ++ ['\n']) [q] [] true := by
    obtain ⟨q, qKind, qText, -, reads⟩ := exists_readsAs_string h.plain p false
    exact ⟨q, qKind, qText, reads.append (readsAs_blank (by decide) _ false)⟩
  obtain ⟨label, route⟩ := spec
  cases label with
  | none =>
    obtain ⟨q, qKind, qText, reads'⟩ := path (p.past lead)
    exact ⟨t, [q], .unnamed keyword qKind qText, tFlag, reads.append reads'⟩
  | some label =>
    obtain ⟨l, lKind, lText, -, reads'⟩ := exists_readsAs_word (h.name label rfl) blank notFeed space
      (p.past lead) false
    obtain ⟨q, qKind, qText, reads''⟩ := path ((p.past lead).past (label ++ [' ']))
    refine ⟨t, [l, q], .named keyword lKind lText qKind qText, tFlag, ?_⟩
    have rest := reads'.append reads''
    have render : label ++ [' '] ++ (inQuotes route ++ ['\n']) =
        ImportSpec.render ⟨some label, route⟩ ++ ['\n'] := by simp [ImportSpec.render]
    rw [render] at rest
    exact reads.append rest

/-- **Lines of imports** have the lexemes of these imports, whatever follows. -/
theorem exists_importLexemes {spec : ImportSpec} {specs : List ImportSpec}
    (h : ∀ other ∈ spec :: specs, other.Writable) (p : Position) (newline : Bool) :
    ∃ t ts, ImportLexemes (spec :: specs) (t :: ts) ∧ t.afterNewline = newline ∧
      ReadsAs p newline ((spec :: specs).flatMap ImportSpec.line) (t :: ts) [] true := by
  induction specs generalizing spec p newline with
  | nil =>
    obtain ⟨t, ts, line, flag, reads⟩ := exists_lineLexemes (h spec (List.mem_cons_self ..)) p newline
    exact ⟨t, ts, .last line, flag, by simpa using reads⟩
  | cons next specs ih =>
    rw [List.forall_mem_cons] at h
    obtain ⟨t, ts, line, flag, reads⟩ := exists_lineLexemes h.1 p newline
    obtain ⟨u, us, lines, flag', reads'⟩ := ih h.2 (p.past spec.line) true
    refine ⟨t, ts ++ u :: us, .cons line flag' lines, flag, ?_⟩
    have whole := reads.append reads'
    rwa [List.flatMap_cons]

end Lexeme

/-! ### Imports that are read -/

namespace Grammar

/-- The names that an item gives to imports are identifiers or points. -/
def LabelsNamed (it : Item) : Prop :=
  ∀ lines, it = .imports lines → ∀ line ∈ lines, ∀ label, line.label = some label →
    isIdentifier label = true ∨ label = ['.']

theorem importLine_yields : Yields importLine fun line =>
    ∀ label, line.label = some label → isIdentifier label = true ∨ label = ['.'] := by
  have name : Yields importName fun name => isIdentifier name = true ∨ name = ['.'] := by
    refine yields_orElse ?_ (yields_after fun _ => yields_pure (.inr rfl))
    intro ts name rest read
    exact .inl (yields_word ts name rest read)
  have parts : Yields (do
      let label ← possibly importName
      let path ← accept fun t => t.kind = .string
      return (label, path.text)) fun found =>
        ∀ label, found.1 = some label → isIdentifier label = true ∨ label = ['.'] :=
    yields_bind (yields_possibly name) fun _ named => yields_after fun _ => yields_pure named
  exact yields_bind (yields_placed parts) fun _ named => yields_pure named

theorem importDeclaration_yields : Yields importDeclaration LabelsNamed := by
  refine yields_after fun _ => yields_after fun _ => yields_ite ?_ ?_
  · refine yields_bind (yields_listed importLine_yields) fun lines named => yields_pure ?_
    rintro _ ⟨⟩
    exact named
  · refine yields_bind importLine_yields fun line named => yields_pure ?_
    rintro _ ⟨⟩
    simpa using named

theorem item_labels (r : Rules) : Yields (item r) LabelsNamed := by
  have others {p : Parser Item} (h : Yields p fun it => it.isPreamble = false) :
      Yields p LabelsNamed := by
    rintro ts _ rest read lines rfl
    cases h ts _ rest read
  have package : Yields packageClause LabelsNamed :=
    yields_after fun _ => yields_after fun _ => yields_pure nofun
  have statements : Yields (do return Item.statement (← statement r)) LabelsNamed :=
    others (yields_notHead fun _ => rfl)
  refine yields_after fun t => ?_
  refine yields_ite package (yields_ite importDeclaration_yields (yields_ite ?_ (yields_ite ?_ ?_)))
  · exact others (yields_notHead fun _ => rfl)
  · exact yields_orElse (others (functionDeclaration_notHead r))
      (yields_orElse (others (methodDeclaration_notHead r)) statements)
  · exact statements

end Grammar

/-- **What a file imports** has a name that is an identifier or a point, if it has one, and a path
without quotes. -/
theorem written_of_import {text : Text} {i : Import} (member : i ∈ (Source.ofText text).imports) :
    (∀ label, i.label = some label → isIdentifier label = true ∨ label = ['.']) ∧
      Unquoted i.path := by
  obtain ⟨located, inFile, member⟩ := List.mem_flatMap.mp member
  have named := Grammar.items_yield (Grammar.item_labels _) _ _ located inFile
  cases item : located.item with
  | imports lines =>
    rw [item] at member
    obtain ⟨line, inLines, imported⟩ := List.mem_filterMap.mp member
    rw [import?_eq] at imported
    split at imported
    · cases imported
    · rename_i somePath
      obtain rfl := Option.some.inj imported
      exact ⟨named lines item line inLines, unquoted_unquote (by simpa using somePath)⟩
  | package name => simp [item, Item.importsOf] at member
  | function f => simp [item, Item.importsOf] at member
  | declaration decl => simp [item, Item.importsOf] at member
  | statement term => simp [item, Item.importsOf] at member

end Go

end Prefill
