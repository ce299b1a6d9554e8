import Prefill.Go.Grammar.File

/-!
Parsers and positions. Lexemes that stand elsewhere are read in the same way: where a parser reads
something from lexemes, it reads the same from the lexemes with every position moved, with the
positions in what it has read moved likewise.

`Carries` says this of two parsers, which differ where one of them goes deeper into recursive rules
than the other: they need to agree on short lists of lexemes only, because every rule takes a lexeme
before it calls itself. It passes through the ways to combine parsers.
-/

namespace Prefill.Go

/-! ### Moving what has been read -/

section

variable (move : Position → Position)

def Span.moved (span : Span) : Span := ⟨move span.start, move span.stop⟩

def Lexeme.moved (t : Lexeme) : Lexeme := { t with span := t.span.moved move }

def Param.moved (p : Param) : Param := { p with typeSpan := p.typeSpan.moved move }

def Grammar.Entry.moved : Grammar.Entry → Grammar.Entry
  | .lone type span => .lone type (span.moved move)
  | .pair name type span => .pair name type (span.moved move)
  | .tail name type span => .tail name type (span.moved move)

def ValueSpec.moved (s : ValueSpec) : ValueSpec := { s with span := s.span.moved move }

def TypeSpec.moved (s : TypeSpec) : TypeSpec := { s with span := s.span.moved move }

def Decl.moved : Decl → Decl
  | .const grouped specs => .const grouped (specs.map (ValueSpec.moved move))
  | .var grouped specs => .var grouped (specs.map (ValueSpec.moved move))
  | .type grouped specs => .type grouped (specs.map (TypeSpec.moved move))

def ImportLine.moved (line : ImportLine) : ImportLine :=
  { line with span := line.span.moved move }

def Function.moved (f : Function) : Function :=
  { f with
    receiver := f.receiver.map (List.map (Param.moved move))
    parameters := f.parameters.map (Param.moved move)
    results := f.results.map (Param.moved move) }

def Item.moved : Item → Item
  | .package name => .package name
  | .imports lines => .imports (lines.map (ImportLine.moved move))
  | .function f => .function (f.moved move)
  | .declaration d => .declaration (d.moved move)
  | .statement term => .statement term

def Located.moved (located : Located) : Located :=
  ⟨located.item.moved move, located.span.moved move⟩

end

/-! ### What stays where it is -/

theorem Lexeme.moved_id : Lexeme.moved id = id := rfl

theorem Param.moved_id : Param.moved id = id := rfl

theorem ValueSpec.moved_id : ValueSpec.moved id = id := rfl

theorem TypeSpec.moved_id : TypeSpec.moved id = id := rfl

theorem ImportLine.moved_id : ImportLine.moved id = id := rfl

theorem Located.moved_id : Located.moved id = id := by
  funext ⟨it, span⟩
  have same : it.moved id = it := by
    cases it with
    | package name => rfl
    | imports lines => simp [Item.moved, ImportLine.moved_id]
    | function f => simp [Item.moved, Function.moved, Param.moved_id]
    | declaration d =>
      cases d <;> simp [Item.moved, Decl.moved, ValueSpec.moved_id, TypeSpec.moved_id]
    | statement term => rfl
  exact congrArg (Located.mk · span) same

/-- The lexeme without the line feed before it. -/
def Lexeme.inLine (t : Lexeme) : Lexeme := { t with afterNewline := false }

namespace Parser

variable {α β : Type} {move : Position → Position}

/-- On at most `bound` lexemes, the second parser reads from moved lexemes what the first one reads
from the lexemes as they are, moved by `shift`. The first takes at least `least` lexemes off the
front, and perhaps the line feed before the next one. -/
structure Carries (move : Position → Position) (least bound : Nat) (shift : α → α)
    (p q : Parser α) : Prop where
  moved : ∀ ts : List Lexeme, ts.length ≤ bound →
    q (ts.map (Lexeme.moved move)) =
      (p ts).map fun read => (shift read.1, read.2.map (Lexeme.moved move))
  takes : ∀ ts a rest, p ts = some (a, rest) →
    rest.length + least ≤ ts.length ∧ rest.map Lexeme.inLine <:+ ts.map Lexeme.inLine

namespace Carries

variable {least bound : Nat} {shift : α → α} {p q : Parser α}

theorem mono (h : Carries move least bound shift p q) {bound' : Nat} (le : bound' ≤ bound) :
    Carries move least bound' shift p q :=
  ⟨fun ts short => h.moved ts (Nat.le_trans short le), h.takes⟩

/-- The same with a bound that is one less. -/
theorem pred (h : Carries move least (bound + 1) shift p q) :
    Carries move least bound shift p q := h.mono (Nat.le_succ bound)

theorem weaken (h : Carries move least bound shift p q) {least' : Nat} (le : least' ≤ least) :
    Carries move least' bound shift p q := by
  refine ⟨h.moved, fun ts a rest read => ?_⟩
  obtain ⟨shorter, suffix⟩ := h.takes ts a rest read
  exact ⟨by omega, suffix⟩

theorem pure {a b : α} (eq : b = shift a) :
    Carries move 0 bound shift (Pure.pure a) (Pure.pure b) := by
  subst eq
  refine ⟨fun ts _ => rfl, ?_⟩
  rintro ts _ _ ⟨⟩
  exact ⟨Nat.le_refl _, List.suffix_refl _⟩

theorem still (a : α) : Carries move 0 bound id (Pure.pure a) (Pure.pure a) := pure rfl

theorem fail : Carries move least bound shift failure failure :=
  ⟨fun _ _ => rfl, fun _ _ _ read => nomatch read⟩

/-- One parser after another. What the first takes makes the list shorter for the second. -/
theorem seq {least' bound' : Nat} {shift' : β → β} {f g : α → Parser β}
    (first : Carries move least bound shift p q)
    (second : ∀ a, Carries move least' bound' shift' (f a) (g (shift a)))
    (le : bound ≤ bound' + least) :
    Carries move (least + least') bound shift' (p >>= f) (q >>= g) := by
  constructor
  · intro ts short
    show (q _).bind _ = ((p ts).bind _).map _
    rw [first.moved ts short]
    cases read : p ts with
    | none => rfl
    | some found =>
      have shorter := (first.takes ts _ _ read).1
      exact (second found.1).moved found.2 (by omega)
  · intro ts b rest read
    obtain ⟨⟨a, left⟩, found, read⟩ := Option.bind_eq_some_iff.mp read
    obtain ⟨shorter, suffix⟩ := first.takes ts a left found
    obtain ⟨shorter', suffix'⟩ := (second a).takes left b rest read
    exact ⟨by omega, suffix'.trans suffix⟩

theorem bind {k : Nat} {shift' : β → β} {f g : α → Parser β}
    (first : Carries move least bound shift p q)
    (second : ∀ a, Carries move k bound shift' (f a) (g (shift a))) :
    Carries move k bound shift' (p >>= f) (q >>= g) :=
  (first.seq second (Nat.le_add_right ..)).weaken (Nat.le_add_left ..)

/-- What follows takes no less. -/
theorem before {k : Nat} {shift' : β → β} {f g : α → Parser β}
    (first : Carries move least bound shift p q)
    (second : ∀ a, Carries move k bound shift' (f a) (g (shift a))) :
    Carries move least bound shift' (p >>= f) (q >>= g) :=
  (first.seq second (Nat.le_add_right ..)).weaken (Nat.le_add_right ..)

/-- After a parser that takes a lexeme. -/
theorem next {k : Nat} {shift' : β → β} {f g : α → Parser β}
    (first : Carries move 1 (bound + 1) shift p q)
    (second : ∀ a, Carries move k bound shift' (f a) (g (shift a))) :
    Carries move 1 (bound + 1) shift' (p >>= f) (q >>= g) :=
  (first.seq second (Nat.le_refl _)).weaken (Nat.le_add_right ..)

/-- What is done with something that has been read. -/
theorem andReturn {shift' : β → β} {f g : α → β} (first : Carries move least bound shift p q)
    (eq : ∀ a, g (shift a) = shift' (f a)) :
    Carries move least bound shift' (p >>= fun a => Pure.pure (f a))
      (q >>= fun a => Pure.pure (g a)) :=
  first.before fun a => pure (eq a)

theorem orElse {p' q' : Parser α} (first : Carries move least bound shift p q)
    (second : Carries move least bound shift p' q') :
    Carries move least bound shift (p <|> p') (q <|> q') := by
  constructor
  · intro ts short
    show (q _).orElse (fun _ => q' _) = ((p ts).orElse fun _ => p' ts).map _
    rw [first.moved ts short]
    cases p ts with
    | none => exact second.moved ts short
    | some found => rfl
  · intro ts a rest read
    have either : (p ts).orElse (fun _ => p' ts) = some (a, rest) := read
    cases found : p ts with
    | some result => exact first.takes ts a rest (by simpa [found] using either)
    | none => exact second.takes ts a rest (by simpa [found] using either)

theorem ite {condition : Bool} {p' q' : Parser α}
    (first : Carries move least bound shift p q) (second : Carries move least bound shift p' q') :
    Carries move least bound shift (if condition then p else p') (if condition then q else q') := by
  cases condition
  · exact second
  · exact first

theorem peek : Carries move 0 bound (Lexeme.moved move) Parser.peek Parser.peek := by
  refine ⟨fun ts _ => by cases ts <;> rfl, fun ts a rest read => ?_⟩
  cases ts with
  | nil => cases read
  | cons t ts =>
    obtain ⟨rfl, rfl⟩ := by simpa [Parser.peek] using read
    exact ⟨Nat.le_refl _, List.suffix_refl _⟩

/-- Taking a lexeme that is wanted wherever it stands. -/
theorem accept {wanted : Lexeme → Bool} (still : ∀ t, wanted (t.moved move) = wanted t) :
    Carries move 1 bound (Lexeme.moved move) (Parser.accept wanted) (Parser.accept wanted) := by
  refine ⟨fun ts _ => ?_, fun ts a rest read => ?_⟩
  · cases ts with
    | nil => rfl
    | cons t ts =>
      simp only [List.map_cons, Parser.accept, still]
      cases wanted t <;> rfl
  · cases ts with
    | nil => cases read
    | cons t ts =>
      simp only [Parser.accept] at read
      split at read
      · obtain ⟨rfl, rfl⟩ := by simpa using read
        exact ⟨by simp, by simp⟩
      · cases read

theorem ensure (condition : Bool) :
    Carries move 0 bound id (Parser.ensure condition) (Parser.ensure condition) := by
  cases condition
  · exact fail
  · exact pure rfl

theorem possibly (h : Carries move least bound shift p q) :
    Carries move 0 bound (Option.map shift) (Parser.possibly p) (Parser.possibly q) := by
  constructor
  · intro ts short
    simp only [Parser.possibly, h.moved ts short]
    cases p ts <;> rfl
  · intro ts a rest read
    unfold Parser.possibly at read
    split at read
    · rename_i found
      obtain ⟨rfl, rfl⟩ := by simpa using read
      obtain ⟨shorter, suffix⟩ := h.takes _ _ _ found
      exact ⟨by omega, suffix⟩
    · obtain ⟨rfl, rfl⟩ := by simpa using read
      exact ⟨Nat.le_refl _, List.suffix_refl _⟩

theorem refuses (h : Carries move least bound shift p q) :
    Carries move 0 bound id (Parser.refuses p) (Parser.refuses q) := by
  constructor
  · intro ts short
    simp only [Parser.refuses, h.moved ts short]
    cases p ts <;> rfl
  · intro ts a rest read
    unfold Parser.refuses at read
    split at read
    · cases read
    · obtain rfl := by simpa using read
      exact ⟨Nat.le_refl _, List.suffix_refl _⟩

theorem repeatUpTo (h : Carries move least bound shift p q) (fuel : Nat) :
    Carries move 0 bound (List.map shift) (Parser.repeatUpTo p fuel)
      (Parser.repeatUpTo q fuel) := by
  induction fuel with
  | zero => exact pure rfl
  | succ fuel ih =>
    constructor
    · intro ts short
      simp only [Parser.repeatUpTo, h.moved ts short]
      cases read : p ts with
      | none => rfl
      | some found =>
        obtain ⟨a, rest⟩ := found
        have shorter := (h.takes ts a rest read).1
        simp only [Option.map_some, List.length_map, ih.moved rest (by omega)]
        split
        · cases Parser.repeatUpTo p fuel rest <;> rfl
        · rfl
    · intro ts as left read
      unfold Parser.repeatUpTo at read
      split at read
      · obtain ⟨rfl, rfl⟩ := by simpa using read
        exact ⟨Nat.le_refl _, List.suffix_refl _⟩
      · rename_i a rest found
        obtain ⟨shorter, suffix⟩ := h.takes ts a rest found
        split at read
        · split at read
          · rename_i more tail again
            obtain ⟨rfl, rfl⟩ := by simpa using read
            obtain ⟨shorter', suffix'⟩ := ih.takes rest more tail again
            exact ⟨by omega, suffix'.trans suffix⟩
          · obtain ⟨rfl, rfl⟩ := by simpa using read
            exact ⟨by omega, suffix⟩
        · obtain ⟨rfl, rfl⟩ := by simpa using read
          exact ⟨Nat.le_refl _, List.suffix_refl _⟩

theorem many (h : Carries move least bound shift p q) :
    Carries move 0 bound (List.map shift) (Parser.many p) (Parser.many q) := by
  constructor
  · intro ts short
    simp only [Parser.many, List.length_map]
    exact (h.repeatUpTo ts.length).moved ts short
  · exact fun ts as rest read => (h.repeatUpTo ts.length).takes ts as rest read

theorem terminator : Carries move 0 bound id Parser.terminator Parser.terminator := by
  constructor
  · intro ts _
    cases ts with
    | nil => rfl
    | cons t ts =>
      simp only [List.map_cons, Parser.terminator]
      have newline : (t.moved move).afterNewline = t.afterNewline := rfl
      have semicolon : Parser.isOperator ";" (t.moved move) = Parser.isOperator ";" t := rfl
      rw [newline, semicolon]
      cases t.afterNewline
      · cases Parser.isOperator ";" t <;> rfl
      · rfl
  · intro ts a rest read
    cases ts with
    | nil => cases read
    | cons t ts =>
      simp only [Parser.terminator] at read
      split at read
      · obtain rfl := by simpa using read
        exact ⟨Nat.le_refl _, List.suffix_refl _⟩
      · split at read
        · obtain rfl := by simpa using read
          exact ⟨by simp, by simp⟩
        · cases read

/-- The place of what is read moves with it. A parser that takes a lexeme has one to begin at. -/
theorem placed (h : Carries move 1 bound shift p q) :
    Carries move 1 bound (Prod.map shift (Span.moved move)) (Parser.placed p)
      (Parser.placed q) := by
  constructor
  · intro ts short
    simp only [Parser.placed, h.moved ts short]
    cases read : p ts with
    | none => rfl
    | some found =>
      obtain ⟨a, rest⟩ := found
      have shorter := (h.takes ts a rest read).1
      have place : taken (ts.map (Lexeme.moved move)) (rest.map (Lexeme.moved move)) =
          (taken ts rest).moved move := by
        cases ts with
        | nil => simp at shorter
        | cons t ts =>
          have inside : (t :: ts).length - rest.length - 1 < (t :: ts).length := by omega
          simp only [taken, List.length_map, List.getElem?_map, List.head?_map,
            List.getElem?_eq_getElem inside, List.head?_cons, Option.map_some]
          rfl
      simp only [Option.map_some, place, Prod.map]
  · intro ts a rest read
    unfold Parser.placed at read
    split at read
    · rename_i found
      obtain ⟨rfl, rfl⟩ := by simpa using read
      exact h.takes _ _ _ found
    · cases read

theorem placed_still (h : Carries move 1 bound id p q) :
    Carries move 1 bound (Prod.map id (Span.moved move)) (Parser.placed p) (Parser.placed q) :=
  h.placed

theorem fails_nil (h : Carries move 1 bound shift p q) : p [] = none := by
  cases read : p [] with
  | none => rfl
  | some found =>
    have shorter := (h.takes [] found.1 found.2 read).1
    simp at shorter

/-- Any two parsers that take a lexeme agree where there is none. -/
theorem empty {p' q' : Parser α} (first : Carries move 1 bound shift p p')
    (second : Carries move 1 bound shift q q') : Carries move 1 0 shift p q := by
  refine ⟨fun ts short => ?_, first.takes⟩
  obtain rfl := List.length_eq_zero_iff.mp (Nat.le_zero.mp short)
  rw [List.map_nil, first.fails_nil, second.fails_nil]
  rfl

/-! ### The small parsers -/

theorem operator (text : String) :
    Carries move 1 bound id (Parser.operator text) (Parser.operator text) :=
  (accept fun _ => rfl).andReturn fun _ => rfl

theorem keyword (text : String) :
    Carries move 1 bound id (Parser.keyword text) (Parser.keyword text) :=
  (accept fun _ => rfl).andReturn fun _ => rfl

theorem word : Carries move 1 bound id Parser.word Parser.word :=
  (accept fun _ => rfl).andReturn fun _ => rfl

theorem nameExcept (keywords : List String) :
    Carries move 1 bound id (Parser.nameExcept keywords) (Parser.nameExcept keywords) :=
  (accept fun _ => rfl).andReturn fun _ => rfl

theorem sees {wanted : Lexeme → Bool} (still : ∀ t, wanted (t.moved move) = wanted t) :
    Carries move 0 bound id (Parser.sees wanted) (Parser.sees wanted) :=
  peek.andReturn still

theorem seesOperator (text : String) :
    Carries move 0 bound id (Parser.seesOperator text) (Parser.seesOperator text) :=
  sees fun _ => rfl

theorem continues (context : Context) :
    Carries move 0 bound id (Parser.continues context) (Parser.continues context) :=
  peek.bind fun _ => ensure _

theorem follows (context : Context) (text : String) :
    Carries move 1 bound id (Parser.follows context text) (Parser.follows context text) :=
  (continues context).bind fun _ => operator text

/-- What does not move stays as it is. -/
theorem possibly_still (h : Carries move least bound id p q) :
    Carries move 0 bound id (Parser.possibly p) (Parser.possibly q) := by
  simpa using h.possibly

theorem many_still (h : Carries move least bound id p q) :
    Carries move 0 bound id (Parser.many p) (Parser.many q) := by
  simpa using h.many

theorem separated {k : Nat} {separator separator' : Parser Unit}
    (between : Carries move k bound id separator separator')
    (h : Carries move least bound shift p q) :
    Carries move least bound (List.map shift) (Parser.separated separator p)
      (Parser.separated separator' q) := by
  have more : Carries move 0 bound (List.map shift) (Parser.many do separator; p)
      (Parser.many do separator'; q) := many (between.bind fun _ => h)
  exact h.before fun _ => more.andReturn fun _ => rfl

/-- Brackets take a lexeme before what they hold. -/
theorem bracketed (opening closing : String) (h : Carries move least bound shift p q) :
    Carries move 1 (bound + 1) (List.map shift) (Parser.bracketed opening closing p)
      (Parser.bracketed opening closing q) := by
  refine (operator opening).next fun _ =>
    (possibly (separated (operator ",") h)).bind fun items =>
      (operator ",").possibly.bind fun _ => (operator closing).bind fun _ => pure ?_
  cases items <;> rfl

theorem listed (opening closing : String) (h : Carries move least bound shift p q) :
    Carries move 1 (bound + 1) (List.map shift) (Parser.listed opening closing p)
      (Parser.listed opening closing q) := by
  refine (operator opening).next (k := 1) fun _ =>
    (possibly (separated terminator h)).bind fun items => ?_
  cases items with
  | none => exact (still none).bind fun _ => (operator closing).andReturn fun _ => rfl
  | some items =>
    exact terminator.possibly_still.bind fun _ => (operator closing).andReturn fun _ => rfl

theorem separated_still {k : Nat} {separator separator' : Parser Unit}
    (between : Carries move k bound id separator separator')
    (h : Carries move least bound id p q) :
    Carries move least bound id (Parser.separated separator p) (Parser.separated separator' q) := by
  simpa using separated between h

theorem bracketed_still (opening closing : String) (h : Carries move least bound id p q) :
    Carries move 1 (bound + 1) id (Parser.bracketed opening closing p)
      (Parser.bracketed opening closing q) := by
  simpa using bracketed opening closing h

theorem listed_still (opening closing : String) (h : Carries move least bound id p q) :
    Carries move 1 (bound + 1) id (Parser.listed opening closing p)
      (Parser.listed opening closing q) := by
  simpa using listed opening closing h

end Carries

end Parser

end Prefill.Go
