import Mathlib.Tactic.ByContra
import Prefill.Proofs.MovingGrammar
import Prefill.Proofs.Naming

/-!
The head of a file: its package clause and its imports. The items of the head read nothing beyond
their own lexemes (`local_item`), so a head whose last item ends with its line is read in the same
way whatever comes on the lines after it (`items_head`).
-/

namespace Prefill.Go

namespace Parser

variable {α β : Type}

theorem pure_apply (a : α) (ts : List Lexeme) : (pure a : Parser α) ts = some (a, ts) := rfl

theorem bind_apply (p : Parser α) (f : α → Parser β) (ts : List Lexeme) :
    (p >>= f) ts = (p ts).bind fun found => f found.1 found.2 := rfl

/-! ### Parsers that look at nothing beyond what they take -/

/-- What the parser takes is not empty, and it reads the same from it whatever follows. -/
def Local (p : Parser α) : Prop :=
  ∀ ts a rest, p ts = some (a, rest) →
    ∃ front, front ≠ [] ∧ ts = front ++ rest ∧ ∀ after, p (front ++ after) = some (a, after)

theorem local_accept (wanted : Lexeme → Bool) : Local (accept wanted) := by
  intro ts t rest read
  cases ts with
  | nil => cases read
  | cons u ts =>
    simp only [accept] at read
    split at read
    · rename_i isWanted
      obtain ⟨rfl, rfl⟩ := by simpa using read
      exact ⟨[u], by simp, rfl, fun after => by simp [accept, isWanted]⟩
    · cases read

theorem Local.bind {p : Parser α} {f : α → Parser β} (first : Local p)
    (second : ∀ a, Local (f a)) : Local (p >>= f) := by
  intro ts b rest read
  obtain ⟨⟨a, left⟩, found, next⟩ := Option.bind_eq_some_iff.mp read
  obtain ⟨front', -, rfl, again'⟩ := second a left b rest next
  obtain ⟨front, someFront, rfl, again⟩ := first ts a _ found
  refine ⟨front ++ front', by simp [someFront], by simp, fun after => ?_⟩
  show (p (front ++ front' ++ after)).bind _ = _
  rw [List.append_assoc, again]
  exact again' after

theorem Local.andReturn {p : Parser α} (h : Local p) (f : α → β) :
    Local (p >>= fun a => pure (f a)) := by
  intro ts b rest read
  obtain ⟨⟨a, left⟩, found, read⟩ := Option.bind_eq_some_iff.mp read
  obtain ⟨rfl, rfl⟩ := Prod.mk.inj (Option.some.inj read)
  obtain ⟨front, someFront, rfl, again⟩ := h ts a left found
  refine ⟨front, someFront, rfl, fun after => ?_⟩
  show (p (front ++ after)).bind _ = _
  rw [again]
  rfl

theorem local_operator (text : String) : Local (operator text) :=
  (local_accept _).andReturn fun _ => ()

theorem local_keyword (text : String) : Local (keyword text) :=
  (local_accept _).andReturn fun _ => ()

theorem local_word : Local word := (local_accept _).andReturn Lexeme.text

/-- A look at the next lexeme, which is then taken. -/
theorem Local.afterSees {f : Bool → Parser β} (h : ∀ b, Local (f b)) (wanted : Lexeme → Bool) :
    Local (sees wanted >>= f) := by
  intro ts b rest read
  cases ts with
  | nil => cases read
  | cons t ts =>
    have read : f (wanted t) (t :: ts) = some (b, rest) := read
    obtain ⟨front, someFront, whole, again⟩ := h _ _ _ _ read
    refine ⟨front, someFront, whole, fun after => ?_⟩
    obtain ⟨u, front, rfl⟩ := List.exists_cons_of_ne_nil someFront
    obtain ⟨rfl, -⟩ := List.cons.inj whole
    exact again after

/-- What may stand before something else, where one lexeme decides whether it does. -/
theorem Local.afterPossibly {p : Parser α} {f : Option α → Parser β} (first : Local p)
    (decided : ∀ t rest, p (t :: rest) = none → ∀ after, p (t :: after) = none)
    (second : ∀ a, Local (f a)) : Local (possibly p >>= f) := by
  intro ts b rest read
  obtain ⟨⟨a, left⟩, found, next⟩ := Option.bind_eq_some_iff.mp read
  obtain ⟨front', someFront', rfl, again'⟩ := second a left b rest next
  unfold possibly at found
  split at found
  · rename_i a' left' took
    obtain ⟨rfl, rfl⟩ := Prod.mk.inj (Option.some.inj found)
    obtain ⟨front, someFront, rfl, again⟩ := first ts a' _ took
    refine ⟨front ++ front', by simp [someFront], by simp, fun after => ?_⟩
    show (possibly p (front ++ front' ++ after)).bind _ = _
    rw [List.append_assoc, possibly, again]
    exact again' after
  · rename_i fails
    obtain ⟨rfl, rfl⟩ := Prod.mk.inj (Option.some.inj found)
    refine ⟨front', someFront', rfl, fun after => ?_⟩
    obtain ⟨t, front, rfl⟩ := List.exists_cons_of_ne_nil someFront'
    show (possibly p (t :: front ++ after)).bind _ = _
    rw [List.cons_append, possibly, decided t _ fails]
    exact again' after

theorem taken_append (t : Lexeme) (front after : List Lexeme) :
    taken (t :: front ++ after) after =
      ⟨t.span.start, ((t :: front).getLast (by simp)).span.stop⟩ := by
  have count : (t :: front ++ after).length - after.length = front.length + 1 := by
    simp only [List.length_append, List.length_cons]
    omega
  have last : (t :: front ++ after)[front.length + 1 - 1]? =
      some ((t :: front).getLast (by simp)) := by
    rw [Nat.add_sub_cancel, List.getElem?_append_left (by simp), List.getLast_eq_getElem]
    simp
  rw [taken, count, last]
  rfl

theorem Local.placed {p : Parser α} (h : Local p) : Local (placed p) := by
  intro ts found rest read
  unfold Parser.placed at read
  split at read
  · rename_i a left took
    obtain ⟨rfl, rfl⟩ := Prod.mk.inj (Option.some.inj read)
    obtain ⟨front, someFront, rfl, again⟩ := h ts a left took
    refine ⟨front, someFront, rfl, fun after => ?_⟩
    obtain ⟨t, front, rfl⟩ := List.exists_cons_of_ne_nil someFront
    simp only [Parser.placed, again, taken_append]
  · cases read

/-! ### Parsers that stop at a closing parenthesis -/

/-- Before a closing parenthesis the parser reads the same whatever follows it. -/
def Stops (p : Parser α) : Prop :=
  ∀ front b, isOperator ")" b = true →
    (∀ after, p (front ++ b :: after) = none) ∨
    ∃ a front' b', isOperator ")" b' = true ∧ front'.length ≤ front.length ∧
      ∀ after, p (front ++ b :: after) = some (a, front' ++ b' :: after)

theorem Stops.pure (a : α) : Stops (Pure.pure a : Parser α) := by
  intro front b closing
  exact .inr ⟨a, front, b, closing, Nat.le_refl _, fun _ => rfl⟩

theorem stops_accept {wanted : Lexeme → Bool}
    (notClosing : ∀ t, isOperator ")" t = true → wanted t = false) : Stops (accept wanted) := by
  intro front b closing
  cases front with
  | nil =>
    left
    intro after
    simp [accept, notClosing b closing]
  | cons t front =>
    cases isWanted : wanted t with
    | false =>
      left
      intro after
      simp [accept, isWanted]
    | true =>
      right
      exact ⟨t, front, b, closing, by simp, fun after => by simp [accept, isWanted]⟩

theorem Stops.bind {p : Parser α} {f : α → Parser β} (first : Stops p)
    (second : ∀ a, Stops (f a)) : Stops (p >>= f) := by
  intro front b closing
  obtain fails | ⟨a, front', b', closing', shorter, reads⟩ := first front b closing
  · left
    intro after
    show (p _).bind _ = none
    rw [fails]
    rfl
  · have next (after : List Lexeme) : (p >>= f) (front ++ b :: after) =
        f a (front' ++ b' :: after) := by
      show (p _).bind _ = _
      rw [reads]
      rfl
    simp only [next]
    obtain fails | ⟨c, front'', b'', closing'', shorter', reads'⟩ := second a front' b' closing'
    · exact .inl fails
    · exact .inr ⟨c, front'', b'', closing'', Nat.le_trans shorter' shorter, reads'⟩

theorem Stops.orElse {p q : Parser α} (first : Stops p) (second : Stops q) : Stops (p <|> q) := by
  intro front b closing
  have either (after : List Lexeme) : (p <|> q) (front ++ b :: after) =
      (p (front ++ b :: after)).orElse fun _ => q (front ++ b :: after) := rfl
  obtain fails | ⟨a, front', b', closing', shorter, reads⟩ := first front b closing
  · simp only [either, fails]
    exact second front b closing
  · simp only [either, reads]
    exact .inr ⟨a, front', b', closing', shorter, fun _ => rfl⟩

theorem Stops.possibly {p : Parser α} (h : Stops p) : Stops (possibly p) := by
  intro front b closing
  right
  obtain fails | ⟨a, front', b', closing', shorter, reads⟩ := h front b closing
  · exact ⟨none, front, b, closing, Nat.le_refl _, fun after => by simp [Parser.possibly, fails]⟩
  · exact ⟨some a, front', b', closing', shorter, fun after => by simp [Parser.possibly, reads]⟩

theorem terminator_of_afterNewline {t : Lexeme} (newline : t.afterNewline = true)
    (rest : List Lexeme) : terminator (t :: rest) = some ((), t.inLine :: rest) := by
  simp [terminator, newline, Lexeme.inLine]

theorem stops_terminator : Stops terminator := by
  intro front b closing
  have noSemicolon : isOperator ";" b = false := by
    simp only [isOperator, Bool.and_eq_true, decide_eq_true_eq] at closing
    simp [isOperator, closing.2]
  cases front with
  | nil =>
    cases newline : b.afterNewline with
    | true => exact .inr ⟨(), [], b.inLine, closing, by simp, fun after =>
        terminator_of_afterNewline newline after⟩
    | false => exact .inl fun after => by simp [terminator, newline, noSemicolon]
  | cons t front =>
    cases newline : t.afterNewline with
    | true => exact .inr ⟨(), t.inLine :: front, b, closing, by simp, fun after =>
        terminator_of_afterNewline newline (front ++ b :: after)⟩
    | false =>
      cases semicolon : isOperator ";" t with
      | true => exact .inr ⟨(), front, b, closing, by simp, fun after => by
          simp [terminator, newline, semicolon]⟩
      | false => exact .inl fun after => by simp [terminator, newline, semicolon]

theorem Stops.repeatUpTo {p : Parser α} (h : Stops p) (front : List Lexeme) (b : Lexeme)
    (closing : isOperator ")" b = true) :
    ∃ as front' b', isOperator ")" b' = true ∧ front'.length ≤ front.length ∧
      ∀ fuel after, front.length ≤ fuel →
        Parser.repeatUpTo p fuel (front ++ b :: after) = some (as, front' ++ b' :: after) := by
  induction size : front.length using Nat.strongRecOn generalizing front b with
  | ind n ih =>
    subst size
    -- Where nothing is taken, the repetition ends here however much fuel there is.
    have stay (ends : ∀ fuel after, Parser.repeatUpTo p (fuel + 1) (front ++ b :: after) =
        some ([], front ++ b :: after)) :
        ∃ as front' b', isOperator ")" b' = true ∧ front'.length ≤ front.length ∧
          ∀ fuel after, front.length ≤ fuel →
            Parser.repeatUpTo p fuel (front ++ b :: after) = some (as, front' ++ b' :: after) := by
      refine ⟨[], front, b, closing, Nat.le_refl _, fun fuel after _ => ?_⟩
      cases fuel with
      | zero => rfl
      | succ fuel => exact ends fuel after
    obtain fails | ⟨a, front', b', closing', shorter, reads⟩ := h front b closing
    · exact stay fun fuel after => by simp [Parser.repeatUpTo, fails]
    · by_cases less : front'.length < front.length
      · obtain ⟨as, front'', b'', closing'', shorter', more⟩ :=
          ih front'.length less front' b' closing' rfl
        refine ⟨a :: as, front'', b'', closing'', Nat.le_trans shorter' shorter, ?_⟩
        intro fuel after enough
        obtain ⟨fuel, rfl⟩ := Nat.exists_eq_add_of_le' (Nat.le_trans (Nat.lt_of_le_of_lt
          (Nat.zero_le _) less) enough)
        simp only [Parser.repeatUpTo, reads, List.length_append, List.length_cons,
          Nat.add_lt_add_iff_right, less, if_true, more fuel after (by omega)]
      · refine stay fun fuel after => ?_
        simp only [Parser.repeatUpTo, reads, List.length_append, List.length_cons,
          Nat.add_lt_add_iff_right, less, if_false]

theorem Stops.many {p : Parser α} (h : Stops p) : Stops (many p) := by
  intro front b closing
  obtain ⟨as, front', b', closing', shorter, reads⟩ := h.repeatUpTo front b closing
  right
  refine ⟨as, front', b', closing', shorter, fun after => ?_⟩
  rw [Parser.many]
  apply reads
  simp only [List.length_append]
  omega

theorem Stops.separated {separator : Parser Unit} {p : Parser α} (between : Stops separator)
    (h : Stops p) : Stops (separated separator p) :=
  h.bind fun _ => (Stops.many (between.bind fun _ => h)).bind fun _ => .pure _

theorem Stops.placed {p : Parser α} (h : Stops p) : Stops (placed p) := by
  intro front b closing
  obtain fails | ⟨a, front', b', closing', shorter, reads⟩ := h front b closing
  · exact .inl fun after => by simp [Parser.placed, fails]
  · right
    have same (after : List Lexeme) : taken (front ++ b :: after) (front' ++ b' :: after) =
        taken (front ++ [b]) (front' ++ [b']) := by
      have count (after : List Lexeme) : (front ++ b :: after).length -
          (front' ++ b' :: after).length = front.length - front'.length := by
        simp only [List.length_append, List.length_cons]
        omega
      have head (after : List Lexeme) : (front ++ b :: after).head? = (front ++ [b]).head? := by
        cases front <;> rfl
      have inner (after : List Lexeme) (i : Nat) (within : i ≤ front.length) :
          (front ++ b :: after)[i]? = (front ++ [b])[i]? := by
        rw [List.append_cons, List.getElem?_append_left (by simp; omega)]
      simp only [taken, count, head after]
      rw [inner after _ (by omega)]
    exact ⟨(a, taken (front ++ [b]) (front' ++ [b'])), front', b', closing', shorter, fun after => by
      simp [Parser.placed, reads, same]⟩

end Parser

namespace Grammar

open Prefill.Go.Parser

/-! ### The items of a head -/

theorem local_packageClause : Local packageClause :=
  (local_keyword "package").bind fun _ => local_word.andReturn Item.package

theorem importName_cons (t : Lexeme) (rest : List Lexeme) : importName (t :: rest) =
    if t.kind = .word then some (t.text, rest)
    else if isOperator "." t then some (['.'], rest) else none := by
  show (word (t :: rest)).orElse (fun _ => (operator "." (t :: rest)).bind _) = _
  by_cases isWord : t.kind = .word
  · simp [word, accept, isWord, bind_apply, pure_apply]
  · by_cases isPoint : isOperator "." t = true <;>
      simp [word, operator, accept, isWord, isPoint, bind_apply, pure_apply]

theorem importName_decided (t : Lexeme) (rest : List Lexeme) (fails : importName (t :: rest) = none)
    (after : List Lexeme) : importName (t :: after) = none := by
  rw [importName_cons] at fails ⊢
  split
  · simp_all
  · split <;> simp_all

theorem local_importName : Local importName := by
  intro ts a rest read
  have either : (word ts).orElse (fun _ => (operator "." >>= fun _ => pure ['.'] : Parser Text) ts) =
      some (a, rest) := read
  cases named : word ts with
  | some found =>
    obtain rfl : found = (a, rest) := by simpa [named] using either
    obtain ⟨front, someFront, whole, again⟩ := local_word ts a rest named
    refine ⟨front, someFront, whole, fun after => ?_⟩
    show (word _).orElse _ = _
    rw [again]
    rfl
  | none =>
    have point : (operator "." >>= fun _ => pure ['.'] : Parser Text) ts = some (a, rest) := by
      simpa [named] using either
    obtain ⟨front, someFront, whole, again⟩ :=
      (local_operator ".").andReturn (fun _ => ['.']) ts a rest point
    refine ⟨front, someFront, whole, fun after => ?_⟩
    obtain ⟨t, front, rfl⟩ := List.exists_cons_of_ne_nil someFront
    subst whole
    have notWord : ¬ t.kind = .word := by
      intro isWord
      simp [word, accept, isWord, bind_apply, pure_apply] at named
    have fails : word (t :: front ++ after) = none := by
      simp [word, accept, notWord, bind_apply]
    show (word _).orElse _ = _
    rw [fails]
    exact again after

theorem local_importLine : Local importLine := by
  have read : Local (do
      let label ← possibly importName
      let path ← accept fun t => t.kind = .string
      return (label, path.text)) :=
    local_importName.afterPossibly importName_decided fun label =>
      (local_accept _).andReturn fun path => (label, path.text)
  exact read.placed.andReturn fun found => (⟨found.1.1, found.1.2, found.2⟩ : ImportLine)

theorem stops_importLine : Stops importLine := by
  have notString (t : Lexeme) (closing : isOperator ")" t = true) :
      decide (t.kind = .string) = false := by
    simp only [isOperator, Bool.and_eq_true, decide_eq_true_eq] at closing
    simp [closing.1]
  have notWord (t : Lexeme) (closing : isOperator ")" t = true) :
      decide (t.kind = .word) = false := by
    simp only [isOperator, Bool.and_eq_true, decide_eq_true_eq] at closing
    simp [closing.1]
  have notPoint (t : Lexeme) (closing : isOperator ")" t = true) : isOperator "." t = false := by
    simp only [isOperator, Bool.and_eq_true, decide_eq_true_eq] at closing
    simp [isOperator, closing.2]
  have name : Stops importName :=
    ((stops_accept notWord).bind fun _ => .pure _).orElse
      (((stops_accept notPoint).bind fun _ => .pure _).bind fun _ => .pure _)
  exact (Stops.placed (name.possibly.bind fun _ => (stops_accept notString).bind fun _ =>
    .pure _)).bind fun _ => .pure _

/-- What stands between the parentheses of an import group. -/
def importGroup : Parser (Option (List ImportLine)) := do
  let lines ← possibly (separated terminator importLine)
  let _ ← if lines.isSome then possibly terminator else pure none
  return lines

theorem listed_importLine : listed "(" ")" importLine = (do
    operator "("
    let lines ← importGroup
    operator ")"
    return lines.getD []) := by
  unfold listed importGroup
  congr 1
  funext _
  simp only [bind_assoc]
  congr 1
  funext lines
  cases lines <;> simp

theorem stops_importGroup : Stops importGroup :=
  (Stops.possibly (.separated stops_terminator stops_importLine)).bind fun lines => by
    cases lines with
    | none => exact (Stops.pure none).bind fun _ => .pure _
    | some lines => exact stops_terminator.possibly.bind fun _ => .pure _

theorem carries_importGroup (move : Position → Position) (bound : Nat) :
    Carries move 0 bound (Option.map (List.map (ImportLine.moved move))) importGroup importGroup := by
  refine (Carries.possibly (.separated .terminator carries_importLine)).bind fun lines => ?_
  cases lines with
  | none => exact (Carries.still none).bind fun _ => .pure rfl
  | some lines => exact Carries.terminator.possibly_still.bind fun _ => .pure rfl

/-- What leads up to a closing parenthesis comes to the first one. -/
theorem local_importGroup : Local (do
    let lines ← importGroup
    operator ")"
    return lines.getD []) := by
  intro ts found rest read
  obtain ⟨⟨lines, left⟩, group, read⟩ := Option.bind_eq_some_iff.mp read
  obtain ⟨⟨_, tail⟩, closes, read⟩ := Option.bind_eq_some_iff.mp read
  obtain ⟨rfl, rfl⟩ := Prod.mk.inj (Option.some.inj read)
  obtain ⟨b, closing, rfl⟩ : ∃ b, isOperator ")" b = true ∧ left = b :: tail := by
    cases left with
    | nil => cases closes
    | cons b rest =>
      by_cases closing : isOperator ")" b = true
      · simp only [operator, accept, bind_apply, pure_apply, closing, if_true, Option.bind_some,
          Option.some.injEq, Prod.mk.injEq, true_and] at closes
        exact ⟨b, closing, by rw [closes]⟩
      · simp [operator, accept, bind_apply, closing] at closes
  obtain ⟨before, whole⟩ := ((carries_importGroup id ts.length).takes ts lines _ group).2
  have there : ∃ c ∈ ts, isOperator ")" c = true := by
    have member : b.inLine ∈ ts.map Lexeme.inLine := by
      rw [← whole]
      simp
    obtain ⟨c, inside, same⟩ := List.mem_map.mp member
    refine ⟨c, inside, ?_⟩
    have kept : isOperator ")" c.inLine = true := by
      rw [same]
      exact closing
    exact kept
  obtain ⟨c, found⟩ := Option.isSome_iff_exists.mp (List.find?_isSome.mpr there)
  obtain ⟨closing', front, after, rfl, first⟩ := List.find?_eq_some_iff_append.mp found
  obtain fails | ⟨lines', front', b', -, shorter, reads⟩ := stops_importGroup front c closing'
  · rw [fails] at group
    cases group
  · obtain ⟨rfl, left⟩ := Prod.mk.inj (Option.some.inj ((reads after).symm.trans group))
    cases front' with
    | nil =>
      obtain ⟨rfl, rfl⟩ := List.cons.inj left
      refine ⟨front ++ [c], by simp, by simp, fun after' => ?_⟩
      show (importGroup (front ++ [c] ++ after')).bind _ = _
      rw [List.append_assoc, List.singleton_append, reads]
      show (operator ")" (b' :: after')).bind _ = _
      simp [operator, accept, bind_apply, pure_apply, closing]
    | cons u front' =>
      -- The parser has not come to the parenthesis, but before it there is none to be taken.
      rw [List.cons_append] at left
      obtain ⟨rfl, rfl⟩ := List.cons.inj left
      have size := congrArg List.length whole
      simp only [List.length_append, List.length_map, List.length_cons] at size shorter
      have here := congrArg (fun list => list[before.length]?) whole
      rw [List.getElem?_append_right (Nat.le_refl _), Nat.sub_self, List.map_cons,
        List.getElem?_cons_zero, List.getElem?_map,
        List.getElem?_append_left (by omega)] at here
      obtain ⟨t, inFront, same⟩ := Option.map_eq_some_iff.mp here.symm
      have open_ := first t (List.mem_of_getElem? inFront)
      have kept : isOperator ")" t.inLine = true := by
        rw [same]
        exact closing
      have kept : isOperator ")" t = true := kept
      simp [kept] at open_

theorem local_importDeclaration : Local importDeclaration := by
  refine (local_keyword "import").bind fun _ => Local.afterSees (fun group => ?_) _
  cases group with
  | false => exact local_importLine.andReturn fun line => Item.imports [line]
  | true =>
    have lines : Local (listed "(" ")" importLine) := by
      rw [listed_importLine]
      exact (local_operator "(").bind fun _ => local_importGroup
    exact lines.andReturn Item.imports

theorem yields_notHead {α : Type} {p : Parser α} {make : α → Item}
    (h : ∀ a, (make a).isPreamble = false) :
    Yields (do return make (← p)) fun it => it.isPreamble = false :=
  yields_after fun a => yields_pure (h a)

theorem functionDeclaration_notHead (r : Rules) :
    Yields (functionDeclaration r) fun it => it.isPreamble = false := by
  refine yields_after fun _ => yields_after fun _ => yields_after fun _ => ?_
  dsimp only
  split
  all_goals exact yields_after fun _ => yields_after fun _ => yields_notHead fun _ => rfl

theorem methodDeclaration_notHead (r : Rules) :
    Yields (methodDeclaration r) fun it => it.isPreamble = false :=
  yields_after fun _ => yields_after fun _ => yields_after fun _ => yields_after fun _ =>
    yields_notHead fun _ => rfl

/-- **An item of the head** is read from its own lexemes alone, and no rule matters for it. -/
theorem local_item {r : Rules} {ts rest : List Lexeme} {it : Item}
    (read : item r ts = some (it, rest)) (head : it.isPreamble = true) :
    ∃ front, front ≠ [] ∧ ts = front ++ rest ∧
      ∀ s after, item s (front ++ after) = some (it, after) := by
  cases ts with
  | nil => cases read
  | cons t ts =>
    have step (s : Rules) (ts : List Lexeme) : item s (t :: ts) =
        (if isWord "package" t then packageClause
        else if isWord "import" t then importDeclaration
        else if ["const", "var", "type"].any fun w => isWord w t then
          return .declaration (← declaration s)
        else if isWord "func" t then
          functionDeclaration s <|> methodDeclaration s <|> (do return .statement (← statement s))
        else return .statement (← statement s)) (t :: ts) := rfl
    -- Both productions take the lexeme that chooses them.
    have keep {p : Parser Item} (isLocal : Local p)
        (chosen : ∀ s ts, item s (t :: ts) = p (t :: ts)) : ∃ front, front ≠ [] ∧
          t :: ts = front ++ rest ∧ ∀ s after, item s (front ++ after) = some (it, after) := by
      rw [chosen] at read
      obtain ⟨front, someFront, whole, again⟩ := isLocal _ _ _ read
      refine ⟨front, someFront, whole, fun s after => ?_⟩
      obtain ⟨u, front, rfl⟩ := List.exists_cons_of_ne_nil someFront
      obtain ⟨rfl, -⟩ := List.cons.inj whole
      rw [List.cons_append, chosen]
      exact again after
    by_cases package : isWord "package" t = true
    · exact keep local_packageClause fun s ts => by rw [step, if_pos package]
    · by_cases imports : isWord "import" t = true
      · exact keep local_importDeclaration fun s ts => by rw [step, if_neg package, if_pos imports]
      · rw [step, if_neg package, if_neg imports] at read
        have statements : Yields (do return Item.statement (← statement r)) fun it =>
            it.isPreamble = false := yields_notHead fun _ => rfl
        have other : it.isPreamble = false := by
          refine yields_ite ?_ (yields_ite ?_ statements) (t :: ts) it rest read
          · exact yields_notHead fun _ => rfl
          · exact yields_orElse (functionDeclaration_notHead r)
              (yields_orElse (methodDeclaration_notHead r) statements)
        rw [head] at other
        cases other

theorem of_locatedItem {r : Rules} {ts rest : List Lexeme} {located : Located}
    (read : locatedItem r ts = some (located, rest)) :
    item r ts = some (located.item, rest) ∧ located.span = taken ts rest := by
  obtain ⟨⟨⟨it, span⟩, left⟩, found, next⟩ := Option.bind_eq_some_iff.mp read
  obtain ⟨rfl, rfl⟩ := Prod.mk.inj (Option.some.inj next)
  unfold placed at found
  split at found
  · rename_i took
    obtain ⟨⟨rfl, rfl⟩, rfl⟩ := by simpa using found
    exact ⟨took, rfl⟩
  · cases found

theorem local_locatedItem {r : Rules} {ts rest : List Lexeme} {located : Located}
    (read : locatedItem r ts = some (located, rest)) (head : located.item.isPreamble = true) :
    ∃ t front, ts = t :: front ++ rest ∧
      located.span = ⟨t.span.start, ((t :: front).getLast (by simp)).span.stop⟩ ∧
      ∀ s after, locatedItem s (t :: front ++ after) = some (located, after) := by
  obtain ⟨it, span⟩ := located
  obtain ⟨took, rfl⟩ := of_locatedItem read
  obtain ⟨front, someFront, rfl, again⟩ := local_item took head
  obtain ⟨t, front, rfl⟩ := List.exists_cons_of_ne_nil someFront
  refine ⟨t, front, rfl, taken_append t front rest, fun s after => ?_⟩
  have placed : Parser.placed (item s) (t :: front ++ after) =
      some ((it, taken (t :: front ++ rest) rest), after) := by
    simp only [Parser.placed, again, taken_append]
  show (Parser.placed (item s) _).bind _ = _
  rw [placed]
  rfl

/-! ### The whole head -/

theorem taken_start (t : Lexeme) (ts rest : List Lexeme) :
    (taken (t :: ts) rest).start = t.span.start := by
  have inside : (t :: ts).length - rest.length - 1 < (t :: ts).length := by
    simp only [List.length_cons]
    omega
  simp only [taken, List.head?_cons, List.getElem?_eq_getElem inside]

theorem start_of_locatedItem {r : Rules} {t : Lexeme} {ts rest : List Lexeme} {located : Located}
    (read : locatedItem r (t :: ts) = some (located, rest)) :
    located.span.start = t.span.start := by
  rw [(of_locatedItem read).2]
  exact taken_start t ts rest

/-- What an item that is followed by a line feed or a semicolon adds to the items after it. -/
theorem items_cons {r : Rules} {fuel : Nat} {t : Lexeme} {ts rest left : List Lexeme}
    {located : Located} (more : t.kind ≠ .finish)
    (read : locatedItem r (t :: ts) = some (located, rest))
    (ends : terminator rest = some ((), left)) :
    items r (fuel + 1) (t :: ts) = Prod.map (located :: ·) id (items r fuel left) := by
  simp only [items, more, if_false, read, ends]
  rfl

/-- An item that nothing ends is the last one. -/
theorem items_last {r : Rules} {fuel : Nat} {t : Lexeme} {ts rest : List Lexeme}
    {located : Located} (more : t.kind ≠ .finish)
    (read : locatedItem r (t :: ts) = some (located, rest)) (ends : terminator rest = none) :
    (items r (fuel + 1) (t :: ts)).1 = [located] := by
  simp only [items, more, if_false, read, ends]

theorem items_none {r : Rules} {fuel : Nat} {t : Lexeme} {ts : List Lexeme}
    (read : locatedItem r (t :: ts) = none) : (items r fuel (t :: ts)).1 = [] := by
  cases fuel with
  | zero => simp [items]
  | succ fuel =>
    by_cases finished : t.kind = .finish <;> simp [items, finished, read]

/-- An item of the head that ends in the first lines takes nothing from the lines after them. -/
theorem locatedItem_head {r : Rules} {line : Nat} {t z : Lexeme} {head zs rest : List Lexeme}
    {located : Located} (read : locatedItem r (t :: head ++ z :: zs) = some (located, rest))
    (isHead : located.item.isPreamble = true) (stop : located.span.stop.line ≤ line)
    (below : ∀ t ∈ z :: zs, line < t.span.stop.line) :
    ∃ front left, head = front ++ left ∧ rest = left ++ z :: zs ∧
      ∀ s after, locatedItem s (t :: head ++ after) = some (located, left ++ after) := by
  obtain ⟨u, front, whole, span, again⟩ := local_locatedItem read isHead
  rw [span] at stop
  obtain ⟨left, split, restEq⟩ | ⟨left, split, restEq⟩ := List.append_eq_append_iff.mp whole
  · by_cases noneLeft : left = []
    · subst noneLeft
      obtain ⟨rfl, rfl⟩ : t = u ∧ head = front := by simpa [eq_comm] using split
      exact ⟨head, [], by simp, by simpa using restEq.symm, again⟩
    · have inRest : (u :: front).getLast (by simp) ∈ z :: zs := by
        rw [restEq]
        apply List.mem_append_left
        simp only [split]
        rw [List.getLast_append_of_ne_nil _ noneLeft]
        exact List.getLast_mem _
      have across := below _ inRest
      exact absurd stop (Nat.not_le_of_lt across)
  · obtain ⟨rfl, rfl⟩ : t = u ∧ head = front ++ left := by simpa using split
    refine ⟨front, left, rfl, restEq, fun s after => ?_⟩
    have reads := again s (left ++ after)
    rwa [← List.append_assoc] at reads

/-- Where an item stands on a later line, the first one is ended by something, and the later one is
among those that follow. -/
theorem exists_items_cons {r : Rules} {fuel line : Nat} {t : Lexeme} {ts : List Lexeme}
    (here : t.span.start.line ≤ line)
    (later : ∃ located ∈ (items r fuel (t :: ts)).1, line < located.span.start.line) :
    ∃ less located rest left, t.kind ≠ .finish ∧
      locatedItem r (t :: ts) = some (located, rest) ∧ terminator rest = some ((), left) ∧
      (items r fuel (t :: ts)).1 = located :: (items r less left).1 ∧
      ∃ located ∈ (items r less left).1, line < located.span.start.line := by
  obtain ⟨last, isLast, isLater⟩ := later
  cases fuel with
  | zero => cases isLast
  | succ fuel =>
    have more : t.kind ≠ .finish := by
      intro finished
      simp [items, finished] at isLast
    cases read : locatedItem r (t :: ts) with
    | none =>
      rw [items_none read] at isLast
      cases isLast
    | some found =>
      obtain ⟨located, rest⟩ := found
      have notFirst : last ≠ located := by
        rintro rfl
        rw [start_of_locatedItem read] at isLater
        exact absurd here (Nat.not_le_of_lt isLater)
      cases ends : terminator rest with
      | none =>
        rw [items_last more read ends] at isLast
        exact absurd (List.mem_singleton.mp isLast) notFirst
      | some found =>
        have step : (items r (fuel + 1) (t :: ts)).1 = located :: (items r fuel found.2).1 :=
          congrArg Prod.fst (items_cons more read ends)
        rw [step] at isLast
        exact ⟨fuel, located, rest, found.2, more, rfl, ends, step, last,
          (List.mem_cons.mp isLast).resolve_left notFirst, isLater⟩

/-- **The head of a file.** Where only items of the head start on the first lines, none of them is
ended by a semicolon, and an item follows on a later line, these lines are read in the same way
whatever follows on the next line. -/
theorem items_head {r : Rules} {fuel line : Nat} {t z : Lexeme} {head zs : List Lexeme}
    (within : ∀ u ∈ t :: head, u.span.start.line ≤ line)
    (noSemicolon : ∀ u ∈ t :: head, isOperator ";" u = false)
    (below : ∀ u ∈ z :: zs, line < u.span.stop.line)
    (heads : ∀ located ∈ (items r fuel (t :: head ++ z :: zs)).1, located.item.isPreamble = true →
      located.span.stop.line ≤ line)
    (others : ∀ located ∈ (items r fuel (t :: head ++ z :: zs)).1, located.item.isPreamble = false →
      line < located.span.start.line)
    (later : ∃ located ∈ (items r fuel (t :: head ++ z :: zs)).1, line < located.span.start.line) :
    ∃ first : List Located, (∀ located ∈ first, located.item.isPreamble = true) ∧
      first.length ≤ head.length + 1 ∧
      ∀ s fuel y ys, y.afterNewline = true → first.length ≤ fuel →
        items s fuel (t :: head ++ y :: ys) =
          Prod.map (first ++ ·) id (items s (fuel - first.length) (y.inLine :: ys)) := by
  induction size : head.length using Nat.strongRecOn generalizing t head fuel with
  | ind n ih =>
    subst size
    have here := within t (List.mem_cons_self ..)
    obtain ⟨less, located, rest, ending, more, read, ends, step, later⟩ :=
      exists_items_cons here later
    have step : (items r fuel (t :: head ++ z :: zs)).1 = located :: (items r less ending).1 := step
    rw [step, List.forall_mem_cons] at heads others
    have isHead : located.item.isPreamble = true := by
      by_contra notHead
      have after := others.1 (by simpa using notHead)
      rw [start_of_locatedItem read] at after
      exact absurd here (Nat.not_le_of_lt after)
    obtain ⟨front, left, rfl, rfl, again⟩ := locatedItem_head read isHead (heads.1 isHead) below
    cases left with
    | nil =>
      refine ⟨[located], by simpa using isHead, by simp, ?_⟩
      intro s fuel y ys newline enough
      obtain ⟨fuel, rfl⟩ := Nat.exists_eq_add_of_le' enough
      exact items_cons more (again s (y :: ys)) (terminator_of_afterNewline newline ys)
    | cons v left =>
      have noEnd := noSemicolon v (by simp)
      have flag : v.afterNewline = true := by
        by_contra noFlag
        simp [terminator, noFlag, noEnd] at ends
      have ended (rest : List Lexeme) := terminator_of_afterNewline flag (left ++ rest)
      obtain rfl : v.inLine :: left ++ z :: zs = ending := by
        simpa using (ended (z :: zs)).symm.trans ends
      have inside (u : Lexeme) (member : u ∈ left) : u ∈ t :: (front ++ v :: left) := by
        simp [member]
      have within : ∀ u ∈ v.inLine :: left, u.span.start.line ≤ line := by
        rw [List.forall_mem_cons]
        exact ⟨within v (by simp), fun u member => within u (inside u member)⟩
      have noSemicolon : ∀ u ∈ v.inLine :: left, isOperator ";" u = false := by
        rw [List.forall_mem_cons]
        exact ⟨noEnd, fun u member => noSemicolon u (inside u member)⟩
      obtain ⟨first, allHead, few, reads⟩ := ih left.length (by simp; omega) within noSemicolon
        heads.2 others.2 later rfl
      refine ⟨located :: first, List.forall_mem_cons.mpr ⟨isHead, allHead⟩, ?_, ?_⟩
      · simp only [List.length_cons, List.length_append]
        omega
      · intro s fuel y ys newline enough
        obtain ⟨fuel, rfl⟩ := Nat.exists_eq_add_of_le' (Nat.le_trans
          (Nat.le_add_left 1 first.length) enough)
        have step : items s (fuel + 1) (t :: (front ++ v :: left) ++ y :: ys) =
            Prod.map (located :: ·) id (items s fuel (v.inLine :: left ++ y :: ys)) :=
          items_cons more (again s (y :: ys)) (ended _)
        simp only [List.length_cons, Nat.add_le_add_iff_right] at enough
        rw [reads s fuel y ys newline enough] at step
        rw [step, Prod.map_map, List.length_cons, Nat.add_sub_add_right]
        rfl

end Grammar

end Prefill.Go
