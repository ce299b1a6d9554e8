import Prefill.Go.Source

/-!
Names of functions. Lexemes that are words are identifiers, so whatever the grammar reads as a
function has an identifier for a name (`item_yields`), and every function that a file declares
declares that one name (`exists_name_of_function`).

What a parser reads is described by `Yields`, which passes through the ways to combine parsers.
-/

namespace Prefill

open Text

namespace Text

/-- The characters of an identifier are letters, digits, underscores or beyond ASCII. -/
theorem isIdentifierPart_of_mem {name : Text} (h : isIdentifier name = true) {c : Char}
    (member : c ∈ name) : isIdentifierStart c = true ∨ isIdentifierPart c = true := by
  cases name with
  | nil => cases member
  | cons first rest =>
    simp only [isIdentifier, Bool.and_eq_true, List.all_eq_true] at h
    obtain rfl | member := List.mem_cons.mp member
    · exact .inl h.1
    · exact .inr (h.2 c member)

theorem not_mem_identifier {name : Text} (h : isIdentifier name = true) {c : Char}
    (start : isIdentifierStart c = false) (part : isIdentifierPart c = false) : c ∉ name := by
  intro member
  obtain starts | continues := isIdentifierPart_of_mem h member
  · simp [start] at starts
  · simp [part] at continues

end Text

namespace Go

namespace Parser

variable {α β : Type}

/-- Whatever a parser reads is of a kind. -/
def Yields (p : Parser α) (P : α → Prop) : Prop := ∀ ts a rest, p ts = some (a, rest) → P a

theorem yields_true (p : Parser α) : Yields p fun _ => True := fun _ _ _ _ => trivial

theorem yields_pure {P : α → Prop} {a : α} (h : P a) : Yields (pure a) P := by
  rintro ts _ _ ⟨⟩
  exact h

theorem yields_bind {p : Parser α} {next : α → Parser β} {P : α → Prop} {Q : β → Prop}
    (first : Yields p P) (second : ∀ a, P a → Yields (next a) Q) : Yields (p >>= next) Q := by
  intro ts b rest read
  obtain ⟨⟨a, left⟩, found, read⟩ := Option.bind_eq_some_iff.mp read
  exact second a (first ts a left found) left b rest read

/-- A part of a parser that does not matter for the result. -/
theorem yields_after {p : Parser α} {next : α → Parser β} {Q : β → Prop}
    (second : ∀ a, Yields (next a) Q) : Yields (p >>= next) Q :=
  yields_bind (yields_true p) fun a _ => second a

theorem yields_orElse {p q : Parser α} {P : α → Prop} (first : Yields p P) (second : Yields q P) :
    Yields (p <|> q) P := by
  intro ts a rest read
  have either : (p ts).orElse (fun _ => q ts) = some (a, rest) := read
  cases found : p ts with
  | some result => exact first ts a rest (by simpa [found] using either)
  | none => exact second ts a rest (by simpa [found] using either)

theorem yields_ite {p q : Parser α} {P : α → Prop} {condition : Prop} [Decidable condition]
    (first : Yields p P) (second : Yields q P) : Yields (if condition then p else q) P := by
  split
  · exact first
  · exact second

theorem yields_accept {wanted : Lexeme → Bool} :
    Yields (accept wanted) fun t => wanted t = true := by
  intro ts t rest read
  cases ts with
  | nil => cases read
  | cons first more =>
    simp only [accept] at read
    split at read
    · obtain ⟨rfl, rfl⟩ := by simpa using read
      assumption
    · cases read

theorem yields_word : Yields word fun name => isIdentifier name = true := by
  refine yields_bind yields_accept fun t isWord => yields_pure ?_
  exact t.identifier (by simpa using isWord)

theorem yields_placed {p : Parser α} {P : α → Prop} (h : Yields p P) :
    Yields (placed p) fun found => P found.1 := by
  intro ts found rest read
  unfold placed at read
  split at read
  · rename_i a left parsed
    obtain ⟨rfl, rfl⟩ := by simpa using read
    exact h ts a left parsed
  · cases read

theorem yields_possibly {p : Parser α} {P : α → Prop} (h : Yields p P) :
    Yields (possibly p) fun found => ∀ a, found = some a → P a := by
  intro ts found rest read a isSome
  subst isSome
  unfold possibly at read
  split at read
  · rename_i parsed
    obtain ⟨rfl, rfl⟩ := by simpa using read
    exact h _ _ _ parsed
  · simp at read

theorem yields_repeatUpTo {p : Parser α} {P : α → Prop} (h : Yields p P) (fuel : Nat) :
    Yields (repeatUpTo p fuel) fun found => ∀ a ∈ found, P a := by
  induction fuel with
  | zero => exact yields_pure (by simp)
  | succ fuel ih =>
    intro ts found rest read
    unfold repeatUpTo at read
    split at read
    · obtain ⟨rfl, -⟩ := by simpa using read
      simp
    · rename_i a left parsed
      have first := h ts a left parsed
      split at read
      · split at read
        · rename_i more _ again
          obtain ⟨rfl, rfl⟩ := by simpa using read
          exact List.forall_mem_cons.mpr ⟨first, ih _ _ _ again⟩
        · obtain ⟨rfl, -⟩ := by simpa using read
          simpa using first
      · obtain ⟨rfl, -⟩ := by simpa using read
        simp

theorem yields_separated {separator : Parser Unit} {p : Parser α} {P : α → Prop} (h : Yields p P) :
    Yields (separated separator p) fun found => ∀ a ∈ found, P a := by
  have more : Yields (many do separator; p) fun found => ∀ a ∈ found, P a := by
    intro ts
    exact yields_repeatUpTo (yields_after fun _ => h) ts.length ts
  refine yields_bind h fun first isFirst => yields_bind more fun others areOthers => yields_pure ?_
  exact List.forall_mem_cons.mpr ⟨isFirst, areOthers⟩

theorem yields_listed {opening closing : String} {p : Parser α} {P : α → Prop} (h : Yields p P) :
    Yields (listed opening closing p) fun found => ∀ a ∈ found, P a := by
  refine yields_after fun _ => yields_bind (yields_possibly (yields_separated h)) fun items all => ?_
  have rest : Yields (do operator closing; return items.getD []) fun found => ∀ a ∈ found, P a := by
    refine yields_after fun _ => yields_pure ?_
    cases items with
    | none => simp
    | some items => exact all items rfl
  dsimp only
  split
  · exact yields_after fun _ => rest
  · exact yields_after fun _ => rest

end Parser

open Prefill.Go.Parser

namespace Grammar

/-- An item that is a function has an identifier for a name. -/
def Named (item : Item) : Prop := ∀ f, item = .function f → isIdentifier f.name = true

theorem functionDeclaration_yields (r : Rules) : Yields (functionDeclaration r) Named := by
  refine yields_after fun _ => yields_bind yields_word fun name isName => yields_after fun _ => ?_
  dsimp only
  split
  all_goals
    refine yields_after fun _ => yields_after fun _ => yields_after fun _ => yields_pure ?_
    rintro f ⟨⟩
    exact isName

theorem methodDeclaration_yields (r : Rules) : Yields (methodDeclaration r) Named := by
  refine yields_after fun _ => yields_after fun _ => yields_bind yields_word fun name isName => ?_
  refine yields_after fun _ => yields_after fun _ => yields_pure ?_
  rintro f ⟨⟩
  exact isName

theorem yields_named_of_pure {α : Type} {p : Parser α} {make : α → Item}
    (h : ∀ a f, make a ≠ .function f) : Yields (do return make (← p)) Named := by
  refine yields_after fun a => yields_pure ?_
  intro f eq
  exact absurd eq (h a f)

theorem item_yields (r : Rules) : Yields (item r) Named := by
  have statements : Yields (do return Item.statement (← statement r)) Named :=
    yields_named_of_pure nofun
  refine yields_after fun t => ?_
  refine yields_ite ?_ (yields_ite ?_ (yields_ite ?_ (yields_ite ?_ ?_)))
  · exact yields_after fun _ => yields_named_of_pure nofun
  · refine yields_after fun _ => yields_after fun _ => yields_ite ?_ ?_
    · exact yields_named_of_pure nofun
    · exact yields_named_of_pure nofun
  · exact yields_named_of_pure nofun
  · exact yields_orElse (functionDeclaration_yields r)
      (yields_orElse (methodDeclaration_yields r) statements)
  · exact statements

/-- What is true of whatever may stand at the top level is true of the items of a file. -/
theorem items_yield {r : Rules} {P : Item → Prop} (h : Yields (item r) P) (fuel : Nat)
    (ts : List Lexeme) : ∀ located ∈ (items r fuel ts).1, P located.item := by
  have one : Yields (locatedItem r) fun located => P located.item :=
    yields_bind (yields_placed h) fun found holds => yields_pure holds
  induction fuel generalizing ts with
  | zero => cases ts <;> simp [items]
  | succ fuel ih =>
    cases ts with
    | nil => simp [items]
    | cons t ts =>
      rw [items]
      split
      · simp
      · split
        · simp
        · rename_i located rest found
          have holds := one _ _ _ found
          split
          · rename_i left _
            simpa using ⟨holds, ih left⟩
          · simpa using holds

end Grammar

/-! ## Declarations of a file -/

theorem mem_declarationsFrom {source : Text} {comments : List Comment} {after : Nat}
    {items : List Located} {d : Declaration}
    (h : d ∈ declarationsFrom source comments after items) :
    ∃ located ∈ items, ∃ doc, d ∈ located.item.declarations source located.span doc := by
  induction items generalizing after with
  | nil => simp [declarationsFrom] at h
  | cons located rest ih =>
    obtain member | member := List.mem_append.mp h
    · exact ⟨located, by simp, _, member⟩
    · obtain ⟨other, inside, declared⟩ := ih member
      exact ⟨other, List.mem_cons_of_mem _ inside, declared⟩

theorem kind_of_mem_declarations {source : Text} {decl : Decl} {span : Span} {doc : Option Text}
    {d : Declaration} (h : d ∈ decl.declarations source span doc) : d.kind ≠ .function := by
  have kind : d.kind = decl.specs.1 := by
    unfold Decl.declarations at h
    dsimp only at h
    split at h
    · cases h
    · split at h
      · obtain rfl | member := List.mem_cons.mp h
        · rfl
        · obtain ⟨spec, -, rfl⟩ := List.mem_map.mp member
          rfl
      · obtain rfl := List.mem_singleton.mp h
        rfl
  rw [kind]
  cases decl <;> simp [Decl.specs]

/-- **A function declares one name,** which is an identifier. -/
theorem exists_name_of_function {text : Text} {d : Declaration}
    (h : d ∈ (Source.ofText text).declarations) (function : d.kind = .function) :
    ∃ name, d.names = [name] ∧ isIdentifier name = true := by
  obtain ⟨located, member, doc, declared⟩ := mem_declarationsFrom h
  have named := Grammar.items_yield (Grammar.item_yields _) _ _ located member
  cases item : located.item with
  | function f =>
    rw [item] at declared
    obtain rfl := List.mem_singleton.mp declared
    exact ⟨f.name, rfl, named f item⟩
  | declaration decl =>
    rw [item] at declared
    exact absurd function (kind_of_mem_declarations declared)
  | package name => simp [item, Item.declarations] at declared
  | imports lines => simp [item, Item.declarations] at declared
  | statement term => simp [item, Item.declarations] at declared

end Go

end Prefill
