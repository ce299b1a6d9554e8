import Prefill.Proofs.Colons

/-!
Placeholders in normal form. A placeholder comment can be written with blanks around its arguments,
with empty arguments, and with blanks after the sign of an expression. All that is left out when its
name and its arguments are written again (`canonical`), and the comment that this gives is read as
the same name with the same arguments (`canonical_read_back`).

* `ofText_render`: an argument is read back from how it is written;
* `parse_join_render`: so are the arguments of a placeholder;
* `classify?_of_dotted`: so is a comment with a name and arguments.
-/

namespace Prefill

open Text

namespace Text

theorem mem_of_mem_trim {text : Text} {c : Char} (member : c ∈ trim text) : c ∈ text := by
  obtain ⟨lead, trail, whole, -, -⟩ := exists_trim_around text
  rw [whole]
  simp [member]

theorem solid_last {tail : Text} {mark : Char} (solid : isBlank mark = false)
    (last : ∀ c ∈ tail.getLast?, isBlank c = false) (front : Text) :
    ∀ c ∈ (front ++ mark :: tail).getLast?, isBlank c = false := by
  intro c isLast
  rw [List.getLast?_append, List.getLast?_cons, Option.some_or] at isLast
  cases inner : tail.getLast? with
  | none =>
    rw [inner] at isLast
    obtain rfl : mark = c := Option.some.inj isLast
    exact solid
  | some d =>
    rw [inner] at isLast
    obtain rfl : d = c := Option.some.inj isLast
    exact last d inner

end Text

namespace Argument

/-! ### Writing one argument -/

theorem ofText_equals {text expression : Text} (h : trim text = '=' :: expression) :
    ofText text = .raw (trim expression) := by
  simp only [ofText, h]

theorem render_ofText_of_ne {text : Text} (h : ∀ expression, trim text ≠ '=' :: expression) :
    render (ofText text) = trim text := by
  unfold ofText
  dsimp only
  split
  · rename_i expression shown
    exact absurd shown (h expression)
  · repeat' split
    all_goals rfl

/-- An argument is written as its text without the blanks around it, and without those after the
sign of an expression. -/
theorem render_ofText (text : Text) :
    (∃ expression, trim text = '=' :: expression ∧ ofText text = .raw (trim expression)) ∨
      render (ofText text) = trim text := by
  by_cases sign : ∃ expression, trim text = '=' :: expression
  · obtain ⟨expression, shown⟩ := sign
    exact .inl ⟨expression, shown, ofText_equals shown⟩
  · exact .inr (render_ofText_of_ne fun expression shown => sign ⟨expression, shown⟩)

theorem ofText_trim (text : Text) : ofText (trim text) = ofText text := by
  unfold ofText
  rw [trim_trim]

theorem trimmed_equals (expression : Text) : Trimmed ('=' :: trim expression) := by
  have sign : isBlank '=' = false := by decide
  exact ⟨by simpa using sign, solid_last sign (trimmed_trim expression).last []⟩

/-- **One argument** is read back from how it is written. -/
theorem ofText_render (text : Text) : ofText (render (ofText text)) = ofText text := by
  obtain ⟨expression, -, isRaw⟩ | same := render_ofText text
  · have again : trim ('=' :: trim expression) = '=' :: trim expression :=
      (trimmed_equals expression).trim_eq
    rw [isRaw, render]
    unfold ofText
    rw [again]
    exact congrArg Argument.raw (trim_trim expression)
  · rw [same, ofText_trim]

theorem trimmed_render (text : Text) : Trimmed (render (ofText text)) := by
  obtain ⟨expression, -, isRaw⟩ | same := render_ofText text
  · rw [isRaw]
    exact trimmed_equals expression
  · rw [same]
    exact trimmed_trim text

theorem render_ne_nil {text : Text} (h : trim text ≠ []) : render (ofText text) ≠ [] := by
  obtain ⟨expression, -, isRaw⟩ | same := render_ofText text
  · rw [isRaw]
    exact List.cons_ne_nil _ _
  · rwa [same]

theorem mem_of_mem_render {text : Text} {c : Char} (member : c ∈ render (ofText text)) :
    c ∈ text := by
  obtain ⟨expression, shown, isRaw⟩ | same := render_ofText text
  · rw [isRaw, render] at member
    apply mem_of_mem_trim
    rw [shown]
    exact (List.mem_cons.mp member).elim (fun sign => by simp [sign])
      fun inner => List.mem_cons_of_mem _ (mem_of_mem_trim inner)
  · rw [same] at member
    exact mem_of_mem_trim member

/-! ### Writing all arguments -/

theorem through?_equals (expression : Text) :
    Scan.fresh.through? ('=' :: expression) = Scan.fresh.through? expression :=
  Scan.through?_cons_of_notMem rfl (by decide) expression

theorem Uncut.render {text : Text} (h : Uncut text) : Uncut (render (ofText text)) := by
  obtain ⟨expression, shown, isRaw⟩ | same := render_ofText text
  · have trimmed := h.trim
    rw [shown, Uncut, through?_equals] at trimmed
    rw [isRaw, Argument.render, Uncut, through?_equals]
    exact Uncut.trim trimmed
  · rw [same]
    exact h.trim

theorem Balanced.render {text : Text} (h : Balanced text) : Balanced (render (ofText text)) := by
  obtain ⟨expression, shown, isRaw⟩ | same := render_ofText text
  · have trimmed := h.trim
    rw [shown, Balanced, through?_equals] at trimmed
    rw [isRaw, Argument.render, Balanced, through?_equals]
    exact Balanced.trim trimmed
  · rw [same]
    exact h.trim

theorem exists_of_mem_split {piece tail : Text} (member : piece ∈ split tail) :
    (∃ cut ∈ cutAtColons .fresh tail, piece = trim cut) ∧ piece ≠ [] := by
  obtain ⟨inside, someText⟩ := List.mem_filter.mp member
  obtain ⟨cut, isCut, rfl⟩ := List.mem_map.mp inside
  exact ⟨⟨cut, isCut, rfl⟩, by simpa using someText⟩

/-- The written forms of the arguments of a placeholder. -/
theorem split_join_render (tail : Text) :
    split (joinWith ":" ((parse tail).map render)) = (parse tail).map render := by
  have written : (parse tail).map render = (split tail).map fun piece => render (ofText piece) := by
    rw [parse, List.map_map]
    rfl
  rw [written]
  apply split_join ((strung_split tail).map (fun _ => Uncut.render) fun _ => Balanced.render)
  intro text member
  obtain ⟨piece, isPiece, rfl⟩ := List.mem_map.mp member
  obtain ⟨⟨cut, -, rfl⟩, someText⟩ := exists_of_mem_split isPiece
  refine ⟨trimmed_render _, render_ne_nil ?_⟩
  rwa [trim_trim]

/-- **All arguments** are read back from how they are written. -/
theorem parse_join_render (tail : Text) :
    parse (joinWith ":" ((parse tail).map render)) = parse tail := by
  rw [parse, split_join_render, parse, List.map_map, List.map_map]
  exact List.map_congr_left fun piece _ => ofText_render piece

theorem mem_of_mem_cutAtColons {scan : Scan} {tail piece : Text} {c : Char}
    (isPiece : piece ∈ cutAtColons scan tail) (member : c ∈ piece) : c ∈ tail := by
  induction tail generalizing scan piece with
  | nil =>
    obtain rfl := List.mem_singleton.mp isPiece
    cases member
  | cons d rest ih =>
    rw [cutAtColons] at isPiece
    split at isPiece
    · obtain rfl | later := List.mem_cons.mp isPiece
      · cases member
      · exact List.mem_cons_of_mem _ (ih later member)
    · split at isPiece
      · obtain rfl := List.mem_singleton.mp isPiece
        exact List.mem_cons.mpr (.inl (List.mem_singleton.mp member))
      · rename_i first more cut
        obtain rfl | later := List.mem_cons.mp isPiece
        · exact (List.mem_cons.mp member).elim (fun same => by simp [same])
            fun inner => List.mem_cons_of_mem _ (ih (by rw [cut]; simp) inner)
        · exact List.mem_cons_of_mem _ (ih (by rw [cut]; simp [later]) member)

theorem mem_joinWith {parts : List Text} {c : Char} (member : c ∈ joinWith ":" parts) :
    c = ':' ∨ ∃ part ∈ parts, c ∈ part := by
  induction parts with
  | nil => cases member
  | cons part more ih =>
    cases more with
    | nil =>
      rw [joinWith, List.intercalate_singleton] at member
      exact .inr ⟨part, by simp, member⟩
    | cons next more =>
      rw [joinWith_cons_cons, List.mem_append, List.mem_cons] at member
      obtain here | rfl | later := member
      · exact .inr ⟨part, by simp, here⟩
      · exact .inl rfl
      · obtain colon | ⟨other, isPart, inside⟩ := ih later
        · exact .inl colon
        · exact .inr ⟨other, List.mem_cons_of_mem _ isPart, inside⟩

/-- Writing the arguments adds nothing but colons. -/
theorem mem_join_render {tail : Text} {c : Char}
    (member : c ∈ joinWith ":" ((parse tail).map render)) : c = ':' ∨ c ∈ tail := by
  obtain colon | ⟨text, isText, inside⟩ := mem_joinWith member
  · exact .inl colon
  · obtain ⟨argument, isArgument, rfl⟩ := List.mem_map.mp isText
    obtain ⟨piece, isPiece, rfl⟩ := List.mem_map.mp isArgument
    obtain ⟨⟨cut, isCut, rfl⟩, -⟩ := exists_of_mem_split isPiece
    exact .inr (mem_of_mem_cutAtColons isCut (mem_of_mem_trim (mem_of_mem_render inside)))

theorem getLast?_joinWith {parts : List Text} (trimmed : ∀ part ∈ parts, Trimmed part) :
    ∀ c ∈ (joinWith ":" parts).getLast?, isBlank c = false := by
  induction parts with
  | nil => simp [joinWith]
  | cons part more ih =>
    rw [List.forall_mem_cons] at trimmed
    cases more with
    | nil =>
      rw [joinWith, List.intercalate_singleton]
      exact trimmed.1.last
    | cons next more =>
      rw [joinWith_cons_cons]
      exact solid_last (by decide) (ih trimmed.2) part

end Argument

namespace Marker

/-! ### Names -/

/-- What follows the first word of a name: words, each after a point. -/
inductive Pointed : Text → Prop
  | nil : Pointed []
  | cons {word more : Text} (isWord : IsWord word) (rest : Pointed more) :
      Pointed ('.' :: (word ++ more))

/-- Words joined by points. -/
def Dotted (name : Text) : Prop :=
  ∃ word more, name = word ++ more ∧ IsWord word ∧ Pointed more

theorem IsWord.word?_append {word tail : Text} (h : IsWord word)
    (ends : ∀ c ∈ tail.head?, isAsciiWordPart c = false) :
    word? (word ++ tail) = some (word, tail) := by
  obtain ⟨c, body, rfl, start, parts⟩ := h
  have stops : tail.takeWhile isAsciiWordPart = [] ∧ tail.dropWhile isAsciiWordPart = tail := by
    cases tail with
    | nil => exact ⟨rfl, rfl⟩
    | cons d tail => simp [ends d rfl]
  rw [List.cons_append, word?, if_pos start, List.takeWhile_append_of_pos parts,
    List.dropWhile_append_of_pos parts, stops.1, stops.2, List.append_nil]

theorem pointed_moreWords (fuel : Nat) (text : Text) : Pointed (moreWords fuel text).1 := by
  induction fuel generalizing text with
  | zero => exact .nil
  | succ fuel ih =>
    by_cases point : ∃ rest, text = '.' :: rest
    · obtain ⟨rest, rfl⟩ := point
      rw [moreWords]
      split
      · rename_i word tail found
        exact .cons (isWord_of_word? found) (ih tail)
      · exact .nil
    · rw [moreWords]
      · exact .nil
      · intro rest shown
        exact point ⟨rest, shown⟩

theorem Pointed.ends {more : Text} (h : Pointed more) (tail : Text) :
    ∀ c ∈ (more ++ ':' :: tail).head?, isAsciiWordPart c = false := by
  intro c first
  cases h with
  | nil =>
    obtain rfl : ':' = c := Option.some.inj first
    decide
  | cons isWord rest =>
    obtain rfl : '.' = c := Option.some.inj first
    decide

theorem Pointed.moreWords_append {more : Text} (h : Pointed more) {fuel : Nat}
    (enough : more.length ≤ fuel) (tail : Text) :
    moreWords fuel (more ++ ':' :: tail) = (more, ':' :: tail) := by
  induction h generalizing fuel with
  | nil => cases fuel <;> rfl
  | @cons word more isWord rest ih =>
    rw [List.length_cons, List.length_append] at enough
    obtain ⟨fuel, rfl⟩ : ∃ less, fuel = less + 1 := ⟨fuel - 1, by omega⟩
    have next : word? (word ++ (more ++ ':' :: tail)) = some (word, more ++ ':' :: tail) :=
      isWord.word?_append (rest.ends tail)
    rw [List.cons_append, List.append_assoc, moreWords, next]
    have left : more.length ≤ fuel := by omega
    simp only [ih left]
    rfl

theorem dotted_of_dottedName? {text name rest : Text} (h : dottedName? text = some (name, rest)) :
    Dotted name := by
  obtain ⟨⟨word, left⟩, found, shown⟩ := Option.map_eq_some_iff.mp h
  obtain ⟨rfl, -⟩ := Prod.mk.inj shown
  exact ⟨word, _, rfl, isWord_of_word? found, pointed_moreWords _ _⟩

/-- A name is read up to the colon after it. -/
theorem Dotted.dottedName?_append {name : Text} (h : Dotted name) (tail : Text) :
    dottedName? (name ++ ':' :: tail) = some (name, ':' :: tail) := by
  obtain ⟨word, more, rfl, isWord, pointed⟩ := h
  have first : word? (word ++ (more ++ ':' :: tail)) = some (word, more ++ ':' :: tail) :=
    isWord.word?_append (pointed.ends tail)
  have enough : more.length ≤ (more ++ ':' :: tail).length := by simp
  have rest := pointed.moreWords_append enough tail
  rw [List.append_assoc, dottedName?, first, Option.map_some]
  simp only [rest]

theorem IsWord.colon_notMem {word : Text} (h : IsWord word) : ':' ∉ word := by
  obtain ⟨c, body, rfl, start, parts⟩ := h
  rw [List.mem_cons, not_or]
  constructor
  · rintro rfl
    exact absurd start (by decide)
  · intro member
    exact absurd (parts _ member) (by decide)

theorem Dotted.colon_notMem {name : Text} (h : Dotted name) : ':' ∉ name := by
  obtain ⟨word, more, rfl, isWord, pointed⟩ := h
  have rest : ':' ∉ more := by
    induction pointed with
    | nil => simp
    | cons isWord _ ih => simp [isWord.colon_notMem, ih]
  simp [isWord.colon_notMem, rest]

/-! ### Comments -/

/-- What a placeholder is made of. -/
theorem dotted_of_classify? {line name tail : Text}
    (h : classify? line = some (.placeholder name tail)) :
    Dotted name ∧ name ≠ "inject".toList ∧ '\n' ∉ tail := by
  obtain ⟨comment, -, h⟩ := Option.bind_eq_some_iff.mp h
  split at h
  · cases h
  · obtain ⟨⟨found, arguments⟩, reads, h⟩ := Option.bind_eq_some_iff.mp h
    dsimp only at h
    split at h
    · cases h
    · rename_i notInject
      obtain ⟨rfl, rfl⟩ := Marker.placeholder.inj (Option.some.inj h)
      obtain ⟨after, -, reads⟩ := Option.bind_eq_some_iff.mp reads
      obtain ⟨⟨word, rest⟩, isName, reads⟩ := Option.bind_eq_some_iff.mp reads
      have dotted := dotted_of_dottedName? isName
      dsimp only at reads
      split at reads
      · obtain ⟨rfl, rfl⟩ := Prod.mk.inj (Option.some.inj reads)
        exact ⟨dotted, notInject, by simp⟩
      · split at reads
        · cases reads
        · rename_i oneLine
          obtain ⟨rfl, rfl⟩ := Prod.mk.inj (Option.some.inj reads)
          exact ⟨dotted, notInject, oneLine⟩
      · cases reads

/-- A name that is not `inject` asks for no injection. -/
theorem injection?_of_dotted {name : Text} (dotted : Dotted name)
    (notInject : name ≠ "inject".toList) (tail : Text) :
    injection? (':' :: (name ++ ':' :: tail)) = none := by
  have other : after? ":inject:" (':' :: (name ++ ':' :: tail)) = none := by
    apply Option.eq_none_iff_forall_ne_some.mpr
    intro rest found
    have shown : ':' :: (name ++ ':' :: tail) = ":inject:".toList ++ rest :=
      strip?_eq_some_iff.mp found
    have lead : ":inject:".toList ++ rest = ':' :: ("inject".toList ++ ':' :: rest) := by
      simp
    rw [lead, List.cons.injEq] at shown
    apply notInject
    -- Both names stand before the first colon.
    have front := congrArg (List.takeWhile (· != ':')) shown.2
    have inside : ∀ c ∈ name, (c != ':') = true := by
      intro c member
      rw [bne_iff_ne]
      rintro rfl
      exact dotted.colon_notMem member
    have word : ∀ c ∈ "inject".toList, (c != ':') = true := List.all_eq_true.mp (by decide)
    rw [List.takeWhile_append_of_pos inside, List.takeWhile_append_of_pos word] at front
    simpa using front
  rw [injection?, other]
  rfl

/-- **A comment** with a name and arguments is read as a placeholder. -/
theorem classify?_of_dotted {name tail : Text} (dotted : Dotted name)
    (notInject : name ≠ "inject".toList) (oneLine : '\n' ∉ tail)
    (ends : ∀ c ∈ tail.getLast?, isBlank c = false) :
    classify? ('/' :: '/' :: ':' :: (name ++ ':' :: tail)) = some (.placeholder name tail) := by
  have last : ∀ c ∈ ('/' :: '/' :: ':' :: (name ++ ':' :: tail)).getLast?, isBlank c = false :=
    solid_last (by decide) ends ('/' :: '/' :: ':' :: name)
  have comment : comment? ('/' :: '/' :: ':' :: (name ++ ':' :: tail)) =
      some (':' :: (name ++ ':' :: tail)) := rfl
  have reads : placeholder? (':' :: (name ++ ':' :: tail)) = some (name, tail) := by
    have colon : after? ":" (':' :: (name ++ ':' :: tail)) = some (name ++ ':' :: tail) := rfl
    simp [placeholder?, colon, dotted.dottedName?_append tail, oneLine]
  have noMethod := injection?_of_dotted dotted notInject tail
  rw [classify?, trimEnd_of_last last, comment]
  simp only [Option.bind_eq_bind, Option.bind_some, noMethod, reads, if_neg notInject]

/-- A placeholder comment with nothing in it but a name and arguments. -/
def canonical (name : Text) (arguments : List Argument) : Text :=
  '/' :: '/' :: ':' :: (name ++ ':' :: joinWith ":" (arguments.map Argument.render))

/-- **Placeholders have a normal form.** The name and the arguments of a placeholder, written as a
comment, are read as a placeholder with this name and these arguments. -/
theorem canonical_read_back {line name tail : Text}
    (h : classify? line = some (.placeholder name tail)) :
    ∃ again, classify? (canonical name (Argument.parse tail)) = some (.placeholder name again) ∧
      Argument.parse again = Argument.parse tail := by
  obtain ⟨dotted, notInject, oneLine⟩ := dotted_of_classify? h
  refine ⟨_, ?_, Argument.parse_join_render tail⟩
  apply classify?_of_dotted dotted notInject
  · intro feed
    obtain colon | inside := Argument.mem_join_render feed
    · exact absurd colon (by decide)
    · exact oneLine inside
  · apply Argument.getLast?_joinWith
    intro text member
    obtain ⟨argument, isArgument, rfl⟩ := List.mem_map.mp member
    obtain ⟨piece, -, rfl⟩ := List.mem_map.mp isArgument
    exact Argument.trimmed_render piece

theorem join_read_back :
    classify? "  // :strings.Join: 'a:b' :: = f(x, \":\") : \"open ".toList =
        some (.placeholder "strings.Join".toList " 'a:b' :: = f(x, \":\") : \"open".toList) ∧
      canonical "strings.Join".toList
          (Argument.parse " 'a:b' :: = f(x, \":\") : \"open".toList) =
        "//:strings.Join:'a:b':=f(x, \":\"):\"open".toList ∧
      ∃ again, classify? (canonical "strings.Join".toList
            (Argument.parse " 'a:b' :: = f(x, \":\") : \"open".toList)) =
          some (.placeholder "strings.Join".toList again) ∧
        Argument.parse again = Argument.parse " 'a:b' :: = f(x, \":\") : \"open".toList :=
  have reads : classify? "  // :strings.Join: 'a:b' :: = f(x, \":\") : \"open ".toList =
      some (.placeholder "strings.Join".toList " 'a:b' :: = f(x, \":\") : \"open".toList) := by
    decide
  ⟨reads, by decide, canonical_read_back reads⟩

end Marker

end Prefill
