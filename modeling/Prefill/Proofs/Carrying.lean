import Prefill.Proofs.Packages
import Prefill.Proofs.Reflow

/-!
What is known of a file after an edit. Injection asks three things of a file: which keys its
declarations take, which interface stands below a marker, and what it imports. An edit carries these
over (`Carried`) when they are the same again, with lines at new places, and brings in no error.

* `carried_tidy`: taking regions out of a file that they were put into, if nothing runs across the
  line ends where they stood (`Clear`);
* `carried_below`: lines of imports below the head.
-/

namespace Prefill

open Text

namespace Go

open Lexeme Region

/-! ### Keys of items -/

/-- The parameters of a method's receiver. -/
def Item.receiver : Item → List Param
  | .function f => f.receiver.getD []
  | _ => []

/-- The keys of what an item declares. -/
def Item.keys (source : Text) : Item → List Text
  | .function f =>
    match f.receiver.bind (receiverType source) with
    | some type => [type ++ '.' :: f.name]
    | none => [f.name].filter (· ≠ ['_'])
  | .declaration d => (d.specs.2.2.flatMap (·.names)).filter (· ≠ ['_'])
  | _ => []

theorem keys_specDeclaration (kind : DeclarationKind) (span : Span) (text : Text)
    (doc : Option Text) (specs : List Spec) :
    (specDeclaration kind span text doc specs).keys =
      (specs.flatMap (·.names)).filter (· ≠ ['_']) := by
  cases kind <;> rfl

theorem keys_declarations (source : Text) (span : Span) (doc : Option Text) (it : Item) :
    (it.declarations source span doc).flatMap (·.keys) = it.keys source := by
  cases it with
  | function f =>
    simp only [Item.declarations, List.flatMap_singleton, Function.declaration, Declaration.keys,
      Item.keys]
    cases receiver : f.receiver with
    | none => rfl
    | some params =>
      rw [Option.bind_some]
      cases receiverType source params <;> rfl
  | declaration d =>
    simp only [Item.declarations, Item.keys, Decl.declarations]
    cases d.specs.2.2 with
    | nil => rfl
    | cons first rest =>
      dsimp only
      split
      · simp only [List.flatMap_cons, List.flatMap_map, keys_specDeclaration, List.filter_append,
          List.filter_flatMap, List.flatMap_nil, List.append_nil]
      · simp only [List.flatMap_singleton, keys_specDeclaration]
  | package name => rfl
  | imports lines => rfl
  | statement term => rfl

theorem keys_declarationsFrom (source : Text) (comments : List Comment) (after : Nat)
    (items : List Located) :
    (declarationsFrom source comments after items).flatMap (·.keys) =
      items.flatMap (·.item.keys source) := by
  induction items generalizing after with
  | nil => rfl
  | cons located rest ih =>
    rw [declarationsFrom, List.flatMap_append, keys_declarations, ih, List.flatMap_cons]

/-- **The keys of a file** are those of its items. -/
theorem keys_ofText (text : Text) : (Source.ofText text).declarations.flatMap (·.keys) =
    (File.parse text).items.flatMap (·.item.keys text) :=
  keys_declarationsFrom ..

theorem keys_of_isPreamble {it : Item} (h : it.isPreamble = true) (source : Text) :
    it.keys source = [] := by
  cases it with
  | package name => rfl
  | imports lines => rfl
  | _ => cases h

/-! ### Moved items -/

section

variable {move : Position → Position}

theorem receiverType_moved {source source' : Text} {params : List Param}
    (same : ∀ param ∈ params,
      (param.typeSpan.moved move).textIn source' = param.typeSpan.textIn source) :
    receiverType source' (params.map (Param.moved move)) = receiverType source params := by
  unfold receiverType
  induction params with
  | nil => rfl
  | cons param rest ih =>
    rw [List.forall_mem_cons] at same
    have variadic : (param.moved move).variadic = param.variadic := rfl
    have place : (param.moved move).typeSpan = param.typeSpan.moved move := rfl
    rw [List.map_cons, List.find?_cons, List.find?_cons, variadic]
    cases param.variadic with
    | true => exact ih same.2
    | false => simp only [Bool.not_false, Option.map_some, place, same.1]

/-- An item that stands elsewhere declares the same, if the type of its receiver is written the
same there. -/
theorem keys_moved {source source' : Text} {it : Item} (same : ∀ param ∈ it.receiver,
      (param.typeSpan.moved move).textIn source' = param.typeSpan.textIn source) :
    (it.moved move).keys source' = it.keys source := by
  cases it with
  | function f =>
    simp only [Item.moved, Item.keys, Function.moved]
    cases receiver : f.receiver with
    | none => rfl
    | some params =>
      have paramsEq : (Item.function f).receiver = params := by simp [Item.receiver, receiver]
      rw [paramsEq] at same
      simp only [Option.map_some, Option.bind_some, receiverType_moved same]
  | declaration d =>
    have names {α : Type} (specs : List α) (shift : α → α) (spec : α → Spec)
        (still : ∀ a, (spec (shift a)).names = (spec a).names) :
        ((specs.map shift).map spec).flatMap (·.names) = (specs.map spec).flatMap (·.names) := by
      simp only [List.flatMap_map, still]
    cases d with
    | const grouped specs => exact congrArg (List.filter _) (names specs _ _ fun _ => rfl)
    | var grouped specs => exact congrArg (List.filter _) (names specs _ _ fun _ => rfl)
    | type grouped specs => exact congrArg (List.filter _) (names specs _ _ fun _ => rfl)
  | package name => rfl
  | imports lines => rfl
  | statement term => rfl

def Interface.moved (move : Position → Position) (i : Interface) : Interface :=
  { i with span := i.span.moved move }

theorem interfaces_moved (located : Located) :
    (located.moved move).interfaces = located.interfaces.map (Interface.moved move) := by
  obtain ⟨it, span⟩ := located
  cases it with
  | declaration d =>
    cases d with
    | type grouped specs =>
      simp only [Located.interfaces, Located.moved, Item.moved, Decl.moved, List.filterMap_map,
        List.map_filterMap]
      congr 1
      funext spec
      simp only [Function.comp_apply, TypeSpec.interface?, TypeSpec.moved]
      split
      · rw [apply_ite (Option.map _)]
        rfl
      · rfl
    | const grouped specs => rfl
    | var grouped specs => rfl
  | _ => rfl

theorem interfaces_of_isPreamble {located : Located} (h : located.item.isPreamble = true) :
    located.interfaces = [] := by
  obtain ⟨it, span⟩ := located
  cases it with
  | package name => rfl
  | imports lines => rfl
  | _ => cases h

/-- An import that stands elsewhere imports the same under the same name. -/
theorem importsOf_moved (it : Item) :
    (it.moved move).importsOf.map (·.toImportSpec) = it.importsOf.map (·.toImportSpec) := by
  cases it with
  | imports lines =>
    simp only [Item.moved, Item.importsOf, List.filterMap_map, List.map_filterMap]
    congr 1
    funext line
    have literal : (line.moved move).literal = line.literal := rfl
    have label : (line.moved move).label = line.label := rfl
    simp only [Function.comp_apply, ImportLine.import?, literal, label]
    split <;> rfl
  | _ => rfl

theorem flatMap_keys_moved {source source' : Text} {items : List Located}
    (same : ∀ located ∈ items, ∀ param ∈ located.item.receiver,
      (param.typeSpan.moved move).textIn source' = param.typeSpan.textIn source) :
    (items.map (Located.moved move)).flatMap (·.item.keys source') =
      items.flatMap (·.item.keys source) := by
  rw [List.flatMap_map, List.flatMap_def, List.flatMap_def]
  congr 1
  exact List.map_congr_left fun located member => keys_moved (same located member)

theorem flatMap_interfaces_moved (items : List Located) :
    (items.map (Located.moved move)).flatMap Located.interfaces =
      (items.flatMap Located.interfaces).map (Interface.moved move) := by
  rw [List.flatMap_map, List.map_flatMap]
  simp only [interfaces_moved]

theorem localName_importsOf_moved (items : List Located) :
    ((items.map (Located.moved move)).flatMap (·.item.importsOf)).map (·.localName) =
      (items.flatMap (·.item.importsOf)).map (·.localName) := by
  have names (items : List Located) : (items.flatMap (·.item.importsOf)).map (·.localName) =
      items.flatMap fun located =>
        (located.item.importsOf.map (·.toImportSpec)).map (·.localName) := by
    simp only [List.map_flatMap, List.map_map]
    rfl
  rw [names, names, List.flatMap_map]
  simp only [Located.moved, importsOf_moved]

end

/-! ### Positions in items -/

/-- What stands at the ends of lexemes stays where they stay. -/
theorem moved_of_fixes {ts : List Lexeme} {move : Position → Position}
    (fixes : ∀ x, Marks ts x → move x = x) {located : Located}
    (member : located ∈ (Grammar.items (Grammar.rules ts.length) ts.length ts).1) :
    located.moved move = located := by
  have still : ts.map (Lexeme.moved move) = ts := by
    have same : ts.map (Lexeme.moved move) = ts.map (Lexeme.moved id) := map_moved_congr fixes
    rwa [Lexeme.moved_id, List.map_id] at same
  have items := congrArg Prod.fst (Grammar.items_moved move ts)
  rw [still] at items
  have all := List.map_inj_left.mp ((List.map_id _).trans items)
  exact (all located member).symm

/-- A move that leaves the ends of lexemes in place and nothing else. -/
theorem exists_marking (ts : List Lexeme) : ∃ move : Position → Position,
    ∀ x, move x = x ↔ Marks ts x := by
  classical
  refine ⟨fun x => if Marks ts x then x else ⟨x.byte + 1, x.line, x.column⟩, fun x => ?_⟩
  by_cases marks : Marks ts x
  · simp [marks]
  · have elsewhere : (⟨x.byte + 1, x.line, x.column⟩ : Position) ≠ x := by
      intro same
      have bytes := congrArg Position.byte same
      simp at bytes
    simp [marks, elsewhere]

section

variable {ts : List Lexeme} {located : Located}
  (member : located ∈ (Grammar.items (Grammar.rules ts.length) ts.length ts).1)
include member

theorem marks_of_item : Marks ts located.span.start ∧ Marks ts located.span.stop := by
  obtain ⟨move, marks⟩ := exists_marking ts
  have fixed := moved_of_fixes (fun x => (marks x).mpr) member
  have place : located.span.moved move = located.span := congrArg Located.span fixed
  exact ⟨(marks _).mp (congrArg Span.start place), (marks _).mp (congrArg Span.stop place)⟩

/-- **The type of a receiver** starts and stops where lexemes do. -/
theorem marks_of_receiver {param : Param} (isReceiver : param ∈ located.item.receiver) :
    Marks ts param.typeSpan.start ∧ Marks ts param.typeSpan.stop := by
  obtain ⟨move, marks⟩ := exists_marking ts
  have fixed := moved_of_fixes (fun x => (marks x).mpr) member
  obtain ⟨it, span⟩ := located
  cases it with
  | function f =>
    cases receiver : f.receiver with
    | none => simp [Item.receiver, receiver] at isReceiver
    | some params =>
      have inParams : param ∈ params := by simpa [Item.receiver, receiver] using isReceiver
      have same : params.map (Param.moved move) = params := by
        have items := congrArg (fun located : Located => located.item.receiver) fixed
        simpa [Located.moved, Item.moved, Function.moved, Item.receiver, receiver] using items
      have here := List.map_inj_left.mp (same.trans (List.map_id params).symm) param inParams
      have place : param.typeSpan.moved move = param.typeSpan := congrArg Param.typeSpan here
      exact ⟨(marks _).mp (congrArg Span.start place), (marks _).mp (congrArg Span.stop place)⟩
  | _ => cases isReceiver

end

/-! ### Names of imports -/

theorem import?_isSome_iff {source : Source} {name : Text} :
    (source.import? name).isSome = true ↔ name ∈ source.imports.map (·.localName) := by
  simp [Source.import?, List.mem_map]

theorem interfaces_ofText (text : Text) :
    (Source.ofText text).interfaces = (File.parse text).items.flatMap Located.interfaces := rfl

theorem find?_map_of_iff {α β : Type} {f : α → β} {p : α → Bool} {q : β → Bool} {list : List α}
    (same : ∀ a ∈ list, q (f a) = p a) : (list.map f).find? q = (list.find? p).map f := by
  induction list with
  | nil => rfl
  | cons a rest ih =>
    rw [List.forall_mem_cons] at same
    rw [List.map_cons, List.find?_cons, List.find?_cons, same.1, ih same.2]
    cases p a <;> rfl

/-- **Nothing runs across the end of a line:** no lexeme, no comment, and no type of a receiver. The
line is not blank and has a line feed. -/
structure Clear (text : Text) (line : Nat) : Prop where
  stands : ((rawLines text)[line - 1]?.any fun l => l.getLast? = some '\n' && !blank l) = true
  breaks : (scan text).BreaksAfter line
  receivers : ∀ located ∈ (File.parse text).items, ∀ param ∈ located.item.receiver,
    (param.typeSpan.start.line ≤ line ↔ param.typeSpan.stop.line ≤ line)

instance (text : Text) (line : Nat) : Decidable (Clear text line) :=
  decidable_of_iff (_ ∧ _ ∧ _) ⟨fun ⟨a, b, c⟩ => ⟨a, b, c⟩, fun ⟨a, b, c⟩ => ⟨a, b, c⟩⟩

end Go

namespace Injection

open Go Region

/-- **What injection asks of a file** is the same after an edit that moves lines. -/
structure Carried (before after : Text) (index : Nat → Nat) : Prop where
  keys : (Source.ofText after).declarations.flatMap (·.keys) =
    (Source.ofText before).declarations.flatMap (·.keys)
  requests : requests (rawLines after) =
    (requests (rawLines before)).map fun r => r.at (index r.index)
  interfaces : ∀ r ∈ Injection.requests (rawLines before), ∀ interface,
    interfaceFor (Source.ofText before) (rawLines before) r = .ok interface →
    ∃ moved, interfaceFor (Source.ofText after) (rawLines after) (r.at (index r.index)) = .ok moved ∧
      moved.span.stop.line - 1 = index (interface.span.stop.line - 1)
  imports : ∀ name ∈ (Source.ofText before).imports.map (·.localName),
    name ∈ (Source.ofText after).imports.map (·.localName)
  errors : (Source.ofText before).hasErrors = false → (Source.ofText after).hasErrors = false

theorem Carried.trans {a b c : Text} {index index' : Nat → Nat} (h : Carried a b index)
    (h' : Carried b c index') : Carried a c (index' ∘ index) := by
  refine ⟨h'.keys.trans h.keys, ?_, ?_, fun name known => h'.imports name (h.imports name known),
    fun none => h'.errors (h.errors none)⟩
  · rw [h'.requests, h.requests, List.map_map]
    rfl
  · intro r member interface found
    obtain ⟨moved, found, stop⟩ := h.interfaces r member interface found
    have member' : r.at (index r.index) ∈ Injection.requests (rawLines b) := by
      rw [h.requests]
      exact List.mem_map_of_mem member
    obtain ⟨moved', found', stop'⟩ := h'.interfaces _ member' moved found
    exact ⟨moved', found', by rw [stop', stop]; rfl⟩

/-- A marker has the same interface below it, moved. -/
theorem interfaceFor_carried (index : Nat → Nat) {target target' : Source}
    {lines lines' : List Text} {r : Request} {move : Position → Position} {interface : Interface}
    (next : ∀ j, nextCode? lines r.index = some j →
      nextCode? lines' (index r.index) = some (index j))
    (interfaces : target'.interfaces = target.interfaces.map (Interface.moved move))
    (starts : ∀ j, nextCode? lines r.index = some j → ∀ i ∈ target.interfaces,
      (move i.span.start).line = index j + 1 ↔ i.span.start.line = j + 1)
    (stops : ∀ i ∈ target.interfaces,
      (move i.span.stop).line - 1 = index (i.span.stop.line - 1))
    (found : interfaceFor target lines r = .ok interface) :
    ∃ moved, interfaceFor target' lines' (r.at (index r.index)) = .ok moved ∧
      moved.span.stop.line - 1 = index (interface.span.stop.line - 1) := by
  obtain ⟨j, isNext, here, hasMethod⟩ := interfaceFor_eq_ok found
  have here' : target'.interfaceAt? (index j + 1) = some (interface.moved move) := by
    have moved := find?_map_of_iff (f := Interface.moved move)
      (p := fun i => i.span.start.line = j + 1) (q := fun i => i.span.start.line = index j + 1)
      fun i member => decide_eq_decide.mpr (starts j isNext i member)
    rw [← interfaces] at moved
    exact moved.trans (congrArg (Option.map _) here)
  have hasMethod' : (interface.moved move).methods.contains r.method = true := hasMethod
  refine ⟨interface.moved move, ?_, stops interface (List.mem_of_find?_eq_some here)⟩
  rw [interfaceFor, Request.at, next j isNext, Option.bind_some, here']
  exact if_pos hasMethod'

/-! ### Regions that are taken out -/

section

variable {text : Text} {slots : List Slot} (lines : slots.map Slot.line = rawLines text)
  (clear : ∀ i slot, slots[i]? = some slot → slot.regions ≠ [] → Clear text (i + 1))
include lines clear

theorem settled_of_clear : Settled slots := by
  intro slot member tagged
  obtain ⟨i, here⟩ := List.mem_iff_getElem?.mp member
  have stands := (clear i slot here tagged).stands
  have line : (rawLines text)[i]? = some slot.line := by
    rw [← lines, List.getElem?_map, here]
    rfl
  rw [Nat.add_sub_cancel, line, Option.any_some, Bool.and_eq_true, decide_eq_true_eq,
    Bool.not_eq_true'] at stands
  exact ⟨(lined_rawLines text).ended_of_getLast? (List.mem_of_getElem? line) stands.1, stands.2⟩

theorem exists_tidyMove_of_clear : ∃ move, TidyMove slots move ∧
    (File.parse (textOf (tidy false slots))).items =
      (File.parse text).items.map (Located.moved move) ∧
    (File.parse (textOf (tidy false slots))).hasErrors = (File.parse text).hasErrors := by
  have whole : textOf slots = text := by rw [textOf, lines, rawLines_flatten]
  have settled := settled_of_clear lines clear
  obtain ⟨move, tidies⟩ := exists_tidyMove (lines ▸ lined_rawLines text)
    (fun slot member tagged => (settled slot member tagged).1)
    (fun i slot here tagged => by rw [whole]; exact (clear i slot here tagged).breaks)
  have lexemes := tidies.lexemes
  rw [whole] at lexemes
  have moved := Grammar.items_moved move (Lexeme.scan text).lexemes
  refine ⟨move, tidies, ?_, ?_⟩
  · rw [items_parse, items_parse, lexemes, List.length_map, moved]
    rfl
  · rw [hasErrors_parse, hasErrors_parse, lexemes, List.length_map, moved]
    rfl

/-- **Taking regions out** carries a file over. -/
theorem carried_tidy : Carried text (textOf (tidy false slots)) (tidyIndex false slots) := by
  have whole : textOf slots = text := by rw [textOf, lines, rawLines_flatten]
  have settled := settled_of_clear lines clear
  have lined : Lined (slots.map Slot.line) := lines ▸ lined_rawLines text
  have lines' : rawLines (textOf (tidy false slots)) = (tidy false slots).map Slot.line :=
    rawLines_of_lined (lined_tidy lined false)
  obtain ⟨move, tidies, items, errors⟩ := exists_tidyMove_of_clear lines clear
  have place := tidies.line
  have written := tidies.text
  rw [whole] at place written
  have noGap {i : Nat} {line : Text} (found : (rawLines text)[i]? = some line)
      (notBlank : blank line = false) : ∃ slot, slots[i]? = some slot ∧ slot.isGap = false := by
    rw [← lines, List.getElem?_map] at found
    obtain ⟨slot, here, rfl⟩ := Option.map_eq_some_iff.mp found
    exact ⟨slot, here, by simp [Slot.isGap, notBlank]⟩
  have interfaces : (Source.ofText (textOf (tidy false slots))).interfaces =
      (Source.ofText text).interfaces.map (Interface.moved move) := by
    rw [interfaces_ofText, interfaces_ofText, items, flatMap_interfaces_moved]
  refine ⟨?_, ?_, ?_, ?_, fun none => errors.trans none⟩
  · rw [keys_ofText, keys_ofText, items]
    refine flatMap_keys_moved fun located member param isReceiver => ?_
    obtain ⟨start, stop⟩ := marks_of_receiver (by rwa [items_parse] at member) isReceiver
    exact written _ _ start stop fun i slot here tagged =>
      (clear i slot here tagged).receivers located member param isReceiver
  · rw [lines', requests_tidy settled false, lines]
  · intro r member interface found
    refine interfaceFor_carried _ ?_ interfaces ?_ ?_ found
    · intro j next
      obtain ⟨_, atLine, notBlank⟩ := exists_line_of_request member
      obtain ⟨_, slotHere, gapless⟩ := noGap atLine notBlank
      rw [lines']
      exact nextCode?_tidy settled slotHere gapless (by rwa [lines])
    · intro j next i inText
      obtain ⟨-, ⟨_, codeAt, isCode⟩, -⟩ := nextCode?_eq_some_iff.mp next
      obtain ⟨_, codeHere, codeGapless⟩ := noGap codeAt (blank_of_isCode isCode)
      obtain ⟨located, inFile, -, span⟩ := exists_item_of_interface inText
      obtain ⟨_, lineAt, notBlank, -⟩ := exists_line_of_item inFile
      obtain ⟨_, lineHere, gapless⟩ := noGap lineAt notBlank
      obtain ⟨start, -⟩ := marks_of_item (by rwa [items_parse] at inFile)
      have positive := start.one_le_line
      rw [span, place _ start]
      constructor
      · intro same
        have eq := tidyIndex_inj lineHere gapless codeHere codeGapless (Nat.succ.inj same)
        omega
      · intro same
        rw [same, Nat.add_sub_cancel]
    · intro i inText
      obtain ⟨located, inFile, -, span⟩ := exists_item_of_interface inText
      obtain ⟨-, stop⟩ := marks_of_item (by rwa [items_parse] at inFile)
      rw [span, place _ stop, Nat.add_sub_cancel]
  · intro name known
    rw [imports_ofText] at known ⊢
    rwa [items, localName_importsOf_moved]

end

/-! ### Lines of imports that are put in -/

theorem nextCode?_below (front lines : List Text) (i : Nat) :
    nextCode? (front ++ lines) (front.length + i) = (nextCode? lines i).map (front.length + ·) := by
  unfold nextCode?
  rw [Nat.add_assoc, List.drop_length_add_append, Option.map_map]
  congr 1
  funext j
  show front.length + (i + 1) + j = front.length + (i + 1 + j)
  omega

theorem rawLines_below {front : List Text} (ended : ∀ line ∈ front, Ended line) (rest : Text) :
    rawLines (front.flatten ++ rest) = front ++ rawLines rest := by
  have lined := Lined.append ended (lined_rawLines rest)
  rw [← rawLines_of_lined lined, List.flatten_append, rawLines_flatten]

theorem column_flatten {front : List Text} (ended : ∀ line ∈ front, Ended line) {p : Position}
    (column : p.column = 1) : (p.past front.flatten).column = 1 := by
  induction front generalizing p with
  | nil => exact column
  | cons line rest ih =>
    rw [List.forall_mem_cons] at ended
    rw [List.flatten_cons, Position.past_append]
    exact ih ended.2 (column_of_ended ended.1 p)

theorem line_flatten {front : List Text} (ended : ∀ line ∈ front, Ended line) :
    (Position.origin.past front.flatten).line = front.length + 1 := by
  rw [Position.past_line, count_flatten ended, Nat.add_comm]
  rfl

theorem readBelow_rebased {p p' : Position} (column : p.column = p'.column) (text : Text) :
    readBelow p' text =
      Prod.map (List.map (Located.moved (Position.rebased p p'))) id (readBelow p text) := by
  have lexemes : lexemesBelow p' text =
      (lexemesBelow p text).map (Lexeme.moved (Position.rebased p p')) := by
    obtain ⟨t, ts, read, -, below⟩ := exists_lexemesBelow p text
    have moved := Lexeme.lexemes_moved (fun piece => Position.rebased_past column piece) true text
    rw [lexemesBelow, moved, read, below]
    rfl
  simp only [readBelow, lexemes, List.length_map]
  exact Grammar.items_moved ..

/-- Lexemes below a point stand there. -/
theorem exists_past_of_marks {p x : Position} {text : Text} (h : Marks (lexemesBelow p text) x) :
    ∃ before, x = p.past before := by
  obtain ⟨t, member, here⟩ := h
  have inLine := List.mem_map_of_mem (f := Lexeme.inLine) member
  rw [lexemesBelow_inLine] at inLine
  obtain ⟨u, inText, same⟩ := List.mem_map.mp inLine
  have span : u.inLine.span = t.inLine.span := congrArg Lexeme.span same
  have span : u.span = t.span := span
  have marks : Marks (Lexeme.readFrom p true text).lexemes x := ⟨u, inText, by rwa [span]⟩
  obtain ⟨before, -, eq⟩ := marks.exists_prefix
  exact ⟨before, eq⟩

theorem line_le_of_marks {p x : Position} {text : Text} (h : Marks (lexemesBelow p text) x) :
    p.line ≤ x.line := by
  obtain ⟨before, rfl⟩ := exists_past_of_marks h
  exact Position.line_le_past p before

/-- What is written between two points below a text is written there below any other text. -/
theorem textIn_rebased {front : Text} (front' : Text) {rest : Text} {span : Span}
    (start : Marks (lexemesBelow (Position.origin.past front) rest) span.start)
    (stop : Marks (lexemesBelow (Position.origin.past front) rest) span.stop) :
    (span.moved (Position.rebased (Position.origin.past front)
        (Position.origin.past front'))).textIn (front' ++ rest) = span.textIn (front ++ rest) := by
  obtain ⟨before, start⟩ := exists_past_of_marks start
  obtain ⟨before', stop⟩ := exists_past_of_marks stop
  have origin : Position.origin.byte = 0 := rfl
  simp only [Span.textIn, Span.moved, Position.rebased, start, stop, Position.past_byte,
    Nat.add_sub_cancel_left, origin, Nat.zero_add, slice_append]

section

variable {front : Text} {first : List Located} (opens : OpensWith front first)
include opens

/-- The head of a file declares nothing. -/
theorem keys_below (rest : Text) :
    (Source.ofText (front ++ rest)).declarations.flatMap (·.keys) =
      (itemsBelow (Position.origin.past front) rest).flatMap (·.item.keys (front ++ rest)) := by
  have noneFirst : first.flatMap (·.item.keys (front ++ rest)) = [] :=
    List.flatMap_eq_nil_iff.mpr fun located member =>
      keys_of_isPreamble (opens.heads located member) _
  rw [keys_ofText, opens.parse, List.flatMap_append, noneFirst, List.nil_append]

theorem interfaces_below (rest : Text) : (Source.ofText (front ++ rest)).interfaces =
    (itemsBelow (Position.origin.past front) rest).flatMap Located.interfaces := by
  have noneFirst : first.flatMap Located.interfaces = [] :=
    List.flatMap_eq_nil_iff.mpr fun located member =>
      interfaces_of_isPreamble (opens.heads located member)
  rw [interfaces_ofText, opens.parse, List.flatMap_append, noneFirst, List.nil_append]

/-- An interface stands below the head. -/
theorem line_le_of_interface {rest : Text} {i : Interface}
    (inText : i ∈ (Source.ofText (front ++ rest)).interfaces) :
    (Position.origin.past front).line ≤ i.span.start.line ∧
      (Position.origin.past front).line ≤ i.span.stop.line := by
  rw [interfaces_below opens] at inText
  obtain ⟨located, inItems, inLocated⟩ := List.mem_flatMap.mp inText
  obtain ⟨start, stop⟩ := marks_of_item inItems
  rw [span_of_mem_interfaces inLocated]
  exact ⟨line_le_of_marks start, line_le_of_marks stop⟩

end

section

variable {front front' : List Text} {first first' : List Located}
  (ended : ∀ line ∈ front, Ended line) (ended' : ∀ line ∈ front', Ended line)
  (opens : OpensWith front.flatten first) (opens' : OpensWith front'.flatten first')
include ended ended' opens opens'

/-- **Other lines above** carry a file over, if they hold nothing but its head. -/
theorem carried_below (unasked : requests front = []) (unasked' : requests front' = [])
    (imports : ∀ name ∈ (first.flatMap (·.item.importsOf)).map (·.localName),
      name ∈ (first'.flatMap (·.item.importsOf)).map (·.localName)) (rest : Text) :
    Carried (front.flatten ++ rest) (front'.flatten ++ rest)
      fun i => front'.length + (i - front.length) := by
  have line := line_flatten ended
  have line' := line_flatten ended'
  have lines := rawLines_below ended rest
  have lines' := rawLines_below ended' rest
  have column : (Position.origin.past front.flatten).column =
      (Position.origin.past front'.flatten).column := by
    rw [column_flatten ended rfl, column_flatten ended' rfl]
  have read := readBelow_rebased column rest
  have moved : itemsBelow _ rest = (itemsBelow _ rest).map _ := congrArg Prod.fst read
  refine ⟨?_, ?_, ?_, ?_, ?_⟩
  · rw [keys_below opens, keys_below opens', moved]
    refine flatMap_keys_moved fun located member param isReceiver => ?_
    obtain ⟨start, stop⟩ := marks_of_receiver member isReceiver
    exact textIn_rebased _ start stop
  · rw [lines, lines', requests_append, requests_append, unasked, unasked']
    simp only [List.nil_append, List.map_map]
    refine List.map_congr_left fun r member => ?_
    simp [Request.at]
  · intro r member interface found
    rw [lines, requests_append, unasked, List.nil_append] at member
    obtain ⟨below, -, rfl⟩ := List.mem_map.mp member
    have interfaces : (Source.ofText (front'.flatten ++ rest)).interfaces =
        (Source.ofText (front.flatten ++ rest)).interfaces.map (Interface.moved
          (Position.rebased (Position.origin.past front.flatten)
            (Position.origin.past front'.flatten))) := by
      rw [interfaces_below opens', interfaces_below opens, moved, flatMap_interfaces_moved]
    refine interfaceFor_carried (fun i => front'.length + (i - front.length)) ?_ interfaces ?_ ?_ found
    · intro j next
      rw [lines, Request.at, nextCode?_below] at next
      obtain ⟨k, isNext, rfl⟩ := Option.map_eq_some_iff.mp next
      rw [lines', Request.at, Nat.add_sub_cancel_left, Nat.add_sub_cancel_left, nextCode?_below,
        isNext]
      rfl
    · intro j next i inText
      rw [lines, Request.at, nextCode?_below] at next
      obtain ⟨k, -, rfl⟩ := Option.map_eq_some_iff.mp next
      have place := line_le_of_interface opens inText
      simp only [Position.rebased, line, line', Nat.add_sub_cancel_left] at place ⊢
      omega
    · intro i inText
      have place := line_le_of_interface opens inText
      simp only [Position.rebased, line, line'] at place ⊢
      omega
  · intro name known
    rw [imports_ofText, opens.parse, List.flatMap_append, List.map_append,
      List.mem_append] at known
    rw [imports_ofText, opens'.parse, moved, List.flatMap_append, List.map_append, List.mem_append,
      localName_importsOf_moved]
    exact known.imp_left (imports name)
  · intro none
    have none : (readBelow (Position.origin.past front.flatten) rest).2 = false :=
      (opens.hasErrors rest).symm.trans none
    refine (opens'.hasErrors rest).trans ?_
    rw [read]
    exact none

end

end Injection

end Prefill
