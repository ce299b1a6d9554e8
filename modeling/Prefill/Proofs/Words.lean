import Prefill.Proofs.Naming
import Prefill.Proofs.Order

/-!
Words in trees. Whatever the grammar reads as a name is a lexeme that is a word, so all names in a
tree are identifiers (`Term.Worded`), one lemma for each production in the order of the grammar. The
knot is tied by `rules_worded`. So the names before a point in a declaration of a file are
identifiers (`isIdentifier_of_qualifier`).
-/

namespace Prefill.Go

open Text Prefill.Go.Parser

mutual

/-- The words of a tree that name something. -/
def Term.words : Term → List Text
  | .name word => [word]
  | .typeName word => [word]
  | .qualified package word => [package, word]
  | .constant _ => []
  | .literal _ => []
  | .selector operand field => operand.words ++ [field]
  | .node _ parts => Term.wordsOf parts

def Term.wordsOf : List Term → List Text
  | [] => []
  | part :: rest => part.words ++ Term.wordsOf rest

end

mutual

theorem Term.qualifiers_subset (t : Term) : t.qualifiers ⊆ t.words := by
  match t with
  | .name _ | .typeName _ | .constant _ | .literal _ => simp [qualifiers]
  | .qualified _ _ => simp [qualifiers, words]
  | .selector (.name _) _ => simp [qualifiers, words]
  | .selector (.typeName _) _ | .selector (.constant _) _ | .selector (.literal _) _ =>
    simp [qualifiers]
  | .selector (.qualified _ _) _ => simp [qualifiers, words]
  | .selector (.selector operand field) _ =>
    exact List.subset_append_of_subset_left _ (qualifiers_subset (.selector operand field))
  | .selector (.node form parts) _ =>
    exact List.subset_append_of_subset_left _ (qualifiers_subset (.node form parts))
  | .node _ parts => exact qualifiersOf_subset parts

theorem Term.qualifiersOf_subset (parts : List Term) : qualifiersOf parts ⊆ wordsOf parts := by
  match parts with
  | [] => exact List.nil_subset _
  | part :: rest =>
    refine List.append_subset.mpr ⟨?_, ?_⟩
    · exact List.subset_append_of_subset_left _ (qualifiers_subset part)
    · exact List.subset_append_of_subset_right _ (qualifiersOf_subset rest)

end

theorem Term.mem_wordsOf {parts : List Term} {word : Text} :
    word ∈ wordsOf parts ↔ ∃ part ∈ parts, word ∈ part.words := by
  induction parts with
  | nil => simp [wordsOf]
  | cons part rest ih => simp [wordsOf, ih]

/-- All names in a tree are identifiers. -/
def Term.Worded (t : Term) : Prop := ∀ word ∈ t.words, isIdentifier word = true

namespace Term

@[simp] theorem worded_name {word : Text} : (name word).Worded ↔ isIdentifier word = true := by
  simp [Worded, words]

@[simp] theorem worded_typeName {word : Text} :
    (typeName word).Worded ↔ isIdentifier word = true := by
  simp [Worded, words]

@[simp] theorem worded_qualified {package word : Text} : (qualified package word).Worded ↔
    isIdentifier package = true ∧ isIdentifier word = true := by
  simp [Worded, words]

@[simp] theorem worded_constant {word : Text} : (constant word).Worded := by simp [Worded, words]

@[simp] theorem worded_literal {text : Text} : (literal text).Worded := by simp [Worded, words]

@[simp] theorem worded_selector {operand : Term} {field : Text} :
    (selector operand field).Worded ↔ operand.Worded ∧ isIdentifier field = true := by
  simp [Worded, words, or_imp, forall_and]

@[simp] theorem worded_node {form : Form} {parts : List Term} :
    (node form parts).Worded ↔ ∀ part ∈ parts, part.Worded := by
  simp only [Worded, words, mem_wordsOf]
  grind

end Term

@[simp] theorem Param.worded_toTerm {p : Param} :
    p.toTerm.Worded ↔ (∀ name ∈ p.names, isIdentifier name = true) ∧ p.type.Worded := by
  simp [toTerm, or_imp, forall_and]

@[simp] theorem TypeParam.worded_toTerm {p : TypeParam} :
    p.toTerm.Worded ↔ (∀ name ∈ p.names, isIdentifier name = true) ∧ p.constraint.Worded := by
  simp [toTerm, or_imp, forall_and]

namespace Parser

variable {α β : Type} {p : Parser α} {P : α → Prop}

theorem yields_return {make : α → β} {Q : β → Prop} (h : Yields p P)
    (made : ∀ a, P a → Q (make a)) : Yields (do return make (← p)) Q :=
  yields_bind h fun a holds => yields_pure (made a holds)

/-- Two ways to come to the rest of a production. -/
theorem yields_either {q : Parser α} {next : α → Parser β} {Q : β → Prop} {condition : Prop}
    [Decidable condition] (first : Yields p P) (second : Yields q P)
    (later : ∀ a, P a → Yields (next a) Q) :
    Yields (if condition then p >>= next else q >>= next) Q :=
  yields_ite (yields_bind first later) (yields_bind second later)

theorem yields_fail : Yields (failure : Parser α) P := nofun

theorem yields_many (h : Yields p P) : Yields (many p) fun found => ∀ a ∈ found, P a :=
  fun ts => yields_repeatUpTo h ts.length ts

theorem yields_bracketed {opening closing : String} (h : Yields p P) :
    Yields (bracketed opening closing p) fun found => ∀ a ∈ found, P a := by
  refine yields_after fun _ => yields_bind (yields_possibly (yields_separated h)) fun items all => ?_
  refine yields_after fun _ => yields_after fun _ => yields_pure ?_
  cases items with
  | none => simp
  | some items => exact all items rfl

theorem yields_nameExcept (keywords : List String) :
    Yields (nameExcept keywords) fun name => isIdentifier name = true := by
  refine yields_return yields_accept fun t isName => t.identifier ?_
  simp only [Bool.and_eq_true, decide_eq_true_eq] at isName
  exact isName.1

/-- What stands where something may be missing. -/
theorem yields_possibly_toList (h : Yields p P) :
    Yields (possibly p) fun found => ∀ a ∈ found.toList, P a := by
  intro ts found rest read a member
  exact yields_possibly h ts found rest read a (Option.mem_toList.mp member)

end Parser

namespace Grammar

/-- Rules that read trees whose names are identifiers. -/
structure Worded (r : Rules) : Prop where
  type : ∀ context, Yields (r.type context) Term.Worded
  expression : ∀ context, Yields (r.expression context) Term.Worded
  block : Yields r.block fun body => ∀ t ∈ body, t.Worded
  statement : Yields r.statement Term.Worded

/-! ### Types -/

theorem plainType_worded (context : Context) : Yields (plainType context) Term.Worded := by
  have member : Yields (do follows context "."; word) fun name => isIdentifier name = true :=
    yields_after fun _ => yields_word
  refine yields_bind (yields_nameExcept _) fun first isName => ?_
  refine yields_return (yields_possibly member) fun second isSecond => ?_
  cases second with
  | none => simpa using isName
  | some name => simpa using ⟨isName, isSecond name rfl⟩

/-- All names of an entry are identifiers. -/
def Entry.Worded : Entry → Prop
  | .lone type _ => type.Worded
  | .pair name type _ => isIdentifier name = true ∧ type.Worded
  | .tail name type _ => (∀ n ∈ name, isIdentifier n = true) ∧ type.Worded

theorem asTypes_worded {waiting : List (Text × Span)}
    (h : ∀ entry ∈ waiting, isIdentifier entry.1 = true) :
    ∀ p ∈ asTypes waiting, p.toTerm.Worded := by
  intro p member
  obtain ⟨⟨name, span⟩, waits, rfl⟩ := List.mem_map.mp member
  simpa using h _ waits

theorem gather_worded {waiting : List (Text × Span)} {entries : List Entry}
    (names : ∀ entry ∈ waiting, isIdentifier entry.1 = true) (h : ∀ entry ∈ entries, entry.Worded) :
    ∀ p ∈ gather waiting entries, p.toTerm.Worded := by
  induction entries generalizing waiting with
  | nil => exact asTypes_worded names
  | cons entry rest ih =>
    rw [List.forall_mem_cons] at h
    have later : ∀ p ∈ gather [] rest, p.toTerm.Worded := ih nofun h.2
    have alone (name : Option Text) {type : Term} {variadic : Bool} {span : Span}
        (isName : ∀ n ∈ name, isIdentifier n = true) (isType : type.Worded) :
        ∀ p ∈ asTypes waiting ++ ⟨name.toList, type, variadic, span⟩ :: gather [] rest,
          p.toTerm.Worded := by
      rw [List.forall_mem_append, List.forall_mem_cons, Param.worded_toTerm]
      exact ⟨asTypes_worded names, ⟨by simpa using isName, isType⟩, later⟩
    cases entry with
    | lone type span =>
      cases type with
      | typeName name =>
        refine ih ?_ h.2
        rw [List.forall_mem_append, List.forall_mem_singleton]
        exact ⟨names, Term.worded_typeName.mp h.1⟩
      | _ => exact alone none nofun h.1
    | pair name type span =>
      rw [gather, List.forall_mem_cons, Param.worded_toTerm, List.forall_mem_append,
        List.forall_mem_map, List.forall_mem_singleton]
      exact ⟨⟨⟨names, h.1.1⟩, h.1.2⟩, later⟩
    | tail name type span => exact alone name h.1.1 h.1.2

theorem signatureParts_worded {given returned : List Param}
    (isGiven : ∀ p ∈ given, p.toTerm.Worded) (isReturned : ∀ p ∈ returned, p.toTerm.Worded) :
    ∀ t ∈ signatureParts given returned, t.Worded := by
  rw [signatureParts, List.forall_mem_map, List.forall_mem_append]
  exact ⟨isGiven, isReturned⟩

theorem keyedOr_worded {value : Parser Term} (h : Yields value Term.Worded) :
    Yields (elementValue.keyedOr value) Term.Worded := by
  refine yields_bind h fun first isFirst => yields_after fun colon => ?_
  cases colon with
  | none => exact yields_pure isFirst
  | some _ => exact yields_return h fun second isSecond => by simpa using ⟨isFirst, isSecond⟩

theorem chain_worded (context : Context) (operators : List String) {operand : Parser Term}
    (h : Yields operand Term.Worded) : Yields (chain context operators operand) Term.Worded := by
  have step : Yields (do
      continues context
      let op ← accept (isOneOf operators)
      return (op.text, ← operand)) fun found => found.2.Worded :=
    yields_after fun _ => yields_after fun _ => yields_return h fun _ isOperand => isOperand
  refine yields_bind h fun first isFirst => yields_return (yields_many step) fun more areMore => ?_
  induction more generalizing first with
  | nil => exact isFirst
  | cons next rest ih =>
    rw [List.forall_mem_cons] at areMore
    exact ih _ (by simpa using ⟨isFirst, areMore.1⟩) areMore.2

/-- Names, perhaps a type, and values, all of whose names are identifiers. -/
structure WordedValue (found : List Text × Option Term × List Term) : Prop where
  names : ∀ name ∈ found.1, isIdentifier name = true
  type : ∀ t ∈ found.2.1.toList, t.Worded
  values : ∀ t ∈ found.2.2, t.Worded

theorem WordedValue.parts {found : List Text × Option Term × List Term} (h : WordedValue found)
    {span : Span} :
    ∀ t ∈ (ValueSpec.mk found.1 found.2.1 found.2.2 span).parts, t.Worded := by
  simp only [ValueSpec.parts, List.forall_mem_append, List.forall_mem_map, Term.worded_name]
  exact ⟨⟨h.names, h.type⟩, h.values⟩

theorem single_yields {terms : List Term} (h : ∀ t ∈ terms, t.Worded) :
    Yields (single terms) Term.Worded := by
  unfold single
  split
  · exact yields_pure (h _ (List.mem_singleton_self _))
  · exact yields_fail

/-- One spec or a group of them. -/
theorem specs_yield {α : Type} {spec : Parser α} {P : α → Prop} (h : Yields spec P) :
    Yields (specs spec) fun found => ∀ s ∈ found.2, P s := by
  have one : Yields (do let item ← spec; terminator; pure item) P :=
    yields_bind h fun _ holds => yields_after fun _ => yields_pure holds
  refine yields_after fun _ => yields_ite ?_ ?_
  · exact yields_after fun _ => yields_bind (yields_many one) fun _ all =>
      yields_after fun _ => yields_pure all
  · exact yields_return h fun s holds => by simpa using holds

namespace Worded

variable {r : Rules} (h : Worded r)
include h

theorem constraint (context : Context) : Yields (constraint r context) Term.Worded := by
  refine yields_return (yields_separated (h.type context)) fun types all => ?_
  split
  · exact all _ (List.mem_singleton_self _)
  · exact Term.worded_node.mpr all

theorem typeArguments (context : Context) :
    Yields (typeArguments r context) fun types => ∀ t ∈ types, t.Worded :=
  yields_after fun _ => yields_bind (yields_bracketed (h.constraint .inner)) fun _ all =>
    yields_after fun _ => yields_pure all

theorem namedType (context : Context) : Yields (namedType r context) Term.Worded := by
  refine yields_bind (plainType_worded context) fun base isBase => ?_
  refine yields_return (yields_possibly (h.typeArguments context)) fun arguments all => ?_
  cases arguments with
  | none => exact isBase
  | some types => simpa using ⟨isBase, all types rfl⟩

theorem entry : Yields (entry r) Entry.Worded := by
  refine yields_orElse ?_ (yields_orElse ?_ ?_)
  · refine yields_bind (yields_possibly (yields_nameExcept _)) fun name isName => ?_
    exact yields_after fun _ => yields_return (yields_placed (h.type .inner)) fun _ isType =>
      ⟨isName, isType⟩
  · refine yields_bind (yields_nameExcept _) fun name isName => ?_
    exact yields_return (yields_placed (h.type .inner)) fun _ isType => ⟨isName, isType⟩
  · exact yields_return (yields_placed (h.type .inner)) fun _ isType => isType

theorem parameters : Yields (parameters r) fun params => ∀ p ∈ params, p.toTerm.Worded :=
  yields_return (yields_bracketed h.entry) fun _ all => gather_worded (by simp) all

theorem results (context : Context) :
    Yields (results r context) fun params => ∀ p ∈ params, p.toTerm.Worded := by
  refine yields_after fun _ => yields_after fun _ => yields_ite h.parameters ?_
  exact yields_return (yields_placed (h.type context)) fun _ isType => by simpa using isType

theorem signature (context : Context) : Yields (signature r context) fun found =>
    (∀ p ∈ found.1, p.toTerm.Worded) ∧ ∀ p ∈ found.2, p.toTerm.Worded := by
  refine yields_bind h.parameters fun given isGiven => ?_
  refine yields_return (yields_possibly (h.results context)) fun returned isReturned => ⟨isGiven, ?_⟩
  cases returned with
  | none => simp
  | some params => exact isReturned params rfl

theorem field : Yields (field r) Term.Worded := by
  refine yields_bind (yields_orElse ?_ ?_) fun _ isField => yields_after fun _ => yields_pure isField
  · refine yields_after fun _ => yields_bind (h.namedType .line) fun type isType => ?_
    exact yields_after fun _ => yields_pure (by simpa using isType)
  · refine yields_after fun _ => yields_after fun _ => ?_
    exact yields_return (h.type .line) fun type isType => by simpa using isType

theorem member : Yields (member r) Term.Worded := by
  refine yields_orElse (yields_after fun _ => ?_) (h.constraint .line)
  exact yields_return (h.signature .line) fun found parts =>
    Term.worded_node.mpr (signatureParts_worded parts.1 parts.2)

theorem channelType (context : Context) : Yields (channelType r context) Term.Worded := by
  have made : Yields (do return Term.node .channelType [← r.type context]) Term.Worded :=
    yields_return (h.type context) fun type isType => by simpa using isType
  refine yields_after fun _ => yields_ite ?_ ?_
  · exact yields_after fun _ => yields_after fun _ => made
  · exact yields_after fun _ => yields_after fun _ => made

theorem sequenceType (context : Context) : Yields (sequenceType r context) Term.Worded := by
  refine yields_after fun _ => yields_after fun _ => yields_ite ?_ ?_
  · exact yields_after fun _ => yields_return (h.type context) fun type isType => by
      simpa using isType
  · refine yields_bind (h.expression .inner) fun length isLength => yields_after fun _ => ?_
    exact yields_return (h.type context) fun type isType => by simpa using ⟨isLength, isType⟩

theorem mapType (context : Context) : Yields (mapType r context) Term.Worded := by
  refine yields_after fun _ => yields_after fun _ => ?_
  refine yields_bind (h.type .inner) fun key isKey => yields_after fun _ => ?_
  exact yields_return (h.type context) fun type isType => by simpa using ⟨isKey, isType⟩

theorem structType : Yields (structType r) Term.Worded :=
  yields_after fun _ => yields_return (yields_listed h.field) fun _ all => Term.worded_node.mpr all

theorem interfaceType : Yields (interfaceType r) Term.Worded :=
  yields_after fun _ => yields_return (yields_listed h.member) fun _ all => Term.worded_node.mpr all

theorem builtType (context : Context) : Yields (builtType r context) Term.Worded := by
  refine yields_after fun t => ?_
  refine yields_ite (h.mapType context) (yields_ite h.structType (yields_ite h.interfaceType
    (yields_ite (h.channelType context) (yields_ite (h.sequenceType context)
      (yields_ite ?_ (yields_ite ?_ (yields_ite ?_ yields_fail)))))))
  · exact yields_after fun _ => yields_return (h.signature context) fun found parts =>
      Term.worded_node.mpr (signatureParts_worded parts.1 parts.2)
  · exact yields_after fun _ => yields_return (h.type context) fun type isType => by
      simpa using isType
  · exact yields_after fun _ => yields_return (h.type context) fun type isType => by
      simpa using isType

theorem parenthesizedType : Yields (parenthesizedType r) Term.Worded :=
  yields_after fun _ => yields_bind (h.type .inner) fun type isType =>
    yields_after fun _ => yields_pure (by simpa using isType)

theorem anyType (context : Context) : Yields (Grammar.type r context) Term.Worded :=
  yields_orElse (h.namedType context) (yields_orElse (h.builtType context) h.parenthesizedType)

theorem typeParameters : Yields (typeParameters r) fun params => ∀ p ∈ params, p.toTerm.Worded := by
  refine yields_bind (yields_bracketed ?_) fun _ all => yields_after fun _ => yields_pure all
  refine yields_bind (yields_separated yields_word) fun names areNames => ?_
  exact yields_return (h.constraint .inner) fun type isType =>
    TypeParam.worded_toTerm.mpr ⟨areNames, isType⟩

/-! ### Expressions -/

theorem elementValue (depth : Nat) : Yields (elementValue r depth) Term.Worded := by
  induction depth with
  | zero => exact h.expression .inner
  | succ depth ih =>
    refine yields_after fun _ => yields_ite ?_ (h.expression .inner)
    exact yields_return (yields_bracketed (keyedOr_worded ih)) fun _ all => Term.worded_node.mpr all

theorem literalBody : Yields (literalBody r) fun elements => ∀ t ∈ elements, t.Worded :=
  fun ts => yields_bracketed (keyedOr_worded (h.elementValue ts.length)) ts

theorem literalAfter (context : Context) (bare : Bool) :
    Yields (literalAfter r context bare) fun elements => ∀ t ∈ elements, t.Worded := by
  refine yields_after fun _ => yields_ite ?_ h.literalBody
  exact yields_after fun _ => yields_bind h.literalBody fun _ all =>
    yields_after fun _ => yields_after fun _ => yields_pure all

theorem plainComposite (context : Context) : Yields (plainComposite r context) Term.Worded := by
  refine yields_bind (plainType_worded context) fun type isType => ?_
  exact yields_return (h.literalAfter context _) fun _ all =>
    Term.worded_node.mpr (List.forall_mem_cons.mpr ⟨isType, all⟩)

theorem genericComposite (context : Context) : Yields (genericComposite r context) Term.Worded := by
  refine yields_bind (plainType_worded context) fun base isBase => ?_
  refine yields_bind (h.typeArguments context) fun arguments areArguments => ?_
  exact yields_return (h.literalAfter context false) fun _ all => by
    simpa using ⟨⟨isBase, areArguments⟩, all⟩

theorem convertedOperand (context : Context) : Yields (convertedOperand r context) Term.Worded :=
  yields_after fun _ => yields_bind (h.expression .inner) fun _ isOperand =>
    yields_after fun _ => yields_after fun _ => yields_pure isOperand

theorem genericConversion (context : Context) :
    Yields (genericConversion r context) Term.Worded := by
  refine yields_bind (plainType_worded context) fun base isBase => ?_
  refine yields_bind (h.typeArguments context) fun arguments areArguments => ?_
  exact yields_return (h.convertedOperand context) fun _ isOperand => by
    simpa using ⟨⟨isBase, areArguments⟩, isOperand⟩

/-- What follows an operand makes a tree of it. -/
theorem indexOrSlice (context : Context) : Yields (indexOrSlice r context) fun make =>
    ∀ operand : Term, operand.Worded → (make operand).Worded := by
  have bound := yields_possibly_toList (h.expression .inner)
  have third : Yields (do operator ":"; r.expression .inner) Term.Worded :=
    yields_after fun _ => h.expression .inner
  refine yields_after fun _ => yields_bind bound fun first isFirst => ?_
  refine yields_after fun _ => yields_ite ?_ ?_
  · refine yields_after fun _ => yields_bind bound fun second isSecond => ?_
    refine yields_either (yields_possibly_toList third) (yields_pure (by simp)) fun last isLast => ?_
    refine yields_after fun _ => yields_pure ?_
    intro operand isOperand
    simp only [Term.worded_node, List.forall_mem_cons, List.forall_mem_append]
    exact ⟨isOperand, ⟨isFirst, isSecond⟩, isLast⟩
  · refine yields_after fun _ => ?_
    cases first with
    | none => exact yields_fail
    | some index =>
      refine yields_pure ?_
      intro operand isOperand
      simpa using ⟨isOperand, isFirst index (by simp)⟩

theorem loneInstantiation (context : Context) :
    Yields (loneInstantiation r context) Term.Worded := by
  refine yields_bind (plainType_worded context) fun base isBase => yields_after fun _ => ?_
  refine yields_bind (h.typeArguments context) fun arguments areArguments => ?_
  exact yields_after fun _ => yields_pure (by simpa using ⟨isBase, areArguments⟩)

theorem nameOperand (context : Context) : Yields (nameOperand r context) Term.Worded :=
  yields_orElse (h.genericComposite context) (yields_orElse (h.genericConversion context)
    (yields_orElse (h.plainComposite context) (yields_orElse (h.loneInstantiation context)
      (yields_return yields_word fun _ => Term.worded_name.mpr))))

theorem allocation (context : Context) : Yields (allocation r context) Term.Worded := by
  have argument : Yields (do operator ","; r.expression .inner) Term.Worded :=
    yields_after fun _ => h.expression .inner
  refine yields_bind yields_word fun callee isCallee => yields_after fun _ => yields_ite ?_ ?_
  · exact yields_pure (by simpa using isCallee)
  · refine yields_after fun _ => ?_
    refine yields_bind (yields_possibly_toList (h.type .inner)) fun type isType => ?_
    refine yields_either (yields_many argument) (yields_pure (by simp)) fun arguments areArguments => ?_
    refine yields_either (yields_true _) (yields_true _) fun _ _ => yields_after fun _ => yields_pure ?_
    simp only [Term.worded_node, List.forall_mem_cons, List.forall_mem_append]
    exact ⟨Term.worded_name.mpr isCallee, isType, areArguments⟩

theorem functionOperand : Yields (functionOperand r) Term.Worded := by
  refine yields_after fun _ => yields_bind (h.signature .inner) fun found parts => ?_
  have areParts := signatureParts_worded parts.1 parts.2
  refine yields_after fun _ => yields_ite ?_ ?_
  · exact yields_return h.block fun body areBody =>
      Term.worded_node.mpr (List.forall_mem_append.mpr ⟨areParts, areBody⟩)
  · exact yields_return (h.convertedOperand .inner) fun _ isOperand => by
      simpa using ⟨areParts, isOperand⟩

theorem typeOperand : Yields (typeOperand r) Term.Worded := by
  have measured : Yields (measuredArrayType r) Term.Worded :=
    yields_after fun _ => yields_after fun _ => yields_after fun _ =>
      yields_return (h.type .inner) fun _ isType => by simpa using isType
  refine yields_bind (yields_orElse measured (h.builtType .inner)) fun type isType => ?_
  refine yields_after fun _ => yields_ite (yields_after fun _ => ?_) ?_
  · exact yields_return h.literalBody fun _ all => by simpa using ⟨isType, all⟩
  · exact yields_return (h.convertedOperand .inner) fun _ isOperand => by
      simpa using ⟨isType, isOperand⟩

theorem parenthesizedOperand : Yields (parenthesizedOperand r) Term.Worded := by
  refine yields_orElse ?_ ?_
  · exact yields_after fun _ => yields_bind (h.expression .inner) fun _ isInner =>
      yields_after fun _ => yields_pure (by simpa using isInner)
  · refine yields_bind h.parenthesizedType fun type isType => ?_
    exact yields_return (h.convertedOperand .inner) fun _ isOperand => by
      simpa using ⟨isType, isOperand⟩

theorem operand (context : Context) : Yields (operand r context) Term.Worded := by
  have literal : Yields (do return Term.literal (← accept fun _ => true).text) Term.Worded :=
    yields_return (yields_true _) fun _ _ => Term.worded_literal
  refine yields_after fun t => ?_
  cases t.kind with
  | number => exact literal
  | string => exact literal
  | rune => exact literal
  | word =>
    refine yields_ite ?_ (yields_ite (h.allocation context) (yields_ite h.functionOperand
      (yields_ite h.typeOperand (h.nameOperand context))))
    exact yields_return (yields_true _) fun _ _ => Term.worded_constant
  | operator => exact yields_ite h.parenthesizedOperand (yields_ite h.typeOperand yields_fail)
  | bad => exact yields_fail
  | finish => exact yields_fail

theorem callArguments (context : Context) :
    Yields (callArguments r context) fun arguments => ∀ t ∈ arguments, t.Worded :=
  yields_after fun _ => yields_bracketed (yields_bind (h.expression .inner) fun _ isArgument =>
    yields_after fun _ => yields_pure isArgument)

theorem afterPoint (context : Context) : Yields (afterPoint r context) fun make =>
    ∀ operand : Term, operand.Worded → (make operand).Worded := by
  refine yields_after fun _ => yields_after fun _ => yields_ite ?_ ?_
  · refine yields_after fun _ => yields_after fun _ => yields_ite ?_ ?_
    · exact yields_after fun _ => yields_after fun _ => yields_pure (by simp)
    · refine yields_bind (h.type .inner) fun type isType => yields_after fun _ => yields_pure ?_
      intro operand isOperand
      simpa using ⟨isOperand, isType⟩
  · exact yields_return yields_word fun field isField operand isOperand =>
      Term.worded_selector.mpr ⟨isOperand, isField⟩

theorem postfixPart (context : Context) : Yields (postfixPart r context) fun make =>
    ∀ operand : Term, operand.Worded → (make operand).Worded := by
  refine yields_orElse (h.afterPoint context) (yields_orElse ?_
    (yields_orElse (h.indexOrSlice context) ?_))
  · refine yields_bind (h.typeArguments context) fun types areTypes => yields_after fun _ => ?_
    refine yields_return (h.callArguments context) fun arguments areArguments callee isCallee => ?_
    simp only [Term.worded_node, List.forall_mem_cons, List.forall_mem_append]
    exact ⟨isCallee, areTypes, areArguments⟩
  · exact yields_return (h.callArguments context) fun arguments areArguments callee isCallee =>
      Term.worded_node.mpr (List.forall_mem_cons.mpr ⟨isCallee, areArguments⟩)

theorem primary (context : Context) : Yields (primary r context) Term.Worded := by
  refine yields_bind (h.operand context) fun first isFirst => ?_
  refine yields_return (yields_many (h.postfixPart context)) fun parts areParts => ?_
  induction parts generalizing first with
  | nil => exact isFirst
  | cons part rest ih =>
    rw [List.forall_mem_cons] at areParts
    exact ih (part first) (areParts.1 first isFirst) areParts.2

theorem unary (context : Context) : Yields (unary r context) Term.Worded := by
  refine yields_after fun operators => yields_return (h.primary context) fun operand isOperand => ?_
  induction operators with
  | nil => exact isOperand
  | cons op rest ih => simpa using ih

theorem anyExpression (context : Context) : Yields (Grammar.expression r context) Term.Worded := by
  unfold Grammar.expression
  induction binaryLevels with
  | nil => exact h.unary context
  | cons operators levels ih => exact chain_worded context operators ih

theorem expressions (context : Context) :
    Yields (expressions r context) fun found => ∀ t ∈ found, t.Worded :=
  yields_separated (h.anyExpression context)

/-! ### Declarations -/

theorem givenValues : Yields (givenValues r) fun values => ∀ t ∈ values, t.Worded :=
  yields_after fun _ => h.expressions .line

theorem constSpec : Yields (constSpec r) fun s => ∀ t ∈ s.parts, t.Worded := by
  have type : Yields (do refuses (operator "="); r.type .line) Term.Worded :=
    yields_after fun _ => h.type .line
  have given : Yields (do
      continues .line
      let type ← possibly (do refuses (operator "="); r.type .line)
      return (type, ← Grammar.givenValues r)) fun found =>
        (∀ t ∈ found.1.toList, t.Worded) ∧ ∀ t ∈ found.2, t.Worded :=
    yields_after fun _ => yields_bind (yields_possibly_toList type) fun _ isType =>
      yields_return h.givenValues fun _ areValues => ⟨isType, areValues⟩
  refine yields_return (yields_placed (P := WordedValue) ?_) fun _ holds => holds.parts
  refine yields_bind (yields_separated yields_word) fun names areNames => ?_
  refine yields_return (yields_possibly given) fun found holds => ?_
  cases found with
  | none => exact ⟨areNames, by simp, by simp⟩
  | some found => exact ⟨areNames, (holds found rfl).1, (holds found rfl).2⟩

theorem varSpec : Yields (varSpec r) fun s => ∀ t ∈ s.parts, t.Worded := by
  have values : Yields (do continues .line; Grammar.givenValues r) fun found =>
      ∀ t ∈ found, t.Worded := yields_after fun _ => h.givenValues
  refine yields_return (yields_placed (P := WordedValue) ?_) fun _ holds => holds.parts
  refine yields_bind (yields_separated yields_word) fun names areNames => ?_
  refine yields_after fun _ => yields_ite ?_ ?_
  · exact yields_return h.givenValues fun _ areValues => ⟨areNames, by simp, areValues⟩
  · refine yields_bind (h.type .line) fun type isType => ?_
    refine yields_return (yields_possibly values) fun found areValues => ?_
    refine ⟨areNames, by simpa using isType, ?_⟩
    cases found with
    | none => simp
    | some found => exact areValues found rfl

theorem typeBody : Yields (typeBody r) fun found => found.2.Worded :=
  yields_after fun _ => yields_ite
    (yields_after fun _ => yields_return (h.type .line) fun _ isType => isType)
    (yields_return (h.type .line) fun _ isType => isType)

theorem typeSpec : Yields (typeSpec r) fun s => ∀ t ∈ s.parts, t.Worded := by
  refine yields_return (yields_placed (P := fun found : Text × List TypeParam × Bool × Term =>
    isIdentifier found.1 = true ∧ (∀ p ∈ found.2.1, p.toTerm.Worded) ∧ found.2.2.2.Worded) ?_) ?_
  · refine yields_bind yields_word fun name isName => yields_orElse ?_ ?_
    · exact yields_return h.typeBody fun _ isType => ⟨isName, by simp, isType⟩
    · refine yields_bind h.typeParameters fun parameters areParameters => ?_
      exact yields_return h.typeBody fun _ isType => ⟨isName, areParameters, isType⟩
  · rintro ⟨⟨name, parameters, isAlias, type⟩, span⟩ ⟨isName, areParameters, isType⟩
    simp only [TypeSpec.parts, List.forall_mem_cons, List.forall_mem_append, List.forall_mem_map]
    exact ⟨Term.worded_typeName.mpr isName, areParameters, isType, nofun⟩

theorem declaration : Yields (declaration r) fun d => ∀ t ∈ d.parts, t.Worded := by
  refine yields_after fun _ => yields_ite ?_ (yields_ite ?_ ?_)
  all_goals refine yields_after fun _ => ?_
  · exact yields_return (specs_yield h.constSpec) fun _ all => List.forall_mem_flatMap.mpr all
  · exact yields_return (specs_yield h.varSpec) fun _ all => List.forall_mem_flatMap.mpr all
  · exact yields_return (specs_yield h.typeSpec) fun _ all => List.forall_mem_flatMap.mpr all

/-! ### Statements -/

theorem simple (context : Context) : Yields (simple r context) Term.Worded := by
  refine yields_bind (h.expressions context) fun targets areTargets => yields_after fun t => ?_
  have lone (form : Form) : Yields (do return Term.node form [← single targets]) Term.Worded :=
    yields_return (single_yields areTargets) fun _ isTarget => by simpa using isTarget
  have both (form : Form) :
      Yields (do return Term.node form (targets ++ (← Grammar.expressions r context))) Term.Worded :=
    yields_return (h.expressions context) fun _ areValues =>
      Term.worded_node.mpr (List.forall_mem_append.mpr ⟨areTargets, areValues⟩)
  refine yields_ite (lone _) (yields_ite ?_ (yields_ite ?_ (yields_ite ?_ (yields_ite ?_ (lone _)))))
  · exact yields_after fun _ => both _
  · exact yields_after fun _ => both _
  · exact yields_after fun _ => lone _
  · refine yields_after fun _ => yields_bind (single_yields areTargets) fun channel isChannel => ?_
    exact yields_return (h.anyExpression context) fun _ isValue => by
      simpa using ⟨isChannel, isValue⟩

theorem statements : Yields (statements r) fun body => ∀ t ∈ body, t.Worded := by
  refine yields_bind (yields_possibly (yields_separated h.statement)) fun body areBody => ?_
  refine yields_either (yields_true _) (yields_true _) fun _ _ => yields_pure ?_
  cases body with
  | none => simp
  | some body => exact areBody body rfl

theorem anyBlock : Yields (Grammar.block r) fun body => ∀ t ∈ body, t.Worded :=
  yields_after fun _ => yields_bind h.statements fun _ areBody =>
    yields_after fun _ => yields_pure areBody

theorem returnStatement : Yields (returnStatement r) Term.Worded := by
  have values : Yields (do continues .line; Grammar.expressions r .line) fun found =>
      ∀ t ∈ found, t.Worded := yields_after fun _ => h.expressions .line
  refine yields_after fun _ => yields_return (yields_possibly values) fun found areValues => ?_
  cases found with
  | none => simp
  | some found => exact Term.worded_node.mpr (areValues found rfl)

theorem conditionParts : Yields (conditionParts r) fun parts => ∀ t ∈ parts, t.Worded := by
  refine yields_orElse ?_ ?_
  · refine yields_bind (h.simple .head) fun before isBefore => yields_after fun _ => ?_
    exact yields_return (h.anyExpression .head) fun _ isCondition => by
      simpa using ⟨isBefore, isCondition⟩
  · exact yields_return (h.anyExpression .head) fun _ isCondition => by simpa using isCondition

theorem branchStatement : Yields (branchStatement r) Term.Worded := by
  have alternative : Yields (do
      continues .line
      keyword "else"
      let t ← peek
      ensure (isOperator "\x7b" t || isWord "if" t)
      r.statement) Term.Worded :=
    yields_after fun _ => yields_after fun _ => yields_after fun _ => yields_after fun _ => h.statement
  refine yields_after fun _ => yields_bind h.conditionParts fun head areHead => ?_
  refine yields_bind h.anyBlock fun body areBody => ?_
  refine yields_return (yields_possibly_toList alternative) fun other isOther => ?_
  simp only [Term.worded_node, List.forall_mem_append, List.forall_mem_singleton]
  exact ⟨⟨areHead, areBody⟩, isOther⟩

theorem rangeClause : Yields (rangeClause r) Term.Worded := by
  have targets : Yields (do
      let targets ← Grammar.expressions r .head
      let _ ← accept (isOneOf ["=", ":="])
      return targets) fun found => ∀ t ∈ found, t.Worded :=
    yields_bind (h.expressions .head) fun _ all => yields_after fun _ => yields_pure all
  refine yields_bind (yields_possibly targets) fun found areTargets => yields_after fun _ => ?_
  refine yields_return (h.anyExpression .head) fun value isValue => ?_
  cases found with
  | none => simpa using isValue
  | some found =>
    simp only [Option.getD_some, Term.worded_node, List.forall_mem_append, List.forall_mem_singleton]
    exact ⟨areTargets found rfl, isValue⟩

theorem countingClauses : Yields (countingClauses r) fun parts => ∀ t ∈ parts, t.Worded := by
  refine yields_bind (yields_possibly_toList (h.simple .head)) fun start isStart => ?_
  refine yields_after fun _ => ?_
  refine yields_bind (yields_possibly_toList (h.anyExpression .head)) fun condition isCondition => ?_
  refine yields_after fun _ => ?_
  refine yields_return (yields_possibly_toList (h.simple .head)) fun update isUpdate => ?_
  simp only [List.forall_mem_append]
  exact ⟨⟨isStart, isCondition⟩, isUpdate⟩

theorem loopStatement : Yields (loopStatement r) Term.Worded := by
  have alone {p : Parser Term} (hp : Yields p Term.Worded) :
      Yields (do return [← p]) fun parts => ∀ t ∈ parts, t.Worded :=
    yields_return hp fun _ holds => by simpa using holds
  refine yields_after fun _ => yields_after fun _ => ?_
  refine yields_either (yields_pure (by simp)) (yields_orElse (alone h.rangeClause)
    (yields_orElse h.countingClauses (alone (h.anyExpression .head)))) fun clauses areClauses => ?_
  refine yields_return h.anyBlock fun body areBody => ?_
  simp only [Term.worded_node, List.forall_mem_append, List.forall_mem_singleton]
  exact ⟨areClauses, areBody⟩

theorem casesOf {heads : Parser (List Term)}
    (isHeads : Yields heads fun found => ∀ t ∈ found, t.Worded) :
    Yields (casesOf r heads) fun cases => ∀ t ∈ cases, t.Worded := by
  have body : Yields (caseBody r) fun found => ∀ t ∈ found, t.Worded :=
    yields_after fun _ => h.statements
  have one : Yields (caseOf r heads <|> defaultCase r) Term.Worded := by
    refine yields_orElse ?_ ?_
    · refine yields_after fun _ => yields_bind isHeads fun found areHeads => ?_
      exact yields_return body fun _ areBody =>
        Term.worded_node.mpr (List.forall_mem_append.mpr ⟨areHeads, areBody⟩)
    · exact yields_after fun _ => yields_return body fun _ areBody => Term.worded_node.mpr areBody
  exact yields_after fun _ => yields_bind (yields_many one) fun _ all =>
    yields_after fun _ => yields_pure all

theorem switchHeads :
    Yields (switchHeads r) fun heads => ∀ t ∈ heads.1 ++ heads.2.toList, t.Worded := by
  have value := yields_possibly_toList (h.simple .switchHead)
  refine yields_orElse ?_ (yields_return value fun _ isValue => isValue)
  refine yields_bind (h.simple .switchHead) fun before isBefore => yields_after fun _ => ?_
  exact yields_return value fun _ isValue => List.forall_mem_cons.mpr ⟨isBefore, isValue⟩

theorem switchStatement : Yields (switchStatement r) Term.Worded := by
  refine yields_after fun _ => yields_after fun _ => ?_
  refine yields_either (yields_pure (by simp)) h.switchHeads fun heads areHeads => ?_
  refine yields_ite ?_ (yields_after fun _ => ?_)
  · exact yields_return (h.casesOf (yields_separated (h.type .inner))) fun _ areCases =>
      Term.worded_node.mpr (List.forall_mem_append.mpr ⟨areHeads, areCases⟩)
  · exact yields_return (h.casesOf (h.expressions .inner)) fun _ areCases =>
      Term.worded_node.mpr (List.forall_mem_append.mpr ⟨areHeads, areCases⟩)

theorem communication : Yields (communication r) fun parts => ∀ t ∈ parts, t.Worded := by
  refine yields_bind (h.expressions .inner) fun targets areTargets => yields_after fun _ => ?_
  refine yields_ite (yields_after fun _ => ?_) ?_
  · refine yields_return (h.anyExpression .inner) fun value isValue => ?_
    simp only [List.forall_mem_append, List.forall_mem_singleton]
    exact ⟨areTargets, isValue⟩
  · exact yields_return (single_yields areTargets) fun _ isTarget => by simpa using isTarget

theorem anyStatement : Yields (Grammar.statement r) Term.Worded := by
  have of (form : Form) : Yields (do return Term.node form [← Grammar.expression r .line]) Term.Worded :=
    yields_return (h.anyExpression .line) fun _ isValue => by simpa using isValue
  refine yields_after fun t => yields_ite ?block (yields_ite ?empty (yields_ite ?declaration
    (yields_ite h.returnStatement (yields_ite ?go (yields_ite ?defer (yields_ite h.branchStatement
      (yields_ite h.loopStatement (yields_ite h.switchStatement (yields_ite ?select
        (yields_ite ?jump (yields_ite yields_fail (yields_orElse ?labeled (h.simple .line)))))))))))))
  case block => exact yields_return h.anyBlock fun _ all => Term.worded_node.mpr all
  case empty => exact yields_after fun _ => yields_pure (by simp)
  case declaration => exact yields_return h.declaration fun _ all => Term.worded_node.mpr all
  case go => exact yields_after fun _ => of .go
  case defer => exact yields_after fun _ => of .defer
  case select =>
    exact yields_after fun _ => yields_return (h.casesOf h.communication) fun _ all =>
      Term.worded_node.mpr all
  case jump => exact yields_after fun _ => yields_after fun _ => yields_pure (by simp)
  case labeled =>
    exact yields_after fun _ => yields_after fun _ =>
      yields_return (yields_possibly_toList h.statement) fun _ isStatement =>
        Term.worded_node.mpr isStatement

end Worded

/-- **The rules** read trees whose names are identifiers, at any depth. -/
theorem rules_worded (depth : Nat) : Worded (rules depth) := by
  induction depth with
  | zero => exact ⟨fun _ => yields_fail, fun _ => yields_fail, yields_fail, yields_fail⟩
  | succ depth ih => exact ⟨ih.anyType, ih.anyExpression, ih.anyBlock, ih.anyStatement⟩

/-! ### Files -/

/-- The trees of an item that declares something. -/
def declaredParts : Item → List Term
  | .function f => f.parts
  | .declaration d => d.parts
  | _ => []

theorem functionParts_worded {name : Text} {receiver : Option (List Param)} {types : List TypeParam}
    {given returned : List Param} {body : List Term} (areTypes : ∀ p ∈ types, p.toTerm.Worded)
    (isReceiver : ∀ p ∈ receiver.getD [], p.toTerm.Worded)
    (isGiven : ∀ p ∈ given, p.toTerm.Worded) (isReturned : ∀ p ∈ returned, p.toTerm.Worded)
    (areBody : ∀ t ∈ body, t.Worded) :
    ∀ t ∈ declaredParts (.function ⟨name, receiver, types, given, returned, body⟩), t.Worded := by
  simp only [declaredParts, Function.parts, List.forall_mem_append, List.forall_mem_map]
  exact ⟨areTypes, ⟨⟨isReceiver, isGiven⟩, isReturned⟩, areBody⟩

theorem item_worded {r : Rules} (h : Worded r) :
    Yields (item r) fun found => ∀ t ∈ declaredParts found, t.Worded := by
  have body : Yields (functionBody r) fun found => ∀ t ∈ found, t.Worded :=
    yields_after fun _ => yields_ite h.anyBlock (yields_pure (by simp))
  have statements : Yields (do return Item.statement (← statement r)) fun found =>
      ∀ t ∈ declaredParts found, t.Worded := yields_after fun _ => yields_pure nofun
  refine yields_after fun t => ?_
  refine yields_ite ?package (yields_ite ?imports (yields_ite ?declaration
    (yields_ite ?function statements)))
  case package => exact yields_after fun _ => yields_after fun _ => yields_pure nofun
  case imports =>
    refine yields_after fun _ => yields_after fun _ => yields_ite ?_ ?_
    · exact yields_after fun _ => yields_pure nofun
    · exact yields_after fun _ => yields_pure nofun
  case declaration => exact yields_return h.declaration fun _ all => all
  case function =>
    refine yields_orElse ?_ (yields_orElse ?_ statements)
    · refine yields_after fun _ => yields_after fun name => yields_after fun _ => ?_
      refine yields_either h.typeParameters (yields_pure (by simp)) fun types areTypes => ?_
      refine yields_bind (h.signature .line) fun found parts => yields_return body fun _ areBody => ?_
      exact functionParts_worded areTypes (by simp) parts.1 parts.2 areBody
    · refine yields_after fun _ => yields_bind h.parameters fun receiver isReceiver => ?_
      refine yields_after fun name => ?_
      refine yields_bind (h.signature .line) fun found parts => yields_return body fun _ areBody => ?_
      exact functionParts_worded (by simp) isReceiver parts.1 parts.2 areBody

end Grammar

/-! ### Declarations of a file -/

theorem eraseReps_subset (names : List Text) : names.eraseReps ⊆ names := by
  -- The loop holds the last name it has seen and those before it.
  have loop (last : Text) (rest seen : List Text) :
      List.eraseRepsBy.loop (· == ·) last rest seen ⊆ last :: (rest ++ seen) := by
    induction rest generalizing last seen with
    | nil => simp [List.eraseRepsBy.loop]
    | cons next rest ih =>
      unfold List.eraseRepsBy.loop
      split
      · exact List.Subset.trans (ih last seen) (by simp)
      · exact List.Subset.trans (ih next (last :: seen)) (by grind)
  cases names with
  | nil => exact List.nil_subset _
  | cons first rest =>
    have all := loop first rest []
    rwa [List.append_nil] at all

theorem mem_of_mem_sortedNames {names : List Text} {name : Text} (h : name ∈ sortedNames names) :
    name ∈ names :=
  mem_sortedBy.mp (eraseReps_subset _ h)

theorem Decl.parts_subset {decl : Decl} {spec : Spec} (h : spec ∈ decl.specs.2.2) :
    spec.parts ⊆ decl.parts := by
  cases decl with
  | const _ specs | var _ specs | type _ specs =>
    obtain ⟨s, member, rfl⟩ := List.mem_map.mp h
    intro t inside
    exact List.mem_flatMap.mpr ⟨s, member, inside⟩

/-- What a declaration uses stands in the item that it comes from. -/
theorem qualifiers_of_mem_declarations {source : Text} {decl : Decl} {span : Span}
    {doc : Option Text} {d : Declaration} (h : d ∈ decl.declarations source span doc) :
    ∃ parts, parts ⊆ decl.parts ∧ d.qualifiers = sortedNames (Term.qualifiersOf parts) := by
  have ofSpecs {specs : List Spec} (inside : specs ⊆ decl.specs.2.2) (kind span text doc) :
      ∃ parts, parts ⊆ decl.parts ∧ (specDeclaration kind span text doc specs).qualifiers =
        sortedNames (Term.qualifiersOf parts) := by
    refine ⟨specs.flatMap (·.parts), ?_, rfl⟩
    intro t member
    obtain ⟨spec, among, part⟩ := List.mem_flatMap.mp member
    exact Decl.parts_subset (inside among) part
  unfold Decl.declarations at h
  dsimp only at h
  split at h
  · cases h
  · rename_i first rest specs
    split at h
    · obtain rfl | member := List.mem_cons.mp h
      · exact ofSpecs (by simp [specs]) ..
      · obtain ⟨spec, among, rfl⟩ := List.mem_map.mp member
        exact ofSpecs (by simp [specs, among]) ..
    · obtain rfl := List.mem_singleton.mp h
      exact ofSpecs (by simp [specs]) ..

/-- **The names before a point** in a declaration of a file are identifiers. -/
theorem isIdentifier_of_qualifier {text : Text} {d : Declaration}
    (h : d ∈ (Source.ofText text).declarations) {q : Text} (used : q ∈ d.qualifiers) :
    isIdentifier q = true := by
  obtain ⟨located, member, doc, declared⟩ := mem_declarationsFrom h
  have worded := Grammar.items_yield (Grammar.item_worded (Grammar.rules_worded _)) _ _ located member
  have ofParts {parts : List Term} (inside : parts ⊆ Grammar.declaredParts located.item)
      (here : q ∈ sortedNames (Term.qualifiersOf parts)) : isIdentifier q = true := by
    obtain ⟨part, among, isWord⟩ :=
      Term.mem_wordsOf.mp (Term.qualifiersOf_subset parts (mem_of_mem_sortedNames here))
    exact worded part (inside among) q isWord
  cases item : located.item with
  | function f =>
    rw [item] at declared
    obtain rfl := List.mem_singleton.mp declared
    exact ofParts (by simp [item, Grammar.declaredParts]) used
  | declaration decl =>
    rw [item] at declared
    obtain ⟨parts, inside, qualifiers⟩ := qualifiers_of_mem_declarations declared
    exact ofParts (by simpa [item, Grammar.declaredParts] using inside) (qualifiers ▸ used)
  | package name => simp [item, Item.declarations] at declared
  | imports lines => simp [item, Item.declarations] at declared
  | statement term => simp [item, Item.declarations] at declared

end Prefill.Go
