import Prefill.Proofs.Moving

/-!
The productions of the grammar read moved lexemes like the lexemes as they are, one lemma for each
production in the order of the grammar. A production that takes a lexeme before it calls a recursive
rule reads lists one longer than the rules do (`Alike`), which is how the knot is tied
(`rules_alike`): the rules for any two depths agree on all lists that are no longer than the lesser
depth.
-/

namespace Prefill.Go.Grammar

open Prefill.Go.Parser

variable {move : Position → Position} {bound : Nat} {r s : Rules}

/-- Rules that read the same from at most `bound` lexemes, as they are and moved. -/
structure Alike (move : Position → Position) (bound : Nat) (r s : Rules) : Prop where
  type : ∀ context, Carries move 1 bound id (r.type context) (s.type context)
  expression : ∀ context, Carries move 1 bound id (r.expression context) (s.expression context)
  block : Carries move 1 bound id r.block s.block
  statement : Carries move 1 bound id r.statement s.statement

/-! ### Types -/

theorem carries_plainType (context : Context) :
    Carries move 1 bound id (plainType context) (plainType context) := by
  have member : Carries move 1 bound id (do follows context "."; word)
      (do follows context "."; word) := (Carries.follows context ".").bind fun _ => .word
  exact (Carries.nameExcept _).before fun _ => member.possibly_still.andReturn fun _ => rfl

theorem asTypes_moved (waiting : List (Text × Span)) :
    asTypes (waiting.map (Prod.map id (Span.moved move))) =
      (asTypes waiting).map (Param.moved move) := by
  simp [asTypes, Param.moved]

theorem gather_moved (entries : List Entry) (waiting : List (Text × Span)) :
    gather (waiting.map (Prod.map id (Span.moved move))) (entries.map (Entry.moved move)) =
      (gather waiting entries).map (Param.moved move) := by
  fun_induction gather waiting entries with
  | case1 waiting => exact asTypes_moved waiting
  | case2 waiting name span rest ih => simpa [gather, Entry.moved] using ih
  | case3 waiting type span rest notName ih =>
    simp [gather, Entry.moved, asTypes_moved, Param.moved, ← ih]
  | case4 waiting name type span rest ih =>
    simp [gather, Entry.moved, Param.moved, ← ih]
  | case5 waiting name type span rest ih =>
    simp [gather, Entry.moved, asTypes_moved, Param.moved, ← ih]

theorem map_toTerm_moved (params : List Param) :
    (params.map (Param.moved move)).map Param.toTerm = params.map Param.toTerm := by
  rw [List.map_map]
  rfl

theorem signatureParts_moved (given returned : List Param) :
    signatureParts (given.map (Param.moved move)) (returned.map (Param.moved move)) =
      signatureParts given returned := by
  simp only [signatureParts, List.map_append, map_toTerm_moved]

theorem carries_tag : Carries move 1 bound id tag tag :=
  (Carries.continues .line).bind fun _ => (Carries.accept fun _ => rfl).andReturn fun _ => rfl

theorem carries_fieldEnds : Carries move 0 bound id fieldEnds fieldEnds :=
  Carries.peek.bind fun _ => .ensure _

namespace Alike

variable (h : Alike move bound r s)
include h

theorem constraint (context : Context) :
    Carries move 1 bound id (constraint r context) (constraint s context) :=
  (Carries.separated_still (.follows context "|") (h.type context)).andReturn fun _ => rfl

theorem typeArguments (context : Context) :
    Carries move 1 (bound + 1) id (typeArguments r context) (typeArguments s context) :=
  (Carries.continues context).bind fun _ =>
    ((h.constraint .inner).bracketed_still "[" "]").before fun _ =>
      (Carries.ensure _).andReturn fun _ => rfl

theorem namedType (context : Context) :
    Carries move 1 (bound + 1) id (namedType r context) (namedType s context) :=
  (carries_plainType context).before fun _ =>
    (h.typeArguments context).possibly_still.andReturn fun _ => rfl

theorem variadicEntry :
    Carries move 1 (bound + 1) (Entry.moved move) (variadicEntry r) (variadicEntry s) :=
  (Carries.nameExcept _).possibly_still.bind fun _ => (Carries.operator _).next fun _ =>
    (h.type _).placed.andReturn fun _ => rfl

theorem pairEntry : Carries move 1 (bound + 1) (Entry.moved move) (pairEntry r) (pairEntry s) :=
  (Carries.nameExcept _).next fun _ => (h.type _).placed.andReturn fun _ => rfl

theorem loneEntry : Carries move 1 bound (Entry.moved move) (loneEntry r) (loneEntry s) :=
  (h.type _).placed.andReturn fun _ => rfl

theorem entry : Carries move 1 bound (Entry.moved move) (entry r) (entry s) :=
  h.variadicEntry.pred.orElse (h.pairEntry.pred.orElse h.loneEntry)

theorem parameters :
    Carries move 1 (bound + 1) (List.map (Param.moved move)) (parameters r) (parameters s) :=
  (h.entry.bracketed "(" ")").andReturn fun entries => gather_moved entries []

theorem results (context : Context) :
    Carries move 1 bound (List.map (Param.moved move)) (results r context) (results s context) :=
  (Carries.continues context).bind fun _ => (Carries.seesOperator "(").bind fun _ =>
    .ite h.parameters.pred ((h.type context).placed.andReturn fun _ => rfl)

theorem signature (context : Context) :
    Carries move 1 (bound + 1)
      (Prod.map (List.map (Param.moved move)) (List.map (Param.moved move)))
      (signature r context) (signature s context) :=
  h.parameters.next fun _ => (h.results context).possibly.andReturn fun returned => by
    cases returned <;> rfl

theorem embeddedField :
    Carries move 1 (bound + 1) id (embeddedField r) (embeddedField s) :=
  (Carries.operator "*").possibly_still.bind fun _ => (h.namedType .line).before fun _ =>
    carries_fieldEnds.andReturn fun _ => rfl

theorem namedField : Carries move 1 (bound + 1) id (namedField r) (namedField s) :=
  (Carries.separated_still (.operator ",") .word).next fun _ =>
    (Carries.continues .line).bind fun _ => (h.type .line).andReturn fun _ => rfl

theorem field : Carries move 1 (bound + 1) id (field r) (field s) :=
  (h.embeddedField.orElse h.namedField).before fun _ =>
    carries_tag.possibly_still.andReturn fun _ => rfl

theorem member : Carries move 1 bound id (member r) (member s) := by
  refine .orElse ?_ (h.constraint .line)
  exact Carries.word.before fun name => (h.signature .line).pred.andReturn fun ⟨given, returned⟩ =>
    congrArg (Term.node (.method name)) (signatureParts_moved given returned)

theorem channelType (context : Context) :
    Carries move 1 (bound + 1) id (channelType r context) (channelType s context) :=
  (Carries.seesOperator "<-").bind fun _ => .ite
    ((Carries.operator "<-").next fun _ => (Carries.keyword "chan").bind fun _ =>
      (h.type context).andReturn fun _ => rfl)
    ((Carries.keyword "chan").next fun _ => (Carries.operator "<-").possibly_still.bind fun _ =>
      (h.type context).andReturn fun _ => rfl)

theorem sequenceType (context : Context) :
    Carries move 1 (bound + 1) id (sequenceType r context) (sequenceType s context) :=
  (Carries.operator "[").next fun _ => (Carries.seesOperator "]").bind fun _ => .ite
    ((Carries.operator "]").bind fun _ => (h.type context).andReturn fun _ => rfl)
    ((h.expression .inner).bind fun _ => (Carries.operator "]").bind fun _ =>
      (h.type context).andReturn fun _ => rfl)

theorem mapType (context : Context) :
    Carries move 1 (bound + 1) id (mapType r context) (mapType s context) :=
  (Carries.keyword "map").next fun _ => (Carries.operator "[").bind fun _ =>
    (h.type .inner).bind fun _ => (Carries.operator "]").bind fun _ =>
      (h.type context).andReturn fun _ => rfl

theorem structType : Carries move 1 (bound + 1) id (structType r) (structType s) :=
  (Carries.keyword "struct").next fun _ =>
    (h.field.pred.listed_still "\x7b" "\x7d").pred.andReturn fun _ => rfl

theorem interfaceType : Carries move 1 (bound + 1) id (interfaceType r) (interfaceType s) :=
  (Carries.keyword "interface").next fun _ =>
    (h.member.listed_still "\x7b" "\x7d").pred.andReturn fun _ => rfl

theorem builtType (context : Context) :
    Carries move 1 (bound + 1) id (builtType r context) (builtType s context) := by
  refine Carries.peek.bind fun t => ?_
  refine .ite (h.mapType context) (.ite h.structType (.ite h.interfaceType
    (.ite (h.channelType context) (.ite (h.sequenceType context) (.ite ?_ (.ite ?_ (.ite ?_ .fail)))))))
  · exact (Carries.keyword "func").next fun _ =>
      (h.signature context).pred.andReturn fun ⟨given, returned⟩ =>
        congrArg (Term.node .functionType) (signatureParts_moved given returned)
  · exact (Carries.operator "*").next fun _ => (h.type context).andReturn fun _ => rfl
  · exact (Carries.operator "~").next fun _ => (h.type context).andReturn fun _ => rfl

theorem parenthesizedType :
    Carries move 1 (bound + 1) id (parenthesizedType r) (parenthesizedType s) :=
  (Carries.operator "(").next fun _ => (h.type .inner).bind fun _ =>
    (Carries.operator ")").andReturn fun _ => rfl

theorem anyType (context : Context) :
    Carries move 1 (bound + 1) id (Grammar.type r context) (Grammar.type s context) :=
  (h.namedType context).orElse ((h.builtType context).orElse h.parenthesizedType)

theorem typeParameters :
    Carries move 1 (bound + 1) id (typeParameters r) (typeParameters s) := by
  have parameter : Carries move 1 bound id
      (do
        let names ← separated (operator ",") word
        return TypeParam.mk names (← Grammar.constraint r .inner))
      (do
        let names ← separated (operator ",") word
        return TypeParam.mk names (← Grammar.constraint s .inner)) :=
    (Carries.separated_still (.operator ",") .word).bind fun _ =>
      (h.constraint .inner).andReturn fun _ => rfl
  exact (parameter.bracketed_still "[" "]").before fun _ =>
    (Carries.ensure _).andReturn fun _ => rfl

end Alike

/-! ### Expressions -/

theorem carries_elementsOf {k : Nat} {p q : Parser Term} (h : Carries move k bound id p q) :
    Carries move 1 (bound + 1) id (elementsOf p) (elementsOf q) := h.bracketed_still "\x7b" "\x7d"

theorem carries_keyedOr {k : Nat} {p q : Parser Term} (h : Carries move k bound id p q) :
    Carries move k bound id (elementValue.keyedOr p) (elementValue.keyedOr q) := by
  refine h.before (k := 0) fun _ => (Carries.operator ":").possibly_still.bind fun colon => ?_
  cases colon with
  | none => exact .still _
  | some _ =>
    refine Carries.weaken ?_ (Nat.zero_le k)
    exact h.andReturn fun _ => rfl

theorem carries_chain (context : Context) (operators : List String) {p q : Parser Term}
    (h : Carries move 1 bound id p q) :
    Carries move 1 bound id (chain context operators p) (chain context operators q) := by
  have step : Carries move 1 bound id
      (do
        continues context
        let op ← accept (isOneOf operators)
        return (op.text, ← p))
      (do
        continues context
        let op ← accept (isOneOf operators)
        return (op.text, ← q)) :=
    (Carries.continues context).bind fun _ => (Carries.accept fun _ => rfl).bind fun _ =>
      h.andReturn fun _ => rfl
  exact h.before fun _ => step.many_still.andReturn fun _ => rfl

theorem carries_chains (context : Context) (levels : List (List String)) {p q : Parser Term}
    (h : Carries move 1 bound id p q) :
    Carries move 1 bound id (levels.foldr (chain context) p) (levels.foldr (chain context) q) := by
  induction levels with
  | nil => exact h
  | cons operators levels ih => exact carries_chain context operators ih

namespace Alike

variable (h : Alike move bound r s)
include h

theorem elementValue (depth : Nat) :
    Carries move 1 bound id (elementValue r depth) (elementValue s depth) := by
  induction depth with
  | zero => exact h.expression .inner
  | succ depth ih =>
    exact (Carries.seesOperator "\x7b").bind fun _ => .ite
      ((carries_elementsOf (carries_keyedOr ih)).pred.andReturn fun _ => rfl) (h.expression .inner)

theorem literalBody : Carries move 1 (bound + 1) id (literalBody r) (literalBody s) := by
  have body (depth : Nat) := carries_elementsOf (carries_keyedOr (h.elementValue depth))
  refine ⟨fun ts short => ?_, fun ts => (body ts.length).takes ts⟩
  unfold Grammar.literalBody
  rw [List.length_map]
  exact (body ts.length).moved ts short

theorem literalAfter (context : Context) (bare : Bool) :
    Carries move 1 (bound + 1) id (literalAfter r context bare) (literalAfter s context bare) :=
  (Carries.continues context).bind fun _ => .ite
    ((Carries.ensure _).bind fun _ => h.literalBody.before fun _ => Carries.peek.bind fun _ =>
      (Carries.ensure _).andReturn fun _ => rfl)
    h.literalBody

theorem plainComposite (context : Context) :
    Carries move 1 (bound + 1) id (plainComposite r context) (plainComposite s context) :=
  (carries_plainType context).bind fun _ => (h.literalAfter context _).andReturn fun _ => rfl

theorem genericComposite (context : Context) :
    Carries move 1 (bound + 1) id (genericComposite r context) (genericComposite s context) :=
  (carries_plainType context).bind fun _ => (h.typeArguments context).bind fun _ =>
    (h.literalAfter context false).andReturn fun _ => rfl

theorem convertedOperand (context : Context) :
    Carries move 1 (bound + 1) id (convertedOperand r context) (convertedOperand s context) :=
  (Carries.follows context "(").next fun _ => (h.expression .inner).bind fun _ =>
    (Carries.operator ",").possibly_still.bind fun _ => (Carries.operator ")").andReturn fun _ => rfl

theorem genericConversion (context : Context) :
    Carries move 1 (bound + 1) id (genericConversion r context) (genericConversion s context) :=
  (carries_plainType context).bind fun _ => (h.typeArguments context).bind fun _ =>
    (h.convertedOperand context).andReturn fun _ => rfl

theorem indexOrSlice (context : Context) :
    Carries move 1 (bound + 1) id (indexOrSlice r context) (indexOrSlice s context) := by
  have third : Carries move 1 bound id (do operator ":"; r.expression .inner)
      (do operator ":"; s.expression .inner) :=
    (Carries.operator ":").bind fun _ => h.expression .inner
  refine (Carries.follows context "[").next (k := 1) fun _ =>
    (h.expression .inner).possibly_still.bind fun first =>
      (Carries.seesOperator ":").bind fun _ => .ite ?_ ?_
  · refine (Carries.operator ":").bind fun _ =>
      (h.expression .inner).possibly_still.bind fun second => ?_
    cases second with
    | none => exact (Carries.still none).bind fun _ => (Carries.operator "]").andReturn fun _ => rfl
    | some second =>
      exact third.possibly_still.bind fun _ => (Carries.operator "]").andReturn fun _ => rfl
  · refine (Carries.operator "]").before (k := 0) fun _ => ?_
    cases first with
    | none => exact .fail
    | some index => exact .still _

theorem loneInstantiation (context : Context) :
    Carries move 1 (bound + 1) id (loneInstantiation r context) (loneInstantiation s context) :=
  (carries_plainType context).before fun _ => (h.indexOrSlice context).refuses.bind fun _ =>
    (h.typeArguments context).bind fun _ => (Carries.follows context "(").refuses.andReturn
      fun _ => rfl

theorem nameOperand (context : Context) :
    Carries move 1 (bound + 1) id (nameOperand r context) (nameOperand s context) :=
  (h.genericComposite context).orElse ((h.genericConversion context).orElse
    ((h.plainComposite context).orElse ((h.loneInstantiation context).orElse
      (Carries.word.andReturn fun _ => rfl))))

theorem allocation (context : Context) :
    Carries move 1 (bound + 1) id (allocation r context) (allocation s context) := by
  have argument : Carries move 1 bound id (do operator ","; r.expression .inner)
      (do operator ","; s.expression .inner) :=
    (Carries.operator ",").bind fun _ => h.expression .inner
  refine Carries.word.next (k := 0) fun _ =>
    (Carries.follows context "(").refuses.possibly_still.bind fun _ => .ite (.still _) ?_
  refine (Carries.operator "(").bind fun _ => (h.type .inner).possibly_still.bind fun type => ?_
  cases type with
  | none =>
    exact (Carries.still []).bind fun _ => (Carries.still none).bind fun _ =>
      (Carries.operator ")").bind fun _ => .still _
  | some type =>
    exact argument.many_still.bind fun _ => (Carries.operator ",").possibly_still.bind fun _ =>
      (Carries.operator ")").bind fun _ => .still _

theorem functionOperand : Carries move 1 (bound + 1) id (functionOperand r) (functionOperand s) := by
  refine (Carries.keyword "func").next (k := 0) fun _ =>
    (h.signature .inner).pred.bind fun ⟨given, returned⟩ => ?_
  dsimp only [Prod.map]
  rw [signatureParts_moved]
  exact (Carries.seesOperator "\x7b").bind fun _ => .ite
    (h.block.bind fun _ => .still _) ((h.convertedOperand .inner).pred.bind fun _ => .still _)

theorem measuredArrayType :
    Carries move 1 (bound + 1) id (measuredArrayType r) (measuredArrayType s) :=
  (Carries.operator "[").next fun _ => (Carries.operator "...").bind fun _ =>
    (Carries.operator "]").bind fun _ => (h.type .inner).andReturn fun _ => rfl

theorem typeOperand : Carries move 1 (bound + 1) id (typeOperand r) (typeOperand s) :=
  (h.measuredArrayType.orElse (h.builtType .inner)).before fun _ =>
    (Carries.seesOperator "\x7b").bind fun _ => .ite
      ((Carries.ensure _).bind fun _ => h.literalBody.andReturn fun _ => rfl)
      ((h.convertedOperand .inner).andReturn fun _ => rfl)

theorem parenthesizedOperand :
    Carries move 1 (bound + 1) id (parenthesizedOperand r) (parenthesizedOperand s) := by
  refine .orElse ?_ ?_
  · exact (Carries.operator "(").next fun _ => (h.expression .inner).bind fun _ =>
      (Carries.operator ")").andReturn fun _ => rfl
  · exact h.parenthesizedType.before fun _ => (h.convertedOperand .inner).andReturn fun _ => rfl

theorem operand (context : Context) :
    Carries move 1 (bound + 1) id (operand r context) (operand s context) := by
  refine Carries.peek.bind fun t => ?_
  have kindEq : (t.moved move).kind = t.kind := rfl
  rw [kindEq]
  have literal : Carries move 1 (bound + 1) id
      (do return Term.literal (← accept fun _ => true).text)
      (do return Term.literal (← accept fun _ => true).text) :=
    (Carries.accept fun _ => rfl).andReturn fun _ => rfl
  cases t.kind with
  | number => exact literal
  | string => exact literal
  | rune => exact literal
  | word =>
    exact .ite (Carries.word.andReturn fun _ => rfl) (.ite (h.allocation context)
      (.ite h.functionOperand (.ite h.typeOperand (h.nameOperand context))))
  | operator => exact .ite h.parenthesizedOperand (.ite h.typeOperand .fail)
  | bad => exact .fail
  | finish => exact .fail

theorem callArguments (context : Context) :
    Carries move 1 (bound + 1) id (callArguments r context) (callArguments s context) := by
  have argument : Carries move 1 bound id
      (do
        let argument ← r.expression .inner
        let _ ← possibly (operator "...")
        return argument)
      (do
        let argument ← s.expression .inner
        let _ ← possibly (operator "...")
        return argument) :=
    (h.expression .inner).before fun _ =>
      (Carries.operator "...").possibly_still.andReturn fun _ => rfl
  exact (Carries.continues context).bind fun _ => argument.bracketed_still "(" ")"

theorem afterPoint (context : Context) :
    Carries move 1 (bound + 1) id (afterPoint r context) (afterPoint s context) := by
  refine (Carries.follows context ".").next (k := 1) fun _ =>
    (Carries.seesOperator "(").bind fun _ => .ite ?_ (Carries.word.andReturn fun _ => rfl)
  refine (Carries.operator "(").bind fun _ => (Carries.sees fun _ => rfl).bind fun _ => .ite ?_ ?_
  · exact (Carries.keyword "type").bind fun _ => (Carries.operator ")").andReturn fun _ => rfl
  · exact (h.type .inner).bind fun _ => (Carries.operator ")").andReturn fun _ => rfl

theorem typedCall (context : Context) :
    Carries move 1 (bound + 1) id (typedCall r context) (typedCall s context) :=
  (h.typeArguments context).bind fun _ => (Carries.ensure _).bind fun _ =>
    (h.callArguments context).andReturn fun _ => rfl

theorem postfixPart (context : Context) :
    Carries move 1 (bound + 1) id (postfixPart r context) (postfixPart s context) :=
  (h.afterPoint context).orElse ((h.typedCall context).orElse ((h.indexOrSlice context).orElse
    ((h.callArguments context).andReturn fun _ => rfl)))

theorem primary (context : Context) :
    Carries move 1 (bound + 1) id (primary r context) (primary s context) :=
  (h.operand context).before fun _ => (h.postfixPart context).many_still.andReturn fun _ => rfl

theorem unary (context : Context) :
    Carries move 1 (bound + 1) id (unary r context) (unary s context) := by
  refine (Carries.accept fun _ => rfl).many.bind fun operators =>
    (h.primary context).andReturn fun _ => ?_
  rw [List.foldr_map]
  rfl

theorem anyExpression (context : Context) :
    Carries move 1 (bound + 1) id (Grammar.expression r context) (Grammar.expression s context) :=
  carries_chains context _ (h.unary context)

theorem expressions (context : Context) :
    Carries move 1 (bound + 1) id (expressions r context) (expressions s context) :=
  .separated_still (.follows context ",") (h.anyExpression context)

end Alike

/-! ### Declarations -/

theorem carries_specs {α : Type} {shift : α → α} {p q : Parser α}
    (h : Carries move 1 bound shift p q) :
    Carries move 1 bound (Prod.map id (List.map shift)) (specs p) (specs q) := by
  have one : Carries move 1 bound shift (do let item ← p; terminator; pure item)
      (do let item ← q; terminator; pure item) :=
    h.before fun _ => Carries.terminator.andReturn fun _ => rfl
  exact (Carries.seesOperator "(").bind fun _ => .ite
    ((Carries.operator "(").before fun _ => one.many.bind fun _ =>
      (Carries.operator ")").andReturn fun _ => rfl)
    (h.andReturn fun _ => rfl)

namespace Alike

variable (h : Alike move bound r s)
include h

theorem givenValues : Carries move 1 (bound + 1) id (givenValues r) (givenValues s) :=
  (Carries.operator "=").bind fun _ => h.expressions .line

theorem constSpec :
    Carries move 1 (bound + 1) (ValueSpec.moved move) (constSpec r) (constSpec s) := by
  have type : Carries move 1 bound id (do refuses (operator "="); r.type .line)
      (do refuses (operator "="); s.type .line) :=
    (Carries.operator "=").refuses.bind fun _ => h.type .line
  have given : Carries move 1 bound id
      (do
        continues .line
        let type ← possibly (do refuses (operator "="); r.type .line)
        return (type, ← Grammar.givenValues r))
      (do
        continues .line
        let type ← possibly (do refuses (operator "="); s.type .line)
        return (type, ← Grammar.givenValues s)) :=
    (Carries.continues .line).bind fun _ => type.possibly_still.bind fun _ =>
      h.givenValues.pred.andReturn fun _ => rfl
  refine Carries.andReturn (.placed_still ?_) fun _ => rfl
  exact (Carries.separated_still (.follows .line ",") .word).next fun _ =>
    given.possibly_still.andReturn fun _ => rfl

theorem varSpec : Carries move 1 (bound + 1) (ValueSpec.moved move) (varSpec r) (varSpec s) := by
  have values : Carries move 1 bound id (do continues .line; Grammar.givenValues r)
      (do continues .line; Grammar.givenValues s) :=
    (Carries.continues .line).bind fun _ => h.givenValues.pred
  refine Carries.andReturn (.placed_still ?_) fun _ => rfl
  exact (Carries.separated_still (.operator ",") .word).next fun _ =>
    (Carries.seesOperator "=").bind fun _ => .ite
      (h.givenValues.pred.andReturn fun _ => rfl)
      ((h.type .line).before fun _ => values.possibly_still.andReturn fun _ => rfl)

theorem typeBody : Carries move 1 bound id (typeBody r) (typeBody s) :=
  (Carries.seesOperator "=").bind fun _ => .ite
    ((Carries.operator "=").bind fun _ => (h.type .line).andReturn fun _ => rfl)
    ((h.type .line).andReturn fun _ => rfl)

theorem typeSpec : Carries move 1 (bound + 1) (TypeSpec.moved move) (typeSpec r) (typeSpec s) := by
  refine Carries.andReturn (.placed_still ?_) fun _ => rfl
  exact Carries.word.next fun _ => .orElse (h.typeBody.andReturn fun _ => rfl)
    (h.typeParameters.pred.bind fun _ => h.typeBody.andReturn fun _ => rfl)

theorem declaration :
    Carries move 1 (bound + 1) (Decl.moved move) (declaration r) (declaration s) :=
  Carries.peek.bind fun _ => .ite
    ((Carries.keyword "const").bind fun _ => (carries_specs h.constSpec).andReturn fun _ => rfl)
    (.ite
      ((Carries.keyword "var").bind fun _ => (carries_specs h.varSpec).andReturn fun _ => rfl)
      ((Carries.keyword "type").bind fun _ => (carries_specs h.typeSpec).andReturn fun _ => rfl))

end Alike

/-! ### Statements -/

theorem parts_moved (d : Decl) : (d.moved move).parts = d.parts := by
  cases d <;> simp only [Decl.moved, Decl.parts, List.flatMap_map] <;> rfl

theorem carries_single (terms : List Term) :
    Carries move 0 bound id (single terms) (single terms) := by
  unfold single
  split
  · exact .still _
  · exact .fail

theorem carries_jump : Carries move 1 bound id jump jump := by
  have label : Carries move 1 bound id (do continues .line; word) (do continues .line; word) :=
    (Carries.continues .line).bind fun _ => .word
  exact Carries.word.before fun _ => label.possibly_still.andReturn fun _ => rfl

namespace Alike

variable (h : Alike move bound r s)
include h

theorem simple (context : Context) :
    Carries move 1 (bound + 1) id (simple r context) (simple s context) := by
  refine (h.expressions context).before (k := 0) fun targets => Carries.peek.bind fun t => ?_
  have one (form : Form) : Carries move 0 (bound + 1) id
      (do return Term.node form [← single targets]) (do return Term.node form [← single targets]) :=
    (carries_single targets).andReturn fun _ => rfl
  refine .ite (one .expression) (.ite ?_ (.ite ?_ (.ite ?_ (.ite ?_ (one .expression)))))
  · exact (Carries.operator ":=").bind fun _ => (h.expressions context).bind fun _ => .still _
  · exact (Carries.accept fun _ => rfl).bind fun _ => (h.expressions context).bind fun _ => .still _
  · exact (Carries.accept fun _ => rfl).bind fun _ => one .step
  · exact (Carries.operator "<-").bind fun _ => (carries_single targets).bind fun _ =>
      (h.anyExpression context).bind fun _ => .still _

theorem statements : Carries move 0 bound id (statements r) (statements s) := by
  refine (Carries.separated_still .terminator h.statement).possibly_still.bind fun body => ?_
  cases body with
  | none => exact (Carries.still none).bind fun _ => .still _
  | some body => exact Carries.terminator.possibly_still.bind fun _ => .still _

theorem braces : Carries move 1 (bound + 1) id (Grammar.block r) (Grammar.block s) :=
  (Carries.operator "\x7b").next fun _ => h.statements.bind fun _ =>
    (Carries.operator "\x7d").andReturn fun _ => rfl

theorem labeled : Carries move 1 (bound + 1) id (labeled r) (labeled s) :=
  Carries.word.next fun _ => (Carries.operator ":").bind fun _ =>
    h.statement.possibly_still.andReturn fun _ => rfl

theorem returnStatement : Carries move 1 (bound + 1) id (returnStatement r) (returnStatement s) := by
  have values : Carries move 1 bound id (do continues .line; Grammar.expressions r .line)
      (do continues .line; Grammar.expressions s .line) :=
    (Carries.continues .line).bind fun _ => (h.expressions .line).pred
  exact (Carries.keyword "return").next fun _ => values.possibly_still.andReturn fun _ => rfl

theorem conditionParts : Carries move 1 (bound + 1) id (conditionParts r) (conditionParts s) :=
  .orElse
    ((h.simple .head).bind fun _ => (Carries.operator ";").bind fun _ =>
      (h.anyExpression .head).andReturn fun _ => rfl)
    ((h.anyExpression .head).andReturn fun _ => rfl)

theorem branchStatement : Carries move 1 (bound + 1) id (branchStatement r) (branchStatement s) := by
  have alternative : Carries move 1 bound id
      (do
        continues .line
        keyword "else"
        let t ← peek
        ensure (isOperator "\x7b" t || isWord "if" t)
        r.statement)
      (do
        continues .line
        keyword "else"
        let t ← peek
        ensure (isOperator "\x7b" t || isWord "if" t)
        s.statement) :=
    (Carries.continues .line).bind fun _ => (Carries.keyword "else").bind fun _ =>
      Carries.peek.bind fun _ => (Carries.ensure _).bind fun _ => h.statement
  exact (Carries.keyword "if").next fun _ => h.conditionParts.pred.bind fun _ =>
    h.braces.pred.bind fun _ => alternative.possibly_still.andReturn fun _ => rfl

theorem rangeClause : Carries move 1 (bound + 1) id (rangeClause r) (rangeClause s) := by
  have targets : Carries move 1 (bound + 1) id
      (do
        let targets ← Grammar.expressions r .head
        let _ ← accept (isOneOf ["=", ":="])
        return targets)
      (do
        let targets ← Grammar.expressions s .head
        let _ ← accept (isOneOf ["=", ":="])
        return targets) :=
    (h.expressions .head).bind fun _ => (Carries.accept fun _ => rfl).andReturn fun _ => rfl
  exact targets.possibly_still.bind fun _ => (Carries.keyword "range").bind fun _ =>
    (h.anyExpression .head).andReturn fun _ => rfl

theorem countingClauses :
    Carries move 1 (bound + 1) id (countingClauses r) (countingClauses s) :=
  (h.simple .head).possibly_still.bind fun _ => (Carries.operator ";").bind fun _ =>
    (h.anyExpression .head).possibly_still.bind fun _ => (Carries.operator ";").before fun _ =>
      (h.simple .head).possibly_still.andReturn fun _ => rfl

theorem loopStatement : Carries move 1 (bound + 1) id (loopStatement r) (loopStatement s) := by
  have clauses : Carries move 1 bound id
      ((do return [← Grammar.rangeClause r]) <|> Grammar.countingClauses r <|>
        (do return [← Grammar.expression r .head]))
      ((do return [← Grammar.rangeClause s]) <|> Grammar.countingClauses s <|>
        (do return [← Grammar.expression s .head])) :=
    .orElse (h.rangeClause.pred.andReturn fun _ => rfl) (.orElse h.countingClauses.pred
      ((h.anyExpression .head).pred.andReturn fun _ => rfl))
  refine (Carries.keyword "for").next (k := 1) fun _ => (Carries.seesOperator "\x7b").bind fun _ =>
    .ite ?_ ?_
  · exact (Carries.still []).bind fun _ => h.braces.pred.andReturn fun _ => rfl
  · exact clauses.bind fun _ => h.braces.pred.andReturn fun _ => rfl

theorem switchHeads : Carries move 0 (bound + 1) id (switchHeads r) (switchHeads s) := by
  refine .orElse ?_ ?_
  · exact (h.simple .switchHead).bind fun _ => (Carries.operator ";").bind fun _ =>
      (h.simple .switchHead).possibly_still.andReturn fun _ => rfl
  · exact (h.simple .switchHead).possibly_still.andReturn fun _ => rfl

theorem caseBody : Carries move 1 (bound + 1) id (caseBody r) (caseBody s) :=
  (Carries.operator ":").next fun _ => h.statements

theorem defaultCase : Carries move 1 (bound + 1) id (defaultCase r) (defaultCase s) :=
  (Carries.keyword "default").next fun _ => h.caseBody.pred.andReturn fun _ => rfl

theorem caseOf {k : Nat} {p q : Parser (List Term)} (heads : Carries move k bound id p q) :
    Carries move 1 (bound + 1) id (caseOf r p) (caseOf s q) :=
  (Carries.keyword "case").next fun _ => heads.bind fun _ => h.caseBody.pred.andReturn fun _ => rfl

theorem casesOf {k : Nat} {p q : Parser (List Term)} (heads : Carries move k bound id p q) :
    Carries move 1 (bound + 1) id (casesOf r p) (casesOf s q) :=
  (Carries.operator "\x7b").before fun _ =>
    (Carries.orElse (h.caseOf heads) h.defaultCase).many_still.bind fun _ =>
      (Carries.operator "\x7d").andReturn fun _ => rfl

theorem switchStatement : Carries move 1 (bound + 1) id (switchStatement r) (switchStatement s) := by
  have types := Carries.separated_still (.operator ",") (h.type .inner)
  have body (heads : List Term × Option Term) : Carries move 0 bound id
      (if heads.2.any isGuard then do
        return Term.node .switch (heads.1 ++ heads.2.toList ++
          (← Grammar.casesOf r (separated (operator ",") (r.type .inner))))
      else do
        ensure (heads.2.all isSwitchValue)
        return .node .switch (heads.1 ++ heads.2.toList ++
          (← Grammar.casesOf r (Grammar.expressions r .inner))))
      (if heads.2.any isGuard then do
        return Term.node .switch (heads.1 ++ heads.2.toList ++
          (← Grammar.casesOf s (separated (operator ",") (s.type .inner))))
      else do
        ensure (heads.2.all isSwitchValue)
        return .node .switch (heads.1 ++ heads.2.toList ++
          (← Grammar.casesOf s (Grammar.expressions s .inner)))) :=
    .ite ((h.casesOf types).pred.bind fun _ => .still _)
      ((Carries.ensure _).bind fun _ =>
        (h.casesOf (h.expressions .inner).pred).pred.bind fun _ => .still _)
  refine (Carries.keyword "switch").next (k := 0) fun _ =>
    (Carries.seesOperator "\x7b").bind fun _ => .ite ?_ ?_
  · exact (Carries.still ([], none)).bind body
  · exact h.switchHeads.pred.bind body

theorem communication : Carries move 1 (bound + 1) id (communication r) (communication s) :=
  (h.expressions .inner).before (k := 0) fun targets => (Carries.sees fun _ => rfl).bind fun _ => .ite
    ((Carries.accept fun _ => rfl).bind fun _ => (h.anyExpression .inner).bind fun _ => .still _)
    ((carries_single targets).andReturn fun _ => rfl)

theorem selectStatement : Carries move 1 (bound + 1) id (selectStatement r) (selectStatement s) :=
  (Carries.keyword "select").next fun _ =>
    (h.casesOf h.communication.pred).pred.andReturn fun _ => rfl

theorem anyStatement :
    Carries move 1 (bound + 1) id (Grammar.statement r) (Grammar.statement s) := by
  refine Carries.peek.bind fun _ => .ite (h.braces.andReturn fun _ => rfl) (.ite ?_ (.ite ?_
    (.ite h.returnStatement (.ite ?_ (.ite ?_ (.ite h.branchStatement (.ite h.loopStatement
      (.ite h.switchStatement (.ite h.selectStatement (.ite carries_jump (.ite .fail
        (.orElse h.labeled (h.simple .line)))))))))))))
  · exact (Carries.operator ";").andReturn fun _ => rfl
  · exact h.declaration.andReturn fun d => congrArg (Term.node .declaration) (parts_moved d)
  · exact (Carries.keyword "go").bind fun _ => (h.anyExpression .line).andReturn fun _ => rfl
  · exact (Carries.keyword "defer").bind fun _ => (h.anyExpression .line).andReturn fun _ => rfl

end Alike

theorem rules_self (move : Position → Position) (depth bound : Nat) :
    Alike move bound (rules depth) (rules depth) := by
  induction depth generalizing bound with
  | zero => exact ⟨fun _ => .fail, fun _ => .fail, .fail, .fail⟩
  | succ depth ih =>
    have h := ih bound
    exact ⟨fun context => (h.anyType context).pred, fun context => (h.anyExpression context).pred,
      h.braces.pred, h.anyStatement.pred⟩

/-- **Depth does not matter.** The rules for two depths agree on lists that are no longer than the
lesser depth. -/
theorem rules_alike (move : Position → Position) {bound depth depth' : Nat} (le : bound ≤ depth)
    (le' : bound ≤ depth') : Alike move bound (rules depth) (rules depth') := by
  induction bound generalizing depth depth' with
  | zero =>
    have first := rules_self move depth 0
    have second := rules_self move depth' 0
    exact ⟨fun context => (first.type context).empty (second.type context),
      fun context => (first.expression context).empty (second.expression context),
      first.block.empty second.block, first.statement.empty second.statement⟩
  | succ bound ih =>
    obtain ⟨depth, rfl⟩ := Nat.exists_eq_add_of_le' (Nat.le_trans (Nat.le_add_left 1 bound) le)
    obtain ⟨depth', rfl⟩ := Nat.exists_eq_add_of_le' (Nat.le_trans (Nat.le_add_left 1 bound) le')
    have h := ih (Nat.le_of_succ_le_succ le) (Nat.le_of_succ_le_succ le')
    exact ⟨h.anyType, h.anyExpression, h.braces, h.anyStatement⟩

/-! ### Files -/

theorem mayEndFile_moved (it : Item) : (it.moved move).mayEndFile = it.mayEndFile := by
  have valued (specs : List ValueSpec) :
      ((specs.map (ValueSpec.moved move)).all fun s => !s.values.isEmpty) =
        specs.all fun s => !s.values.isEmpty := by
    rw [List.all_map]
    rfl
  cases it with
  | declaration d =>
    cases d with
    | const grouped specs => cases grouped <;> simp [Item.moved, Decl.moved, Item.mayEndFile, valued]
    | var grouped specs => cases grouped <;> simp [Item.moved, Decl.moved, Item.mayEndFile, valued]
    | type grouped specs => rfl
  | _ => rfl

theorem carries_packageClause :
    Carries move 1 bound (Item.moved move) packageClause packageClause :=
  (Carries.keyword "package").bind fun _ => Carries.word.andReturn fun _ => rfl

theorem carries_importLine :
    Carries move 1 bound (ImportLine.moved move) importLine importLine := by
  have name : Carries move 1 bound id importName importName :=
    Carries.word.orElse ((Carries.operator ".").andReturn fun _ => rfl)
  refine Carries.andReturn (.placed_still ?_) fun _ => rfl
  exact name.possibly_still.bind fun _ => (Carries.accept fun _ => rfl).andReturn fun _ => rfl

theorem carries_importDeclaration :
    Carries move 1 bound (Item.moved move) importDeclaration importDeclaration :=
  (Carries.keyword "import").bind fun _ => (Carries.seesOperator "(").bind fun _ => .ite
    ((carries_importLine.listed "(" ")").pred.andReturn fun _ => rfl)
    (carries_importLine.andReturn fun _ => rfl)

namespace Alike

variable (h : Alike move bound r s)
include h

theorem functionBody : Carries move 0 (bound + 1) id (functionBody r) (functionBody s) :=
  Carries.peek.bind fun _ => .ite (h.braces.weaken (Nat.zero_le 1)) (.still _)

theorem functionDeclaration :
    Carries move 1 (bound + 1) (Item.moved move) (functionDeclaration r) (functionDeclaration s) :=
  (Carries.keyword "func").bind fun _ => Carries.word.bind fun _ =>
    (Carries.seesOperator "[").bind fun _ => .ite
      (h.typeParameters.bind fun _ =>
        (h.signature .line).before fun _ => h.functionBody.andReturn fun _ => rfl)
      ((Carries.still []).bind fun _ =>
        (h.signature .line).before fun _ => h.functionBody.andReturn fun _ => rfl)

theorem methodDeclaration :
    Carries move 1 (bound + 1) (Item.moved move) (methodDeclaration r) (methodDeclaration s) :=
  (Carries.keyword "func").bind fun _ => h.parameters.bind fun _ => Carries.word.bind fun _ =>
    (h.signature .line).before fun _ => h.functionBody.andReturn fun _ => rfl

theorem item : Carries move 1 (bound + 1) (Item.moved move) (item r) (item s) := by
  have asStatement : Carries move 1 (bound + 1) (Item.moved move)
      (do return .statement (← Grammar.statement r)) (do return .statement (← Grammar.statement s)) :=
    h.anyStatement.andReturn fun _ => rfl
  exact Carries.peek.bind fun _ => .ite carries_packageClause (.ite carries_importDeclaration
    (.ite (h.declaration.andReturn fun _ => rfl) (.ite
      (h.functionDeclaration.orElse (h.methodDeclaration.orElse asStatement)) asStatement)))

theorem locatedItem :
    Carries move 1 (bound + 1) (Located.moved move) (locatedItem r) (locatedItem s) :=
  h.item.placed.andReturn fun _ => rfl

/-- **A moved file.** The items of moved lexemes are the items, moved, and end in an error where
these do; how much fuel there is does not matter as long as it is enough. -/
theorem items {fuel fuel' : Nat} {ts : List Lexeme} (short : ts.length ≤ bound + 1)
    (enough : ts.length ≤ fuel) (enough' : ts.length ≤ fuel') :
    Grammar.items s fuel' (ts.map (Lexeme.moved move)) =
      Prod.map (List.map (Located.moved move)) id (Grammar.items r fuel ts) := by
  induction fuel generalizing fuel' ts with
  | zero =>
    obtain rfl := List.length_eq_zero_iff.mp (Nat.le_zero.mp enough)
    simp [Grammar.items]
  | succ fuel ih =>
    cases ts with
    | nil => simp [Grammar.items]
    | cons t ts =>
      obtain ⟨fuel', rfl⟩ := Nat.exists_eq_add_of_le'
        (Nat.le_trans (Nat.le_add_left 1 ts.length) enough')
      have kindEq : (t.moved move).kind = t.kind := rfl
      have read := h.locatedItem.moved (t :: ts) short
      rw [List.map_cons] at read ⊢
      simp only [Grammar.items, kindEq, read]
      split
      · rfl
      · cases found : Grammar.locatedItem r (t :: ts) with
        | none => rfl
        | some result =>
          obtain ⟨located, rest⟩ := result
          have ends : Carries move 0 (bound + 1) id terminator terminator := .terminator
          have taken := (h.locatedItem.takes _ _ _ found).1
          have ended := ends.moved rest (by simp only [List.length_cons] at taken short ⊢; omega)
          simp only [Option.map_some, ended]
          cases left : terminator rest with
          | none =>
            have mayEnd : (located.moved move).item.mayEndFile = located.item.mayEndFile :=
              mayEndFile_moved located.item
            simp only [Option.map_none, List.head?_map, Option.any_map, mayEnd]
            rfl
          | some result =>
            have again := ends.takes _ _ _ left
            simp only [List.length_cons] at taken short enough enough'
            simp only [Option.map_some]
            rw [ih (by omega) (by omega) (by omega)]
            rfl

end Alike

/-- **Depth and fuel do not matter** as long as there is enough of them. -/
theorem items_depth {depth fuel : Nat} {ts : List Lexeme} (deep : ts.length ≤ depth)
    (enough : ts.length ≤ fuel) :
    items (rules depth) fuel ts = items (rules ts.length) ts.length ts := by
  have alike := rules_alike id deep (Nat.le_refl ts.length)
  have same := alike.items (Nat.le_succ _) enough (Nat.le_refl _)
  rw [Lexeme.moved_id, Located.moved_id] at same
  simpa using same.symm

/-- The rules and the fuel that files are read with. -/
theorem items_moved (move : Position → Position) (ts : List Lexeme) :
    items (rules ts.length) ts.length (ts.map (Lexeme.moved move)) =
      Prod.map (List.map (Located.moved move)) id (items (rules ts.length) ts.length ts) :=
  (rules_alike move (Nat.le_refl ts.length) (Nat.le_refl ts.length)).items (Nat.le_succ _)
    (Nat.le_refl _) (Nat.le_refl _)

end Prefill.Go.Grammar
