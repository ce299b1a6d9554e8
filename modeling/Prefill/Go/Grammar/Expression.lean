import Prefill.Go.Grammar.Type

/-!
Expressions. Where a name could open a type as well as an expression, what follows decides: braces
make a composite literal, and square brackets around types before one operand in parentheses make a
conversion to a generic type. Before the body of a statement a brace after a bare name opens the body.
-/

namespace Prefill.Go.Grammar

open Prefill.Go.Parser

/-- The words that are constants where an expression may stand. -/
def constantWords : List String := ["nil", "true", "false", "iota"]

/-- The operators before an operand. -/
def prefixOperators : List String := ["+", "-", "!", "^", "*", "&", "<-"]

/-- The operators between operands, those that bind loosest first. -/
def binaryLevels : List (List String) :=
  [["||"], ["&&"], ["==", "!=", "<", "<=", ">", ">="], ["+", "-", "|", "^"],
   ["*", "/", "%", "<<", ">>", "&", "&^"]]

def isOneOf (operators : List String) (t : Lexeme) : Bool := operators.any fun op => isOperator op t

/-- Elements in braces. -/
def elementsOf (element : Parser Term) : Parser (List Term) := bracketed "\x7b" "\x7d" element

/-- A value of a composite literal, itself in braces down to a depth. -/
def elementValue (r : Rules) : (depth : Nat) → Parser Term
  | 0 => r.expression .inner
  | depth + 1 => do
    if ← seesOperator "\x7b" then
      return .node .braced (← elementsOf (keyedOr (elementValue r depth)))
    else r.expression .inner
where
  /-- A value, or a key, a colon and a value. -/
  keyedOr (value : Parser Term) : Parser Term := do
    let first ← value
    match ← possibly (operator ":") with
    | some _ => return .node .keyed [first, ← value]
    | none => return first

/-- The body of a composite literal. Braces nest at most as deep as there are lexemes. -/
def literalBody (r : Rules) : Parser (List Term) := fun ts =>
  elementsOf (elementValue.keyedOr (elementValue r ts.length)) ts

/-- The body of a composite literal after its type. Before the body of a statement only a type that
is no bare name may have one, and the statement must go on after it. -/
def literalAfter (r : Rules) (context : Context) (bare : Bool) : Parser (List Term) := do
  continues context
  if context.beforeBody then
    ensure !bare
    let elements ← literalBody r
    let t ← peek
    ensure (!t.afterNewline && isOneOf ("\x7b" :: "." :: binaryLevels.flatten) t)
    return elements
  else literalBody r

/-- `T{...}` or `p.T{...}` -/
def plainComposite (r : Rules) (context : Context) : Parser Term := do
  let type ← plainType context
  let bare := match type with
    | .typeName _ => true
    | _ => false
  return .node .composite (type :: (← literalAfter r context bare))

/-- `T[A]{...}` -/
def genericComposite (r : Rules) (context : Context) : Parser Term := do
  let base ← plainType context
  let arguments ← typeArguments r context
  return .node .composite (.node .generic (base :: arguments) :: (← literalAfter r context false))

/-- The operand of a conversion. -/
def convertedOperand (r : Rules) (context : Context) : Parser Term := do
  follows context "("
  let operand ← r.expression .inner
  let _ ← possibly (operator ",")
  operator ")"
  return operand

/-- `T[A](x)` with one operand. -/
def genericConversion (r : Rules) (context : Context) : Parser Term := do
  let base ← plainType context
  let arguments ← typeArguments r context
  let operand ← convertedOperand r context
  return .node .conversion [.node .generic (base :: arguments), operand]

/-- What stands in square brackets after an operand: an index, or the bounds of a slice. -/
def indexOrSlice (r : Rules) (context : Context) : Parser (Term → Term) := do
  follows context "["
  let first ← possibly (r.expression .inner)
  if ← seesOperator ":" then
    operator ":"
    let second ← possibly (r.expression .inner)
    let third ← if second.isSome then possibly (do operator ":"; r.expression .inner) else pure none
    operator "]"
    return fun operand => .node .slice (operand :: (first.toList ++ second.toList ++ third.toList))
  else
    operator "]"
    match first with
    | some index => return fun operand => .node .index [operand, index]
    | none => failure

/-- `T[A]` or `T[A, B]` where the brackets can only hold types and nothing is called. -/
def loneInstantiation (r : Rules) (context : Context) : Parser Term := do
  let base ← plainType context
  refuses (indexOrSlice r context)
  let arguments ← typeArguments r context
  refuses (follows context "(")
  return .node .instantiation (base :: arguments)

/-- An operand that a name opens. -/
def nameOperand (r : Rules) (context : Context) : Parser Term :=
  genericComposite r context <|> genericConversion r context <|> plainComposite r context <|>
    loneInstantiation r context <|> (do return .name (← word))

/-- `make` or `new`, whose first argument is a type. -/
def allocation (r : Rules) (context : Context) : Parser Term := do
  let callee ← word
  if (← possibly (refuses (follows context "("))).isSome then return .name callee
  else
    operator "("
    let type ← possibly (r.type .inner)
    let arguments ← if type.isSome then many (do operator ","; r.expression .inner) else pure []
    let _ ← if type.isSome then possibly (operator ",") else pure none
    operator ")"
    return .node .call (.name callee :: (type.toList ++ arguments))

/-- A function literal, or a conversion to a function type. -/
def functionOperand (r : Rules) : Parser Term := do
  keyword "func"
  let (given, returned) ← signature r .inner
  let parts := signatureParts given returned
  if ← seesOperator "\x7b" then return .node .functionLiteral (parts ++ (← r.block))
  else return .node .conversion [.node .functionType parts, ← convertedOperand r .inner]

/-- `[...]T` -/
def measuredArrayType (r : Rules) : Parser Term := do
  operator "["
  operator "..."
  operator "]"
  return .node .measuredArrayType [← r.type .inner]

/-- Whether a composite literal may have a type of this form. -/
def isLiteralForm : Term → Bool
  | .node form _ =>
    [Form.sliceType, .arrayType, .measuredArrayType, .mapType, .structType].contains form
  | _ => false

/-- A composite literal of, or a conversion to, a type that no name opens. -/
def typeOperand (r : Rules) : Parser Term := do
  let type ← measuredArrayType r <|> builtType r .inner
  if ← seesOperator "\x7b" then
    ensure (isLiteralForm type)
    return .node .composite (type :: (← literalBody r))
  else return .node .conversion [type, ← convertedOperand r .inner]

/-- An expression in parentheses, or a conversion to a type in parentheses. -/
def parenthesizedOperand (r : Rules) : Parser Term :=
  (do
    operator "("
    let inner ← r.expression .inner
    operator ")"
    return .node .parenthesized [inner]) <|>
  (do
    let type ← parenthesizedType r
    return .node .conversion [type, ← convertedOperand r .inner])

/-- An operand without what may follow it. -/
def operand (r : Rules) (context : Context) : Parser Term := do
  let t ← peek
  match t.kind with
  | .number | .string | .rune => return .literal (← accept fun _ => true).text
  | .word =>
    if constantWords.any fun w => isWord w t then return .constant (← word)
    else if isWord "make" t || isWord "new" t then allocation r context
    else if isWord "func" t then functionOperand r
    else if typeKeywords.any fun w => isWord w t then typeOperand r
    else nameOperand r context
  | .operator =>
    if isOperator "(" t then parenthesizedOperand r
    else if isOperator "[" t then typeOperand r
    else failure
  | _ => failure

/-- The arguments of a call. -/
def callArguments (r : Rules) (context : Context) : Parser (List Term) := do
  continues context
  bracketed "(" ")" (do
    let argument ← r.expression .inner
    let _ ← possibly (operator "...")
    return argument)

/-- What follows a point: a field, a type in parentheses, or the guard of a type switch. -/
def afterPoint (r : Rules) (context : Context) : Parser (Term → Term) := do
  follows context "."
  if ← seesOperator "(" then
    operator "("
    if context.guard && (← sees (isWord "type")) then
      keyword "type"
      operator ")"
      return fun operand => .node .typeGuard [operand]
    else
      let type ← r.type .inner
      operator ")"
      return fun operand => .node .assertion [operand, type]
  else
    let field ← word
    return fun operand => .selector operand field

/-- Whether a type is a union, which in brackets after an operand is read as an expression. -/
def isUnion : Term → Bool
  | .node .union _ => true
  | _ => false

/-- Types in square brackets and the arguments of the call. -/
def typedCall (r : Rules) (context : Context) : Parser (Term → Term) := do
  let types ← typeArguments r context
  ensure !(types.any isUnion)
  let arguments ← callArguments r context
  return fun callee => .node .call (callee :: (types ++ arguments))

/-- What may follow an operand. -/
def postfixPart (r : Rules) (context : Context) : Parser (Term → Term) :=
  afterPoint r context <|> typedCall r context <|> indexOrSlice r context <|>
    (do
      let arguments ← callArguments r context
      return fun callee => .node .call (callee :: arguments))

/-- An operand with everything that follows it. -/
def primary (r : Rules) (context : Context) : Parser Term := do
  let first ← operand r context
  let parts ← many (postfixPart r context)
  return parts.foldl (fun term part => part term) first

/-- A primary expression behind its prefix operators. -/
def unary (r : Rules) (context : Context) : Parser Term := do
  let operators ← many (accept (isOneOf prefixOperators))
  let operand ← primary r context
  return operators.foldr (fun op term => .node (.unary op.text) [term]) operand

/-- Operands with operators of one level between them. -/
def chain (context : Context) (operators : List String) (operand : Parser Term) : Parser Term := do
  let first ← operand
  let more ← many (do
    continues context
    let op ← accept (isOneOf operators)
    return (op.text, ← operand))
  return more.foldl (fun left step => .node (.binary step.1) [left, step.2]) first

/-- An expression. -/
def expression (r : Rules) (context : Context) : Parser Term :=
  binaryLevels.foldr (chain context) (unary r context)

/-- Expressions with commas between them. -/
def expressions (r : Rules) (context : Context) : Parser (List Term) :=
  separated (follows context ",") (expression r context)

end Prefill.Go.Grammar
