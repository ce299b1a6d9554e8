import Prefill.Go.Grammar.Basic

/-! Types, parameter lists and the members of structs and interfaces. -/

namespace Prefill.Go.Grammar

open Prefill.Go.Parser

/-- The words that open a type; anywhere else they are names. -/
def typeKeywords : List String := ["map", "chan", "func", "struct", "interface"]

/-- A name where a type may stand. -/
def typeName : Parser Text := nameExcept typeKeywords

/-- Types joined by `|`, as in a constraint. -/
def constraint (r : Rules) (context : Context) : Parser Term := do
  let types ← separated (follows context "|") (r.type context)
  return match types with
    | [type] => type
    | _ => .node .union types

/-- Type arguments in square brackets; at least one. -/
def typeArguments (r : Rules) (context : Context) : Parser (List Term) := do
  continues context
  let types ← bracketed "[" "]" (constraint r .inner)
  ensure !types.isEmpty
  return types

/-- A name, or a name of a package. -/
def plainType (context : Context) : Parser Term := do
  let first ← typeName
  let second ← possibly (do follows context "."; word)
  return match second with
    | some name => .qualified first name
    | none => .typeName first

/-- A name of a type with its type arguments. -/
def namedType (r : Rules) (context : Context) : Parser Term := do
  let base ← plainType context
  let arguments ← possibly (typeArguments r context)
  return match arguments with
    | some types => .node .generic (base :: types)
    | none => base

/-- One entry of a parameter list, before the names that share a type are put together. -/
inductive Entry where
  | lone (type : Term) (span : Span)
  | pair (name : Text) (type : Term) (span : Span)
  | tail (name : Option Text) (type : Term) (span : Span)

/-- `...T`, perhaps after a name. -/
def variadicEntry (r : Rules) : Parser Entry := do
  let name ← possibly typeName
  operator "..."
  let (type, span) ← placed (r.type .inner)
  return .tail name type span

/-- A name and its type. -/
def pairEntry (r : Rules) : Parser Entry := do
  let name ← typeName
  let (type, span) ← placed (r.type .inner)
  return .pair name type span

/-- A type alone. -/
def loneEntry (r : Rules) : Parser Entry := do
  let (type, span) ← placed (r.type .inner)
  return .lone type span

def entry (r : Rules) : Parser Entry := variadicEntry r <|> pairEntry r <|> loneEntry r

/-- Waiting names that turned out to be types. -/
def asTypes (waiting : List (Text × Span)) : List Param :=
  waiting.map fun (name, span) => ⟨[], .typeName name, false, span⟩

/-- The parameters that entries stand for. Names with only commas after them wait for the type
after the last one; where none comes they are types themselves. -/
def gather (waiting : List (Text × Span)) : List Entry → List Param
  | [] => asTypes waiting
  | .lone (.typeName name) span :: rest => gather (waiting ++ [(name, span)]) rest
  | .lone type span :: rest => asTypes waiting ++ ⟨[], type, false, span⟩ :: gather [] rest
  | .pair name type span :: rest =>
    ⟨waiting.map (·.1) ++ [name], type, false, span⟩ :: gather [] rest
  | .tail name type span :: rest =>
    asTypes waiting ++ ⟨name.toList, type, true, span⟩ :: gather [] rest

/-- A parameter list in parentheses. -/
def parameters (r : Rules) : Parser (List Param) := do
  return gather [] (← bracketed "(" ")" (entry r))

/-- The result of a function: a list in parentheses, or one type. -/
def results (r : Rules) (context : Context) : Parser (List Param) := do
  continues context
  if ← seesOperator "(" then parameters r
  else
    let (type, span) ← placed (r.type context)
    return [⟨[], type, false, span⟩]

/-- Parameters and results. -/
def signature (r : Rules) (context : Context) : Parser (List Param × List Param) := do
  let given ← parameters r
  let returned ← possibly (results r context)
  return (given, returned.getD [])

/-- Parameters and results as parts of a node. -/
def signatureParts (given returned : List Param) : List Term := (given ++ returned).map Param.toTerm

/-- The tag after a field. -/
def tag : Parser Unit := do
  continues .line
  let _ ← accept fun t => t.kind = .string

/-- Whether a field ends here. -/
def fieldEnds : Parser Unit := do
  let t ← peek
  ensure (t.afterNewline || t.kind = .string || isOperator ";" t || isOperator "\x7d" t)

/-- An embedded field: a name of a type, perhaps behind a star. -/
def embeddedField (r : Rules) : Parser Term := do
  let _ ← possibly (operator "*")
  let type ← namedType r .line
  fieldEnds
  return .node .field [type]

/-- Names and their type. The names belong to the struct and are no part of the tree. -/
def namedField (r : Rules) : Parser Term := do
  let _ ← separated (operator ",") word
  continues .line
  let type ← r.type .line
  return .node .field [type]

def field (r : Rules) : Parser Term := do
  let field ← embeddedField r <|> namedField r
  let _ ← possibly tag
  return field

/-- A member of an interface: a method where a parenthesis follows the name. -/
def member (r : Rules) : Parser Term :=
  (do
    let name ← word
    let (given, returned) ← signature r .line
    return .node (.method name) (signatureParts given returned)) <|>
  constraint r .line

/-- A channel type, with its direction on either side of the keyword. -/
def channelType (r : Rules) (context : Context) : Parser Term := do
  if ← seesOperator "<-" then
    operator "<-"
    keyword "chan"
  else
    keyword "chan"
    let _ ← possibly (operator "<-")
  return .node .channelType [← r.type context]

/-- A slice or an array. -/
def sequenceType (r : Rules) (context : Context) : Parser Term := do
  operator "["
  if ← seesOperator "]" then
    operator "]"
    return .node .sliceType [← r.type context]
  else
    let length ← r.expression .inner
    operator "]"
    return .node .arrayType [length, ← r.type context]

def mapType (r : Rules) (context : Context) : Parser Term := do
  keyword "map"
  operator "["
  let key ← r.type .inner
  operator "]"
  return .node .mapType [key, ← r.type context]

def structType (r : Rules) : Parser Term := do
  keyword "struct"
  return .node .structType (← listed "\x7b" "\x7d" (field r))

def interfaceType (r : Rules) : Parser Term := do
  keyword "interface"
  return .node .interfaceType (← listed "\x7b" "\x7d" (member r))

/-- A type that no name opens. -/
def builtType (r : Rules) (context : Context) : Parser Term := do
  let t ← peek
  if isWord "map" t then mapType r context
  else if isWord "struct" t then structType r
  else if isWord "interface" t then interfaceType r
  else if isWord "chan" t || isOperator "<-" t then channelType r context
  else if isOperator "[" t then sequenceType r context
  else if isWord "func" t then
    keyword "func"
    let (given, returned) ← signature r context
    return .node .functionType (signatureParts given returned)
  else if isOperator "*" t then
    operator "*"
    return .node .pointer [← r.type context]
  else if isOperator "~" t then
    operator "~"
    return .node .approximation [← r.type context]
  else failure

/-- A type in parentheses. -/
def parenthesizedType (r : Rules) : Parser Term := do
  operator "("
  let type ← r.type .inner
  operator ")"
  return .node .typeInParentheses [type]

/-- A type. -/
def type (r : Rules) (context : Context) : Parser Term :=
  namedType r context <|> builtType r context <|> parenthesizedType r

/-- Type parameters in square brackets. -/
def typeParameters (r : Rules) : Parser (List TypeParam) := do
  let parameters ← bracketed "[" "]" (do
    let names ← separated (operator ",") word
    return TypeParam.mk names (← constraint r .inner))
  ensure !parameters.isEmpty
  return parameters

end Prefill.Go.Grammar
