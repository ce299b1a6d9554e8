import Prefill.Go.Grammar.Expression

/-! Declarations with a keyword, and statements. -/

namespace Prefill.Go.Grammar

open Prefill.Go.Parser

/-- The values after `=`. -/
def givenValues (r : Rules) : Parser (List Term) := do
  operator "="
  expressions r .line

/-- Names, and perhaps a type and values; a type needs values. -/
def constSpec (r : Rules) : Parser ValueSpec := do
  let ((names, type, values), span) ← placed (do
    let names ← separated (follows .line ",") word
    let given ← possibly (do
      continues .line
      let type ← possibly (do refuses (operator "="); r.type .line)
      return (type, ← givenValues r))
    return match given with
      | some (type, values) => (names, type, values)
      | none => (names, none, []))
  return ⟨names, type, values, span⟩

/-- Names with a type, with values, or with both. -/
def varSpec (r : Rules) : Parser ValueSpec := do
  let ((names, type, values), span) ← placed (do
    let names ← separated (operator ",") word
    if ← seesOperator "=" then return (names, none, ← givenValues r)
    else
      let type ← r.type .line
      let values ← possibly (do continues .line; givenValues r)
      return (names, some type, values.getD []))
  return ⟨names, type, values, span⟩

/-- What follows the name and the parameters of a declared type. -/
def typeBody (r : Rules) : Parser (Bool × Term) := do
  if ← seesOperator "=" then
    operator "="
    return (true, ← r.type .line)
  else return (false, ← r.type .line)

/-- A name, perhaps type parameters, and a type. Brackets after the name open an array type where
they can. -/
def typeSpec (r : Rules) : Parser TypeSpec := do
  let ((name, parameters, isAlias, type), span) ← placed (do
    let name ← word
    (do
      let (isAlias, type) ← typeBody r
      return (name, [], isAlias, type)) <|>
    (do
      let parameters ← typeParameters r
      let (isAlias, type) ← typeBody r
      return (name, parameters, isAlias, type)))
  return ⟨name, parameters, isAlias, type, span⟩

/-- One spec, or a group of them that each end with a terminator; whether it is a group. -/
def specs {α : Type} (spec : Parser α) : Parser (Bool × List α) := do
  if ← seesOperator "(" then
    operator "("
    let items ← many (do let item ← spec; terminator; pure item)
    operator ")"
    return (true, items)
  else return (false, [← spec])

/-- A `const`, `var` or `type` declaration. -/
def declaration (r : Rules) : Parser Decl := do
  let t ← peek
  if isWord "const" t then
    keyword "const"
    let (grouped, items) ← specs (constSpec r)
    return .const grouped items
  else if isWord "var" t then
    keyword "var"
    let (grouped, items) ← specs (varSpec r)
    return .var grouped items
  else
    keyword "type"
    let (grouped, items) ← specs (typeSpec r)
    return .type grouped items

/-- The operators that assign. -/
def assignmentOperators : List String :=
  ["=", "+=", "-=", "*=", "/=", "%=", "&=", "|=", "^=", "<<=", ">>=", "&^="]

/-- A single expression, for a statement that takes no list. -/
def single : List Term → Parser Term
  | [term] => pure term
  | _ => failure

/-- A statement that may stand before a condition: an expression, or what assigns, sends or counts. -/
def simple (r : Rules) (context : Context) : Parser Term := do
  let targets ← expressions r context
  let t ← peek
  if context.newlineEnds && t.afterNewline then return .node .expression [← single targets]
  else if isOperator ":=" t then
    operator ":="
    return .node .definition (targets ++ (← expressions r context))
  else if isOneOf assignmentOperators t then
    let op ← accept (isOneOf assignmentOperators)
    return .node (.assignment op.text) (targets ++ (← expressions r context))
  else if isOneOf ["++", "--"] t then
    let _ ← accept (isOneOf ["++", "--"])
    return .node .step [← single targets]
  else if isOperator "<-" t then
    operator "<-"
    let channel ← single targets
    return .node .send [channel, ← expression r context]
  else return .node .expression [← single targets]

/-- Statements up to a closing brace or the next case. -/
def statements (r : Rules) : Parser (List Term) := do
  let body ← possibly (separated terminator r.statement)
  let _ ← if body.isSome then possibly terminator else pure none
  return body.getD []

/-- Statements in braces. -/
def block (r : Rules) : Parser (List Term) := do
  operator "\x7b"
  let body ← statements r
  operator "\x7d"
  return body

/-- A label, and the statement it stands before; at the end of a block there may be none. -/
def labeled (r : Rules) : Parser Term := do
  let _ ← word
  operator ":"
  return .node .labeled (← possibly r.statement).toList

/-- A keyword and perhaps a label on the same line. -/
def jump : Parser Term := do
  let text ← word
  let _ ← possibly (do continues .line; word)
  return .node (.jump text) []

def returnStatement (r : Rules) : Parser Term := do
  keyword "return"
  let values ← possibly (do continues .line; expressions r .line)
  return .node .return (values.getD [])

/-- What stands before the condition, and the condition. -/
def conditionParts (r : Rules) : Parser (List Term) :=
  (do
    let before ← simple r .head
    operator ";"
    return [before, ← expression r .head]) <|>
  (do return [← expression r .head])

def branchStatement (r : Rules) : Parser Term := do
  keyword "if"
  let head ← conditionParts r
  let body ← block r
  let alternative ← possibly (do
    continues .line
    keyword "else"
    let t ← peek
    ensure (isOperator "\x7b" t || isWord "if" t)
    r.statement)
  return .node .branch (head ++ [.node .block body] ++ alternative.toList)

/-- `targets := range value`, perhaps without targets. -/
def rangeClause (r : Rules) : Parser Term := do
  let targets ← possibly (do
    let targets ← expressions r .head
    let _ ← accept (isOneOf ["=", ":="])
    return targets)
  keyword "range"
  return .node .range (targets.getD [] ++ [← expression r .head])

/-- The three clauses of a counting loop, each of which may be missing. -/
def countingClauses (r : Rules) : Parser (List Term) := do
  let start ← possibly (simple r .head)
  operator ";"
  let condition ← possibly (expression r .head)
  operator ";"
  let update ← possibly (simple r .head)
  return start.toList ++ condition.toList ++ update.toList

def loopStatement (r : Rules) : Parser Term := do
  keyword "for"
  let clauses ←
    if ← seesOperator "\x7b" then pure []
    else
      (do return [← rangeClause r]) <|> countingClauses r <|> (do return [← expression r .head])
  return .node .loop (clauses ++ [.node .block (← block r)])

/-- Whether a head of a switch is the guard of a type switch. -/
def isGuard : Term → Bool
  | .node .expression [.node .typeGuard _] => true
  | .node .definition parts =>
    match parts.getLast? with
    | some (.node .typeGuard _) => true
    | _ => false
  | _ => false

/-- Whether a head of a switch may stand right before its cases. -/
def isSwitchValue : Term → Bool
  | .node .expression _ => true
  | term => isGuard term

/-- What stands between `switch` and its cases: perhaps a statement with a semicolon after it, and
perhaps what the cases are about. -/
def switchHeads (r : Rules) : Parser (List Term × Option Term) :=
  (do
    let before ← simple r .switchHead
    operator ";"
    return ([before], ← possibly (simple r .switchHead))) <|>
  (do return ([], ← possibly (simple r .switchHead)))

/-- The statements of a case. -/
def caseBody (r : Rules) : Parser (List Term) := do
  operator ":"
  statements r

def defaultCase (r : Rules) : Parser Term := do
  keyword "default"
  return .node .case (← caseBody r)

/-- A case with what it is about. -/
def caseOf (r : Rules) (heads : Parser (List Term)) : Parser Term := do
  keyword "case"
  let heads ← heads
  return .node .case (heads ++ (← caseBody r))

/-- Cases in braces. -/
def casesOf (r : Rules) (heads : Parser (List Term)) : Parser (List Term) := do
  operator "\x7b"
  let cases ← many (caseOf r heads <|> defaultCase r)
  operator "\x7d"
  return cases

def switchStatement (r : Rules) : Parser Term := do
  keyword "switch"
  let heads ← if ← seesOperator "\x7b" then pure ([], none) else switchHeads r
  let parts := heads.1 ++ heads.2.toList
  if heads.2.any isGuard then
    return .node .switch (parts ++ (← casesOf r (separated (operator ",") (r.type .inner))))
  else
    ensure (heads.2.all isSwitchValue)
    return .node .switch (parts ++ (← casesOf r (expressions r .inner)))

/-- A send, a receive, or a receive into targets. -/
def communication (r : Rules) : Parser (List Term) := do
  let targets ← expressions r .inner
  if ← sees (isOneOf ["=", ":=", "<-"]) then
    let _ ← accept fun _ => true
    return targets ++ [← expression r .inner]
  else return [← single targets]

def selectStatement (r : Rules) : Parser Term := do
  keyword "select"
  return .node .switch (← casesOf r (communication r))

/-- A statement. -/
def statement (r : Rules) : Parser Term := do
  let t ← peek
  if isOperator "\x7b" t then return .node .block (← block r)
  else if isOperator ";" t then
    operator ";"
    return .node .empty []
  else if ["const", "var", "type"].any fun w => isWord w t then
    return .node .declaration (← declaration r).parts
  else if isWord "return" t then returnStatement r
  else if isWord "go" t then
    keyword "go"
    return .node .go [← expression r .line]
  else if isWord "defer" t then
    keyword "defer"
    return .node .defer [← expression r .line]
  else if isWord "if" t then branchStatement r
  else if isWord "for" t then loopStatement r
  else if isWord "switch" t then switchStatement r
  else if isWord "select" t then selectStatement r
  else if ["break", "continue", "goto", "fallthrough"].any fun w => isWord w t then jump
  else if ["case", "default"].any fun w => isWord w t then failure
  else labeled r <|> simple r .line

/-- The rules for trees that nest at most as deep as the number says. -/
def rules : Nat → Rules
  | 0 => .nothing
  | depth + 1 =>
    let r := rules depth
    ⟨type r, expression r, block r, statement r⟩

end Prefill.Go.Grammar
