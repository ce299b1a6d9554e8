import Prefill.Go.Grammar.Statement

/-!
Files. The top level holds package clauses, imports, functions, declarations and statements, each
followed by a line feed or a semicolon. At the end of the file some of them need neither.
-/

namespace Prefill.Go

open Prefill.Go.Parser

namespace Grammar

def packageClause : Parser Item := do
  keyword "package"
  return .package (← word)

/-- The name before an import path: a word or a point. -/
def importName : Parser Text :=
  word <|> (do operator "."; return ['.'])

/-- An import path, perhaps behind a name. -/
def importLine : Parser ImportLine := do
  let ((label, literal), span) ← placed (do
    let label ← possibly importName
    let path ← accept fun t => t.kind = .string
    return (label, path.text))
  return ⟨label, literal, span⟩

def importDeclaration : Parser Item := do
  keyword "import"
  if ← seesOperator "(" then return .imports (← listed "(" ")" importLine)
  else return .imports [← importLine]

/-- The body of a function, if a brace follows on the same line. -/
def functionBody (r : Rules) : Parser (List Term) := do
  let t ← peek
  if isOperator "\x7b" t && !t.afterNewline then block r else return []

def functionDeclaration (r : Rules) : Parser Item := do
  keyword "func"
  let name ← word
  let typeParameters ← if ← seesOperator "[" then typeParameters r else pure []
  let (parameters, results) ← signature r .line
  let body ← functionBody r
  return .function ⟨name, none, typeParameters, parameters, results, body⟩

def methodDeclaration (r : Rules) : Parser Item := do
  keyword "func"
  let receiver ← parameters r
  let name ← word
  let (parameters, results) ← signature r .line
  let body ← functionBody r
  return .function ⟨name, some receiver, [], parameters, results, body⟩

/-- What may stand at the top level. -/
def item (r : Rules) : Parser Item := do
  let t ← peek
  if isWord "package" t then packageClause
  else if isWord "import" t then importDeclaration
  else if ["const", "var", "type"].any fun w => isWord w t then
    return .declaration (← declaration r)
  else if isWord "func" t then
    functionDeclaration r <|> methodDeclaration r <|> (do return .statement (← statement r))
  else return .statement (← statement r)

def locatedItem (r : Rules) : Parser Located := do
  let (item, span) ← placed (item r)
  return ⟨item, span⟩

end Grammar

namespace Item

/-- Whether a statement ends in a list of values. -/
def endsInValues : Term → Bool
  | .node (.assignment _) _ => true
  | .node .definition _ => true
  | .node .return values => !values.isEmpty
  | _ => false

/-- Whether an item may be the last of a file that does not end with a line feed. -/
def mayEndFile : Item → Bool
  | .package _ | .imports _ | .function _ => true
  | .declaration (.const false specs) => specs.all fun s => !s.values.isEmpty
  | .declaration (.var false specs) => specs.all fun s => !s.values.isEmpty
  | .declaration _ => false
  | .statement term => endsInValues term

end Item

namespace Grammar

/-- The items of a file, and whether an error ends them. -/
def items (r : Rules) : (fuel : Nat) → List Lexeme → List Located × Bool
  | _, [] => ([], false)
  | 0, _ :: _ => ([], true)
  | fuel + 1, t :: ts =>
    if t.kind = .finish then ([], false)
    else
      match locatedItem r (t :: ts) with
      | none => ([], true)
      | some (located, rest) =>
        match terminator rest with
        | some (_, left) =>
          let (more, failed) := items r fuel left
          (located :: more, failed)
        | none =>
          let finished := rest.head?.any fun t => t.kind = .finish
          ([located], !(finished && located.item.mayEndFile))

end Grammar

/-- Parses a file. Every rule takes a lexeme before it calls itself, so the number of lexemes bounds
the depth of the trees. A file with an error is read up to it: what stands after the error is left
out and not guessed at. -/
def File.parse (source : Text) : File :=
  let stream := Lexeme.scan source
  let count := stream.lexemes.length
  let (items, failed) := Grammar.items (Grammar.rules count) count stream.lexemes
  ⟨items, stream.comments, failed⟩

end Prefill.Go
