import Prefill.Go.Lexeme

/-!
Syntax trees of Go. A tree keeps the role of every name, because that is what the analysis of a file
asks for; everything else is a labelled node with its parts in source order.
-/

namespace Prefill.Go

/-- What a node of a tree is. -/
inductive Form where
  -- types
  | generic
  | pointer
  | typeInParentheses
  | sliceType
  | arrayType
  /-- `[...]T`, as long as the literal that follows. -/
  | measuredArrayType
  | mapType
  | channelType
  | functionType
  | structType
  | interfaceType
  | approximation
  | union
  -- parts of types
  | parameter
  | field
  | method (name : Text)
  -- expressions
  | parenthesized
  | unary (operator : Text)
  | binary (operator : Text)
  | index
  | slice
  | call
  | conversion
  | instantiation
  | assertion
  /-- `x.(type)` in the head of a type switch. -/
  | typeGuard
  | composite
  /-- Elements in braces inside a composite literal. -/
  | braced
  | keyed
  | functionLiteral
  -- statements
  | declaration
  | expression
  | send
  | step
  | assignment (operator : Text)
  | definition
  | labeled
  | jump (word : Text)
  | return
  | go
  | defer
  | block
  | branch
  | loop
  | range
  | switch
  | case
  | empty
  deriving DecidableEq, Repr

/-- A type, an expression or a statement. -/
inductive Term where
  /-- A name in an expression, or one that is declared. -/
  | name (name : Text)
  /-- A name of a type. -/
  | typeName (name : Text)
  /-- A type of a package. -/
  | qualified (package name : Text)
  /-- `nil`, `true`, `false` or `iota`. -/
  | constant (word : Text)
  | literal (text : Text)
  | selector (operand : Term) (field : Text)
  | node (form : Form) (parts : List Term)

/-- Parameters that share a type; no names when only the type is given. -/
structure Param where
  names : List Text
  type : Term
  variadic : Bool
  typeSpan : Span

def Param.toTerm (p : Param) : Term := .node .parameter (p.names.map .name ++ [p.type])

/-- Type parameters that share a constraint. -/
structure TypeParam where
  names : List Text
  constraint : Term

def TypeParam.toTerm (p : TypeParam) : Term := .node .parameter (p.names.map .name ++ [p.constraint])

/-- Constants or variables that share a type and values; no values where none are given. -/
structure ValueSpec where
  names : List Text
  type : Option Term
  values : List Term
  span : Span

def ValueSpec.parts (s : ValueSpec) : List Term := s.names.map .name ++ s.type.toList ++ s.values

/-- One declared type, or an alias of one. -/
structure TypeSpec where
  name : Text
  parameters : List TypeParam
  isAlias : Bool
  type : Term
  span : Span

def TypeSpec.parts (s : TypeSpec) : List Term :=
  .typeName s.name :: (s.parameters.map TypeParam.toTerm ++ [s.type])

/-- A declaration with a keyword; `grouped` says that its specs stand in parentheses. -/
inductive Decl where
  | const (grouped : Bool) (specs : List ValueSpec)
  | var (grouped : Bool) (specs : List ValueSpec)
  | type (grouped : Bool) (specs : List TypeSpec)

def Decl.parts : Decl → List Term
  | .const _ specs => specs.flatMap ValueSpec.parts
  | .var _ specs => specs.flatMap ValueSpec.parts
  | .type _ specs => specs.flatMap TypeSpec.parts

/-- One import of a file: the name before the path, and the path as a literal. -/
structure ImportLine where
  label : Option Text
  literal : Text
  span : Span
  deriving DecidableEq, Repr

/-- A function, or a method when it has a receiver. -/
structure Function where
  name : Text
  receiver : Option (List Param)
  typeParameters : List TypeParam
  parameters : List Param
  results : List Param
  body : List Term

/-- What may stand at the top level of a file. -/
inductive Item where
  | package (name : Text)
  | imports (lines : List ImportLine)
  | function (function : Function)
  | declaration (declaration : Decl)
  | statement (statement : Term)

/-- An item and its place. -/
structure Located where
  item : Item
  span : Span

/-- A parsed file. After an error it holds the items before it. -/
structure File where
  items : List Located
  comments : List Comment
  hasErrors : Bool

end Prefill.Go
