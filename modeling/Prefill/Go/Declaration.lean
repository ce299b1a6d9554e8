import Prefill.Go.Import
import Prefill.Go.Signature

/-! Declarations of a file at package scope, each ready to be copied into another file. -/

namespace Prefill.Go

inductive DeclarationKind where
  | function
  | method
  | const
  | var
  | type
  deriving DecidableEq, Repr

structure Declaration where
  /-- Several where specs have to stay together. -/
  names : List Text
  kind : DeclarationKind
  /-- The type that a method belongs to. -/
  receiver : Option Text := none
  span : Span
  text : Text
  doc : Option Text
  /-- The names it uses, sorted. -/
  references : List Text
  /-- The names it uses before a point, sorted. -/
  qualifiers : List Text
  signature : Option Signature := none
  deriving Repr

namespace Declaration

/-- The first declared name. -/
def name (d : Declaration) : Text := d.names.headD []

/-- Whether it declares a name at package scope. A method belongs to its type instead. -/
def declares (d : Declaration) (name : Text) : Bool := d.kind ≠ .method && d.names.contains name

/-- What it declares: of two declarations with a key in common only one may stand in a package.
Blank names never clash. -/
def keys (d : Declaration) : List Text :=
  match d.kind, d.receiver with
  | .method, some receiver => [receiver ++ '.' :: d.name]
  | _, _ => d.names.filter (· ≠ ['_'])

def isExported (d : Declaration) : Bool := Go.isExported d.name

/-- Whether it is a plain function with the given name. -/
def isFunction (d : Declaration) (name : Text) : Bool := d.kind = .function && d.name = name

/-- Whether it is a method of the given type. -/
def isMethodOf (d : Declaration) (type : Text) : Bool := d.kind = .method && d.receiver = some type

/-- The declaration under its doc comment. -/
def withDoc (d : Declaration) : Text :=
  match d.doc with
  | some doc => doc ++ '\n' :: d.text
  | none => d.text

end Declaration

/-- An import and its place in the file. -/
structure Import extends ImportSpec where
  span : Span
  deriving DecidableEq, Repr

/-- An interface with the names of its methods, and the place of the declaration it stands in. -/
structure Interface where
  name : Text
  methods : List Text
  span : Span
  deriving DecidableEq, Repr

end Prefill.Go
