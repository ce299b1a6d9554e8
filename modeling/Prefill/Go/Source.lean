import Prefill.Go.Declaration
import Prefill.Go.Grammar.File
import Prefill.Go.Uses

/-!
What is known of a Go file: its package, imports, declarations and interfaces.

A group of specs is taken apart into declarations of one spec each, except constants of which one
has no value of its own: such a spec repeats the one before it, so the group stays whole.
-/

namespace Prefill.Go

open Text

structure Source where
  package : Option Text
  imports : List Import
  /-- In source order. -/
  declarations : List Declaration
  interfaces : List Interface
  /-- The last line of the package clause and the imports; 0 where there are none. -/
  preambleEnd : Nat
  hasErrors : Bool
  deriving Repr

namespace Source

/-- The declaration of a name at package scope. -/
def find? (s : Source) (name : Text) : Option Declaration :=
  s.declarations.find? fun d => d.declares name

/-- The plain function with a name. -/
def function? (s : Source) (name : Text) : Option Declaration :=
  s.declarations.find? fun d => d.isFunction name

def methodsOf (s : Source) (type : Text) : List Declaration :=
  s.declarations.filter fun d => d.isMethodOf type

/-- The import under a local name. -/
def import? (s : Source) (name : Text) : Option Import :=
  s.imports.find? fun i => i.localName = name

/-- The interface whose declaration starts on a line. -/
def interfaceAt? (s : Source) (line : Nat) : Option Interface :=
  s.interfaces.find? fun i => i.span.start.line = line

end Source

/-- The comments right above a line, the nearest first: each ends on the line before the next. -/
def commentsAbove : (line : Nat) → List Comment → List Comment
  | _, [] => []
  | line, c :: rest =>
    if c.span.stop.line + 1 = line then c :: commentsAbove c.span.start.line rest else []

/-- Whether a comment speaks to a tool and not to a reader. -/
def isDirective (comment : Text) : Bool :=
  ["//go:", "// +build", "//:"].any fun start => startsWith start comment

/-- The doc comment of an item: the comments right above it and after the item before it. -/
def docComment (comments : List Comment) (after : Nat) (item : Located) : Option Text :=
  let between := comments.filter fun c =>
    after ≤ c.span.start.byte && c.span.stop.byte ≤ item.span.start.byte
  let above := (commentsAbove item.span.start.line between.reverse).reverse.map (·.text)
  match above.filter fun c => !isDirective c with
  | [] => none
  | kept => some (joinWith "\n" kept)

/-- The type a method belongs to, without its star and type parameters. -/
def receiverType (source : Text) (receiver : List Param) : Option Text :=
  (receiver.find? fun p => !p.variadic).map fun p =>
    let type := trim ((p.typeSpan.textIn source).dropWhile (· = '*'))
    trim (type.takeWhile (· ≠ '['))

/-- The names and types of a function, and its body. -/
def Function.parts (f : Function) : List Term :=
  f.typeParameters.map TypeParam.toTerm ++
    ((f.receiver.getD [] ++ f.parameters ++ f.results).map Param.toTerm ++ f.body)

/-- A function does not count as a use of itself; a method has no name at package scope. -/
def Function.declaration (source : Text) (f : Function) (span : Span) (doc : Option Text) :
    Declaration :=
  let references := sortedNames (Term.referencesOf f.parts)
  { names := [f.name]
    kind := if f.receiver.isSome then .method else .function
    receiver := f.receiver.bind (receiverType source)
    span
    text := span.textIn source
    doc
    references := if f.receiver.isSome then references else references.filter (· ≠ f.name)
    qualifiers := sortedNames (Term.qualifiersOf f.parts)
    signature := some (f.signature source) }

/-- What a spec declares: its place, its names and its tree. -/
structure Spec where
  span : Span
  names : List Text
  parts : List Term
  /-- Whether it says on its own what it declares. -/
  complete : Bool

/-- The names of a constant spec with the commas between them, which declare nothing. -/
def constSpecNames (names : List Text) : List Text := names.intersperse [',']

/-- The kind of a declaration, its keyword and its specs. -/
def Decl.specs : Decl → DeclarationKind × String × List Spec
  | .const _ specs =>
    (.const, "const",
      specs.map fun s => ⟨s.span, constSpecNames s.names, s.parts, !s.values.isEmpty⟩)
  | .var _ specs => (.var, "var", specs.map fun s => ⟨s.span, s.names, s.parts, true⟩)
  | .type _ specs => (.type, "type", specs.map fun s => ⟨s.span, [s.name], s.parts, true⟩)

/-- A declaration of some specs, which do not count as uses of themselves. -/
def specDeclaration (kind : DeclarationKind) (span : Span) (text : Text) (doc : Option Text)
    (specs : List Spec) : Declaration :=
  let names := specs.flatMap (·.names)
  let parts := specs.flatMap (·.parts)
  { names
    kind
    span
    text
    doc
    references := (sortedNames (Term.referencesOf parts)).filter fun r => !names.contains r
    qualifiers := sortedNames (Term.qualifiersOf parts) }

/-- Whether the text of a declaration opens a group right after its keyword. -/
def opensGroup (keyword : String) (text : Text) : Bool :=
  match after? keyword text with
  | some rest => startsWith "(" (trimStart rest)
  | none => false

/-- The declarations that a declaration with a keyword stands for. A doc comment above a group
belongs to its first spec. -/
def Decl.declarations (source : Text) (d : Decl) (span : Span) (doc : Option Text) :
    List Declaration :=
  let (kind, keyword, specs) := d.specs
  let text := span.textIn source
  match specs with
  | [] => []
  | first :: rest =>
    if opensGroup keyword text && specs.all (·.complete) then
      let one (doc : Option Text) (s : Spec) :=
        specDeclaration kind s.span (keyword.toList ++ ' ' :: s.span.textIn source) doc [s]
      one doc first :: rest.map (one none)
    else [specDeclaration kind span text doc specs]

def Item.declarations (source : Text) (span : Span) (doc : Option Text) : Item → List Declaration
  | .function f => [f.declaration source span doc]
  | .declaration d => d.declarations source span doc
  | _ => []

/-- An import with its path taken out of the quotes; an empty path imports nothing. -/
def ImportLine.import? (line : ImportLine) : Option Import :=
  let isQuote (c : Char) := c = '"' || c = '`'
  let path := ((line.literal.dropWhile isQuote).reverse.dropWhile isQuote).reverse
  if path.isEmpty then none else some { label := line.label, path, span := line.span }

def Item.importsOf : Item → List Import
  | .imports lines => lines.filterMap ImportLine.import?
  | _ => []

def Item.package? : Item → Option Text
  | .package name => some name
  | _ => none

/-- Whether an item belongs to the head of a file. -/
def Item.isPreamble : Item → Bool
  | .package _ | .imports _ => true
  | _ => false

/-- The name of a method of an interface. -/
def Term.method? : Term → Option Text
  | .node (.method word) _ => some word
  | _ => none

/-- The interface that a spec declares; an alias declares none. -/
def TypeSpec.interface? (span : Span) (s : TypeSpec) : Option Interface :=
  match s.type with
  | .node .interfaceType members =>
    if s.isAlias then none else some ⟨s.name, members.filterMap Term.method?, span⟩
  | _ => none

def Located.interfaces (located : Located) : List Interface :=
  match located.item with
  | .declaration (.type _ specs) => specs.filterMap (TypeSpec.interface? located.span)
  | _ => []

/-- The declarations of items in order; `after` is the byte where the item before them ended. -/
def declarationsFrom (source : Text) (comments : List Comment) :
    (after : Nat) → List Located → List Declaration
  | _, [] => []
  | after, located :: rest =>
    located.item.declarations source located.span (docComment comments after located) ++
      declarationsFrom source comments located.span.stop.byte rest

/-- What a file says. -/
def Source.ofText (text : Text) : Source :=
  let file := File.parse text
  let preamble := file.items.filter (·.item.isPreamble)
  { package := file.items.findSome? (·.item.package?)
    imports := file.items.flatMap (·.item.importsOf)
    declarations := declarationsFrom text file.comments 0 file.items
    interfaces := file.items.flatMap Located.interfaces
    preambleEnd := preamble.foldl (fun last located => max last located.span.stop.line) 0
    hasErrors := file.hasErrors }

end Prefill.Go
