import Prefill.Go.ImportTable
import Prefill.Target

/-!
The program that evaluates a call. It holds every declaration of the helper files that are visible
from the call, and prints the first result of the call as a Go literal. Where two files declare one
name, the deeper one counts.
-/

namespace Prefill

open Text

namespace Program

/-- A declaration and the file it comes from. -/
structure Origin where
  file : HelperFile
  declaration : Go.Declaration
  deriving Repr

/-- What becomes of a declaration. -/
inductive Verdict where
  | kept
  /-- A declaration before it has one of its keys. -/
  | shadowed
  /-- The program has a main function of its own. -/
  | replaced
  deriving DecidableEq, Repr

/-- Decides about declarations in order. Functions named `init` do not clash; all of them stay. -/
def judge (seen : List Text) : List Origin → List (Origin × Verdict)
  | [] => []
  | origin :: rest =>
    let d := origin.declaration
    if d.isFunction "main".toList then (origin, .replaced) :: judge seen rest
    else if d.isFunction "init".toList then (origin, .kept) :: judge seen rest
    else if d.keys.any seen.contains then (origin, .shadowed) :: judge seen rest
    else (origin, .kept) :: judge (seen ++ d.keys) rest

/-- The declarations of files in order. -/
def origins (files : List HelperFile) : List Origin :=
  files.flatMap fun file => file.source.declarations.map (Origin.mk file)

/-- The declarations with a given verdict. -/
def judged (verdict : Verdict) (files : List HelperFile) : List Origin :=
  ((judge [] (origins files)).filter fun entry => entry.2 = verdict).map (·.1)

/-- The declarations that go into the program. -/
def kept (files : List HelperFile) : List Origin := judged .kept files

/-- An import under a name that a declaration uses; the first package under a name stays. -/
def addImport (table : Go.ImportTable) (name : Text) (spec : Go.ImportSpec) :
    Go.ImportTable × List String :=
  match table.find? name with
  | none => (table.put name spec, [])
  | some present =>
    if present.path = spec.path then (table, [])
    else
      (table, [s!"import name {str name} is used for both {str present.path} and " ++
        s!"{str spec.path}; keeping the first"])

/-- The import that a qualifier of a declaration stands for in its file. -/
def neededImports (origin : Origin) : List (Text × Go.ImportSpec) :=
  origin.declaration.qualifiers.filterMap fun qualifier =>
    (origin.file.source.import? qualifier).map fun i => (qualifier, i.toImportSpec)

/-- The imports of a file that are there for their effect only. -/
def blankImports (file : HelperFile) : List Go.ImportSpec :=
  (file.source.imports.filter fun i => i.label = some ['_']).map (·.toImportSpec)

/-- Adds the imports that a declaration brings along. -/
def importsFor (state : Go.ImportTable × List String) (origin : Origin) :
    Go.ImportTable × List String :=
  let (table, notes) := (neededImports origin).foldl (fun state entry =>
    let (table, more) := addImport state.1 entry.1 entry.2
    (table, state.2 ++ more)) state
  let table := (blankImports origin.file).foldl (fun table spec =>
    table.put ("_ ".toList ++ spec.path) spec) table
  (table, notes)

/-- The imports that the program's own code uses, under names that helpers do not have. -/
def reservedImports : List Go.ImportSpec :=
  [("__goaheadFmt", "fmt"), ("__goaheadOs", "os"), ("__goaheadReflect", "reflect"),
   ("__goaheadStrconv", "strconv")].map fun (label, path) => ⟨some label.toList, path.toList⟩

/-- The name for a package whose own name stands for another one. -/
def targetAlias : Text := "__goaheadTarget".toList

/-- How the program names its callee, and the imports with what that takes. -/
def callee (table : Go.ImportTable) : Target → Text × Go.ImportTable
  | .helper symbol => (symbol.name, table)
  | .qualified qualifier member => (qualifier ++ '.' :: member, table)
  | .package spec member =>
    let name := spec.localName
    let taken := (table.find? name).any fun present => present.path ≠ spec.path
    if taken then
      (targetAlias ++ '.' :: member, table.put targetAlias ⟨some targetAlias, spec.path⟩)
    else (name ++ '.' :: member, table.put name spec)

/-- The functions that print a value: the first result, as a literal that reads back. -/
def printingLines : List String :=
  ["func __goaheadFirst[T any](value T, _ ...any) T \x7b",
   "\treturn value",
   "\x7d",
   "",
   "func __goaheadPrint(value any) \x7b",
   "\trv := __goaheadReflect.ValueOf(value)",
   "\tswitch rv.Kind() \x7b",
   "\tcase __goaheadReflect.String:",
   "\t\t__goaheadFmt.Print(__goaheadStrconv.Quote(rv.String()))",
   "\tcase __goaheadReflect.Bool:",
   "\t\t__goaheadFmt.Print(rv.Bool())",
   "\tcase __goaheadReflect.Int, __goaheadReflect.Int8, __goaheadReflect.Int16, __goaheadReflect.Int32, __goaheadReflect.Int64:",
   "\t\t__goaheadFmt.Print(__goaheadStrconv.FormatInt(rv.Int(), 10))",
   "\tcase __goaheadReflect.Uint, __goaheadReflect.Uint8, __goaheadReflect.Uint16, __goaheadReflect.Uint32, __goaheadReflect.Uint64, __goaheadReflect.Uintptr:",
   "\t\t__goaheadFmt.Print(__goaheadStrconv.FormatUint(rv.Uint(), 10))",
   "\tcase __goaheadReflect.Float32, __goaheadReflect.Float64:",
   "\t\t__goaheadFmt.Print(__goaheadFloat(__goaheadStrconv.FormatFloat(rv.Float(), 'f', -1, rv.Type().Bits())))",
   "\tdefault:",
   "\t\t__goaheadFmt.Printf(\"%#v\", value)",
   "\t\x7d",
   "\x7d",
   "",
   "func __goaheadFloat(s string) string \x7b",
   "\tfor _, c := range s \x7b",
   "\t\tif c == '.' || c == 'e' || c == 'E' || c == 'I' || c == 'N' \x7b",
   "\t\t\treturn s",
   "\t\t\x7d",
   "\t\x7d",
   "\treturn s + \".0\"",
   "\x7d"]

/-- The text before the declarations. -/
def heading (table : Go.ImportTable) : Text :=
  let specs := reservedImports ++ table.specs
  "// Code generated by goahead. DO NOT EDIT.\n\npackage main\n\nimport (\n".toList ++
    (specs.flatMap fun spec => '\t' :: spec.render ++ ['\n']) ++ ")\n\n".toList

/-- The main function, which prints the first result of a call. -/
def mainFunction (call : Text) : Text :=
  "\nfunc main() \x7b\n\t__goaheadPrint(__goaheadFirst(".toList ++ call ++
    "))\n\t__goaheadOs.Exit(0)\n\x7d\n".toList

/-- The whole text of a program. -/
def assemble (table : Go.ImportTable) (kept : List Origin) (call : Text) : Text :=
  heading table ++ (kept.flatMap fun origin => origin.declaration.withDoc ++ "\n\n".toList) ++
    printingLines.flatMap (fun line => line.toList ++ ['\n']) ++ mainFunction call

/-- What is said of a declaration that another one hides. -/
def shadowNote (origin : Origin) : String :=
  let keys := str (joinWith ", " origin.declaration.keys)
  s!"{keys} is shadowed; skipping {origin.file.path.display}"

/-- The program that calls a target from a depth with arguments written in Go, and the notes on the
way. -/
def synthesize (project : Project) (target : Target) (depth : Nat) (arguments : List Text) :
    Program × List String :=
  let files := project.visible depth
  let kept := kept files
  let (imports, notes) := kept.foldl importsFor ([], [])
  let (name, imports) := callee imports target
  let call := name ++ '(' :: joinWith ", " arguments ++ [')']
  let notes := (judged .shadowed files).map shadowNote ++ notes ++
    [s!"driver for {str call} uses {kept.length} declarations"]
  (⟨assemble imports kept call, call⟩, notes)

end Program

end Prefill
