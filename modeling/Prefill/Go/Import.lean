import Prefill.Text.Capital
import Prefill.Text.Quoted

/-!
Imports: the name under which a file knows a package, and the line that imports it.
-/

namespace Prefill.Go

open Text

/-- A name that other packages can see starts with an upper-case character. -/
def isExported (name : Text) : Bool := name.head?.any isCapital

/-- A path segment such as `v2`. -/
def isMajorVersion (segment : Text) : Bool :=
  match segment with
  | 'v' :: digits => !digits.isEmpty && digits.all isAsciiDigit
  | _ => false

/-- The segment of an import path that names the package: the last one, or the one before it when
the last is a major version. -/
def namingSegment (path : Text) : Text :=
  match (pieces '/' path).reverse with
  | last :: previous :: _ => if isMajorVersion last then previous else last
  | [last] => last
  | [] => path

/-- The package name that an import path implies: without a leading `go-`, and up to the first
point or hyphen. -/
def defaultPackageName (path : Text) : Text :=
  let segment := namingSegment path
  ((after? "go-" segment).getD segment).takeWhile fun c => c != '.' && c != '-'

/-- An import: a path, and a name of its own if it has one. -/
structure ImportSpec where
  label : Option Text
  path : Text
  deriving DecidableEq, Repr

namespace ImportSpec

def ofPath (path : Text) : ImportSpec := ⟨none, path⟩

/-- The import that makes `path` known as `name`; no alias where the path implies the name. -/
def named (name path : Text) : ImportSpec :=
  ⟨if defaultPackageName path = name then none else some name, path⟩

/-- The name under which code refers to the package. -/
def localName (spec : ImportSpec) : Text := spec.label.getD (defaultPackageName spec.path)

/-- The import as it is written. -/
def render (spec : ImportSpec) : Text :=
  match spec.label with
  | some label => label ++ ' ' :: inQuotes spec.path
  | none => inQuotes spec.path

end ImportSpec

end Prefill.Go
