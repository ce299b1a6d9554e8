import Prefill.Config.Basic
import Prefill.Marker
import Prefill.Sorting
import Prefill.Tree

/-!
The files of a project. A walk goes through the entries of each directory in the order of their
names. It passes over directories that the Go tool ignores and paths that the settings exclude, and
it stops at nested modules: they are projects of their own.
-/

namespace Prefill

open Text

/-- An entry of a tree: the path that leads to it, and its address. -/
structure Place where
  path : Path
  address : Address
  deriving DecidableEq, Repr

namespace Place

/-- The place of an entry in a directory. -/
def child (place : Place) (name : Text) : Place := ⟨place.path.join name, place.address ++ [name]⟩

/-- The place at an address below another place. -/
def below (place : Place) (address : Address) : Place := address.foldl child place

end Place

namespace Discovery

/-- The file that makes a directory a module. -/
def manifest : Text := "go.mod".toList

/-- Directories that the Go tool ignores. -/
def isSkipped (name : Text) : Bool :=
  startsWith "." name || startsWith "_" name || ["vendor", "testdata"].any (·.toList = name)

/-- A file name with the extension of Go sources after something else. -/
def isSource (name : Text) : Bool :=
  match before? ".go" name with
  | some (_ :: _) => true
  | _ => false

/-- What a walk has to know. Addresses count from the root of the project. -/
structure Scope where
  excluded : Address → Bool
  isModule : Address → Bool

/-- What a walk comes upon. -/
inductive Found where
  | source (address : Address) (content : Utf8.Bytes)
  | module (address : Address)
  deriving DecidableEq, Repr

/-- What was found under each of some names, in the order of the names. -/
def inOrder (parts : List (Text × List Found)) : List Found :=
  (sortedBy (fun a b => notAfter a.1 b.1) parts).flatMap (·.2)

mutual

/-- What is found at an address, given the entry there and its name. -/
def walk (scope : Scope) (address : Address) (name : Text) : Tree → List Found
  | .file content =>
    if isSource name && !scope.excluded address then [.source address content] else []
  | .link _ => []
  | .directory entries =>
    if isSkipped name || scope.excluded address then []
    else if scope.isModule address then [.module address]
    else inOrder (walkEntries scope address entries)

/-- What is found under each entry of the directory at an address. -/
def walkEntries (scope : Scope) (address : Address) :
    List (Text × Tree) → List (Text × List Found)
  | [] => []
  | (name, entry) :: rest =>
    (name, walk scope (address ++ [name]) name entry) :: walkEntries scope address rest

end

end Discovery

/-- The files of one project. -/
structure Discovery where
  /-- Files with the activation line, in the order of their paths. -/
  helpers : List Place
  /-- The other Go files, in the order of the walk. -/
  sources : List Place
  /-- Nested modules, in the order of the walk. -/
  submodules : List Place
  deriving DecidableEq, Repr

namespace Discovery

/-- The scope of a project in a tree. -/
def scope (top : Tree) (excluded : List Glob) (root : Place) : Scope where
  excluded address := excluded.any fun glob => glob.isMatch (joinWith "/" address)
  isModule address := top.isFileAt (root.address ++ address ++ [manifest])

/-- All that a walk through a project comes upon. -/
def found (top : Tree) (excluded : List Glob) (root : Place) : List Found :=
  match top.at? root.address with
  | some tree => inOrder (walkEntries (scope top excluded root) [] tree.entries)
  | none => []

def Found.helper? : Found → Option Address
  | .source address content => if Marker.probe content then some address else none
  | .module _ => none

def Found.source? : Found → Option Address
  | .source address content => if Marker.probe content then none else some address
  | .module _ => none

def Found.module? : Found → Option Address
  | .source _ _ => none
  | .module address => some address

/-- Finds the files of the project at a place. -/
def ofTree (top : Tree) (excluded : List Glob) (root : Place) : Discovery :=
  let found := found top excluded root
  let places (select : Found → Option Address) := (found.filterMap select).map root.below
  { helpers := sortedBy (fun a b => a.path.notAfter b.path) (places Found.helper?)
    sources := places Found.source?
    submodules := places Found.module? }

end Discovery

end Prefill
