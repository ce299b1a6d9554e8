import Prefill.Discovery
import Prefill.Helper.File
import Prefill.Helper.Index
import Prefill.Report.Journal

/-!
Projects. A project is a directory with its helper files, the index of their functions, its other
sources, and the nested modules that it leaves alone.
-/

namespace Prefill

open Text

/-- Why a project cannot be loaded. -/
inductive LoadError where
  | badPattern (bad : BadPattern)
  | unreadable (path : Path) (cause : FileError)
  | conflict (clash : Conflict)
  deriving DecidableEq, Repr

def LoadError.message : LoadError → String
  | .badPattern bad => bad.message
  | .unreadable path cause => s!"reading helper file {path.display}: {cause.message}"
  | .conflict clash => clash.message

structure Project where
  root : Place
  /-- In the order of their depth, then of their paths. -/
  helpers : List HelperFile
  index : Index
  sources : List Place
  submodules : List Place
  deriving Repr

namespace Project

/-- Enters the functions of a helper file into the index, with a warning for each that hides
another. -/
def enterFile (index : Index) (file : HelperFile) : Journal Conflict Index :=
  file.symbols.foldlM (fun index symbol => do
    let (index, shadowing) ← .ofExcept (index.insert file.directory symbol)
    match shadowing with
    | some s => .tell (.warning symbol.path.display symbol.line s.message none)
    | none => pure ()
    return index) index

/-- Enters a helper file into the index, with a warning for whatever is wrong with it. -/
def checkFile (index : Index) (file : HelperFile) : Journal Conflict Index := do
  if !file.buildIgnored then
    .tell (.warning file.path.display 1
      ("helper file has no `//go:build ignore` line and will be compiled into its package") none)
  if file.source.hasErrors then
    .tell (.warning file.path.display 0 "helper file has syntax errors" none)
  enterFile index file

/-- The project that some helper files make. The order they come in does not matter. -/
def ofFiles (root : Place) (files : List HelperFile) (sources submodules : List Place) :
    Journal Conflict Project := do
  let helpers := sortedBy HelperFile.notAfter files
  let index ← helpers.foldlM checkFile .empty
  .tell (.note
    (s!"project {root.path.display}: {helpers.length} helper files, {index.size} helpers, " ++
      s!"{sources.length} sources"))
  return ⟨root, helpers, index, sources, submodules⟩

/-- Reads a helper file. -/
def readHelper (top : Tree) (root : Place) (place : Place) : Except LoadError HelperFile :=
  match top.text place.address with
  | .ok content => .ok (.ofText root.path place.path content)
  | .error cause => .error (.unreadable place.path cause)

/-- The project of the files that have been found. -/
def ofDiscovery (top : Tree) (root : Place) (found : Discovery) : Journal LoadError Project := do
  let files ← .ofExcept (found.helpers.mapM (readHelper top root))
  (ofFiles root files found.sources found.submodules).mapError .conflict

/-- Finds and loads the project at a place. -/
def load (top : Tree) (config : Config) (root : Place) : Journal LoadError Project := do
  let excluded ← .ofExcept (config.excluded.mapError .badPattern)
  ofDiscovery top root (Discovery.ofTree top excluded root)

/-- The helper files that a call at a depth sees, the deepest first. -/
def visible (project : Project) (depth : Nat) : List HelperFile :=
  sortedBy HelperFile.notBefore (project.helpers.filter fun h => h.depth ≤ depth)

def helperFile? (project : Project) (path : Path) : Option HelperFile :=
  project.helpers.find? fun h => h.path.same path

/-- How deep below the root the directory of a file is. -/
def depthOf (project : Project) (file : Path) : Nat := project.root.path.depthOf file

end Project

end Prefill
