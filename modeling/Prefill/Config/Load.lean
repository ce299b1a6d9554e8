import Prefill.Config.Reader
import Prefill.Discovery

/-! The settings file of a project. -/

namespace Prefill.Config

/-- Why the settings of a run cannot be used. -/
inductive LoadError where
  | unreadable (path : Path) (cause : FileError)
  | malformed (path : Path) (cause : ReadError)
  | invalid (cause : ConfigError)
  deriving DecidableEq, Repr

def LoadError.message : LoadError → String
  | .unreadable path cause => s!"parsing config {path.display}: {cause.message}"
  | .malformed path cause => s!"parsing config {path.display}: {cause.message}"
  | .invalid cause => cause.message

/-- The names of a settings file in the root of a project. -/
def fileNames : List Text := ["goahead.yaml".toList, ".goahead.yaml".toList]

/-- The settings file in the root of a project. -/
def discover? (top : Tree) (root : Place) : Option Path :=
  (fileNames.find? fun name => top.isFileAt (root.address ++ [name])).map root.path.join

/-- Reads settings from a file. -/
def readFile (top : Tree) (here : Address) (path : Path) : Except LoadError Config :=
  match top.textAt here path with
  | .error cause => .error (.unreadable path cause)
  | .ok text => (ofText text).mapError (.malformed path)

/-- The settings of a run: from the given file, else from the one in the root, else the defaults. -/
def load (top : Tree) (here : Address) (root : Place) (given : Option Path) :
    Except LoadError Config := do
  let config ← match given.or (discover? top root) with
    | some path => readFile top here path
    | none => .ok {}
  match config.validate with
  | .ok () => .ok config
  | .error cause => .error (.invalid cause)

end Prefill.Config
