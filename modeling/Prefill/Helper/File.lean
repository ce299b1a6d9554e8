import Prefill.Go.Source
import Prefill.Helper.Symbol
import Prefill.Marker

/-! Helper files: what a file with the activation line declares. -/

namespace Prefill

structure HelperFile where
  path : Path
  directory : Path
  /-- How deep below the root of the project its directory is. -/
  depth : Nat
  source : Go.Source
  aliases : List ImportAlias
  /-- Whether the file keeps itself out of the build of its package. -/
  buildIgnored : Bool
  deriving Repr

namespace HelperFile

def ofText (root path : Path) (content : Text) : HelperFile where
  path
  directory := path.parent?.getD root
  depth := Path.depthOf root path
  source := Go.Source.ofText content
  aliases := Marker.importAliases content
  buildIgnored := Marker.buildIgnored content

/-- The functions that placeholders can call. -/
def exportedFunctions (file : HelperFile) : List Go.Declaration :=
  file.source.declarations.filter fun d => d.kind = .function && d.isExported

/-- The entry of a function in the index. -/
def symbol (file : HelperFile) (d : Go.Declaration) : Symbol :=
  ⟨d.name, d.signature.getD {}, file.path, d.span.start.line, file.depth⟩

def symbols (file : HelperFile) : List Symbol := file.exportedFunctions.map file.symbol

/-- Files in the order of their depth, then of their paths. -/
def notAfter (a b : HelperFile) : Bool :=
  if a.depth = b.depth then a.path.notAfter b.path else a.depth < b.depth

/-- Files with the deepest first, then in the order of their paths. -/
def notBefore (a b : HelperFile) : Bool :=
  if a.depth = b.depth then a.path.notAfter b.path else b.depth < a.depth

end HelperFile

end Prefill
