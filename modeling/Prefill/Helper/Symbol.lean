import Prefill.Go.Signature
import Prefill.Path

/-! An exported helper function, as placeholders see it. -/

namespace Prefill

open Text

structure Symbol where
  name : Text
  signature : Go.Signature
  /-- The file that declares it. -/
  path : Path
  line : Nat
  /-- How deep below the root of the project its file lies. -/
  depth : Nat
  deriving DecidableEq, Repr

namespace Symbol

def location (s : Symbol) : String := s!"{s.path.display}:{s.line}"

/-- The head of the function without the names of its parameters. -/
def render (s : Symbol) : Text :=
  let head := s.name ++ '(' :: joinWith ", " s.signature.parameterTypes ++ [')']
  if s.signature.outputType = [] then head else head ++ ' ' :: s.signature.outputType

end Symbol

end Prefill
