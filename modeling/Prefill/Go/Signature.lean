import Prefill.Go.Syntax

/-! Signatures: the types of a function's parameters and results, as they are written. -/

namespace Prefill.Go

structure Parameter where
  name : Option Text
  /-- For the last parameter of a variadic function, the type of one argument. -/
  type : Text
  deriving DecidableEq, Repr

structure Signature where
  parameters : List Parameter := []
  /-- Whether the last parameter takes any number of arguments. -/
  variadic : Bool := false
  results : List Text := []
  deriving DecidableEq, Repr

namespace Signature

/-- The type of the first result; empty where there is none. -/
def outputType (s : Signature) : Text := s.results.headD []

/-- The types of the parameters, with points before that of a variadic one. -/
def parameterTypes (s : Signature) : List Text :=
  let types := s.parameters.map (·.type)
  match types.getLast? with
  | some last => if s.variadic then types.dropLast ++ ["...".toList ++ last] else types
  | none => []

/-- Whether a call may have this many arguments. -/
def accepts (s : Signature) (count : Nat) : Bool :=
  if s.variadic then s.parameters.length ≤ count + 1 else count = s.parameters.length

/-- The type of the argument at a place; a variadic parameter takes all that follow. -/
def typeAt? (s : Signature) (index : Nat) : Option Text :=
  match s.parameters[index]? with
  | some parameter => some parameter.type
  | none => if s.variadic then s.parameters.getLast?.map (·.type) else none

end Signature

/-- The parameters that share a type, one by one. -/
def Param.expand (source : Text) (p : Param) : List Parameter :=
  let type := p.typeSpan.textIn source
  match p.names with
  | [] => [⟨none, type⟩]
  | names => names.map fun name => ⟨some name, type⟩

/-- The signature of a function in its file. A variadic result has no type of its own. -/
def Function.signature (source : Text) (f : Function) : Signature where
  parameters := f.parameters.flatMap (Param.expand source)
  variadic := f.parameters.any (·.variadic)
  results := ((f.results.filter fun p => !p.variadic).flatMap (Param.expand source)).map (·.type)

end Prefill.Go
