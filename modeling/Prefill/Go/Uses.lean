import Prefill.Go.Syntax
import Prefill.Sorting

/-!
The names a tree uses. Every name counts, bound or free, because a name that is bound somewhere may
still be free elsewhere; only labels, fields and methods are left out. A name before a point is also
a qualifier: it may be a package.
-/

namespace Prefill.Go

mutual

/-- The names in a tree, in source order. -/
def Term.references : Term → List Text
  | .name word => [word]
  | .typeName word => [word]
  | .qualified _ word => [word]
  | .constant _ => []
  | .literal _ => []
  | .selector operand _ => operand.references
  | .node _ parts => Term.referencesOf parts

def Term.referencesOf : List Term → List Text
  | [] => []
  | part :: rest => part.references ++ Term.referencesOf rest

end

mutual

/-- The names before a point in a tree, in source order. -/
def Term.qualifiers : Term → List Text
  | .name _ => []
  | .typeName _ => []
  | .qualified package _ => [package]
  | .constant _ => []
  | .literal _ => []
  | .selector (.name word) _ => [word]
  | .selector operand _ => operand.qualifiers
  | .node _ parts => Term.qualifiersOf parts

def Term.qualifiersOf : List Term → List Text
  | [] => []
  | part :: rest => part.qualifiers ++ Term.qualifiersOf rest

end

/-- Sorted by code points, each name once. -/
def sortedNames (names : List Text) : List Text :=
  (sortedBy Text.notAfter names).eraseReps

end Prefill.Go
