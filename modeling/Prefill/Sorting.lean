/-!
Sorting by a comparison. Elements that the comparison does not tell apart keep their order.
-/

namespace Prefill

variable {α : Type}

/-- Puts an element before the first one that it may stand before. -/
def insertInto (le : α → α → Bool) (a : α) : List α → List α
  | [] => [a]
  | b :: rest => if le a b then a :: b :: rest else b :: insertInto le a rest

def sortedBy (le : α → α → Bool) (list : List α) : List α := list.foldr (insertInto le) []

end Prefill
