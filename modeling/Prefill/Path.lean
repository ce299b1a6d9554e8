import Prefill.Text.Basic

/-!
Paths. A path keeps the text it was written with, which is what messages show; two paths are the
same when their components are, so `d`, `d/`, `d//` and `d/.` are one directory. A leading `.` is a
component of its own.
-/

namespace Prefill

open Text

structure Path where
  text : Text
  deriving DecidableEq, Repr

namespace Path

/-- A step of a path. -/
inductive Component where
  | root
  | current
  | parent
  | normal (name : Text)
  deriving DecidableEq, Repr

/-- The kinds of components stand in this order. -/
def Component.rank : Component → Nat
  | .root => 0
  | .current => 1
  | .parent => 2
  | .normal _ => 3

/-- Components in order, names by their code points. -/
def Component.notAfter : Component → Component → Bool
  | .normal a, .normal b => Text.notAfter a b
  | a, b => a.rank ≤ b.rank

/-- A step after the first: an empty piece or a `.` leads nowhere. -/
def component? (piece : Text) : Option Component :=
  if piece = [] || piece = ['.'] then none
  else if piece = ['.', '.'] then some .parent
  else some (.normal piece)

/-- The steps of a path. -/
def components (p : Path) : List Component :=
  match pieces '/' p.text with
  | first :: rest =>
    let steps := rest.filterMap component?
    if first = [] then if p.text = [] then [] else .root :: steps
    else if first = ['.'] then .current :: steps
    else (component? first).toList ++ steps
  | [] => []

/-- Whether two paths name the same place. -/
def same (p q : Path) : Bool := p.components = q.components

/-- Steps in order: component by component, and fewer before more. -/
def stepsNotAfter : List Component → List Component → Bool
  | [], _ => true
  | _ :: _, [] => false
  | a :: as, b :: bs => if a = b then stepsNotAfter as bs else a.notAfter b

/-- Paths in order, a path before what lies below it. -/
def notAfter (p q : Path) : Bool := stepsNotAfter p.components q.components

def display (p : Path) : String := str p.text

/-- A name below a path. -/
def join (p : Path) (name : Text) : Path :=
  match p.text.getLast? with
  | none => ⟨name⟩
  | some '/' => ⟨p.text ++ name⟩
  | some _ => ⟨p.text ++ '/' :: name⟩

/-- Drops slashes and lone points at the end of a path, given in reverse. -/
def dropTail : Text → Text
  | '/' :: rest => dropTail rest
  | '.' :: '/' :: rest => dropTail rest
  | rest => rest

/-- The path without its last component. -/
def parent? (p : Path) : Option Path :=
  match p.components.getLast? with
  | none | some .root => none
  | some _ =>
    let kept := (dropTail ((dropTail p.text.reverse).dropWhile (· ≠ '/'))).reverse
    some ⟨if kept = [] && p.text.head? = some '/' then ['/'] else kept⟩

/-- How many directories lie between a directory and one below it; 0 when it is not below. -/
def depthBelow (root directory : Path) : Nat :=
  if root.components.isPrefixOf directory.components then
    directory.components.length - root.components.length
  else 0

/-- How deep below `root` the directory of a file is. -/
def depthOf (root file : Path) : Nat := depthBelow root (file.parent?.getD root)

end Path

end Prefill
