import Prefill.Helper.Symbol
import Prefill.Table
import Prefill.Text.Quoted

/-!
The index of helper functions. A directory declares a name once, and so does a depth: helpers of one
depth share a namespace. A call sees the helper of the greatest depth that is not below its own.
-/

namespace Prefill

/-- Why helpers cannot be loaded together. -/
inductive Conflict where
  | inDirectory (name : Text) (directory : Path) (first second : Symbol)
  | atDepth (name : Text) (depth : Nat) (first second : Symbol)
  deriving DecidableEq, Repr

def Conflict.message : Conflict → String
  | .inDirectory name directory first second =>
    let name := Text.quoted name
    s!"helper {name} is declared twice in {directory.display}: " ++
      s!"{first.location} and {second.location}"
  | .atDepth name depth first second =>
    let name := Text.quoted name
    s!"helper {name} is declared twice at depth {depth}: " ++
      s!"{first.location} and {second.location}; helpers at the same depth share one namespace, " ++
      "so rename one or move it to another depth"

/-- A helper that hides a shallower one of the same name. -/
structure Shadowing where
  deeper : Symbol
  shallower : Symbol
  deriving DecidableEq, Repr

def Shadowing.message (s : Shadowing) : String :=
  let name := Text.quoted s.deeper.name
  s!"helper {name} at {s.deeper.location} shadows the one at {s.shallower.location} " ++
    "for files at or below its depth"

namespace Index

/-- A helper and the directory of its file. -/
structure Entry where
  directory : Path
  symbol : Symbol
  deriving DecidableEq, Repr

/-- Helpers by name. -/
abbrev Names := Table Text Symbol

section

variable {κ : Type} [DecidableEq κ]

/-- The helper of a name under a key. -/
def named? (table : Table κ Names) (key : κ) (name : Text) : Option Symbol :=
  (table.find? key).bind fun names => names.find? name

/-- Enters a helper under a key. -/
def addNamed (precedes : κ → κ → Bool) (key : κ) (symbol : Symbol) (table : Table κ Names) :
    Table κ Names :=
  table.alter precedes key fun names =>
    (names.getD []).alter (fun _ _ => false) symbol.name fun _ => symbol

end

end Index

/-- The helpers of a project, kept in two ways. -/
structure Index where
  /-- By depth, the shallowest first, then by name. -/
  byDepth : Table Nat Index.Names := []
  /-- By directory, then by name. A directory goes by the steps to it, however it is written. -/
  byDirectory : Table (List Path.Component) Index.Names := []
  deriving DecidableEq, Repr

namespace Index

def empty : Index := {}

def size (index : Index) : Nat := index.byDepth.total List.length

/-- The helper of a name in a directory. -/
def inDirectory? (index : Index) (directory : Path) (name : Text) : Option Symbol :=
  named? index.byDirectory directory.components name

/-- The helper of a name at a depth. -/
def atDepth? (index : Index) (depth : Nat) (name : Text) : Option Symbol :=
  named? index.byDepth depth name

/-- The helper of a name at the greatest depth in reach: the levels are searched upwards. -/
def nearest? (index : Index) (name : Text) (reach : Nat → Prop) [DecidablePred reach] :
    Option Symbol :=
  (index.byDepth.filter fun level => reach level.1).reverse.findSome? fun level =>
    level.2.find? name

/-- The helper that a call at a depth sees under a name. -/
def lookup? (index : Index) (name : Text) (depth : Nat) : Option Symbol :=
  index.nearest? name (· ≤ depth)

/-- What a helper hides among the helpers of an index. -/
def hides? (index : Index) (s : Symbol) : Option Shadowing :=
  (index.nearest? s.name (· < s.depth)).map (Shadowing.mk s)

/-- Enters a helper by its directory. -/
def addToDirectory (index : Index) (directory : Path) (symbol : Symbol) : Index :=
  ⟨index.byDepth, addNamed (fun _ _ => false) directory.components symbol index.byDirectory⟩

/-- Enters a helper by its depth. -/
def addToDepth (index : Index) (symbol : Symbol) : Index :=
  ⟨addNamed (fun a b => a < b) symbol.depth symbol index.byDepth, index.byDirectory⟩

/-- An attempt to enter a helper, which fails where its directory or its depth has the name already.
Gives the shallower helper that it hides, or what it clashes with, and the index afterwards. -/
def attempt (index : Index) (directory : Path) (symbol : Symbol) :
    Except Conflict (Option Shadowing) × Index :=
  match index.inDirectory? directory symbol.name with
  | some first => (.error (.inDirectory symbol.name directory first symbol), index)
  | none =>
    match index.atDepth? symbol.depth symbol.name with
    | some first => (.error (.atDepth symbol.name symbol.depth first symbol), index)
    | none =>
      (.ok (index.hides? symbol), (index.addToDirectory directory symbol).addToDepth symbol)

/-- The index with one helper more, unless it clashes with another. -/
def insert (index : Index) (directory : Path) (symbol : Symbol) :
    Except Conflict (Index × Option Shadowing) :=
  match index.attempt directory symbol with
  | (.ok hidden, next) => .ok (next, hidden)
  | (.error conflict, _) => .error conflict

end Index

end Prefill
