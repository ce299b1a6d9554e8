import Prefill.Project
import Prefill.Toolchain.Basic

/-!
What a placeholder calls. A name is a helper function, a member of a package, or a member of a value
that a helper file declares.
-/

namespace Prefill

open Text

inductive Target where
  | helper (symbol : Symbol)
  | package (spec : Go.ImportSpec) (member : Text)
  | qualified (qualifier member : Text)
  deriving DecidableEq, Repr

namespace Target

/-- What a result is remembered under. -/
def identity : Target → Text
  | .helper symbol => symbol.path.text ++ '#' :: symbol.name
  | .package spec member => spec.path ++ '.' :: member
  | .qualified qualifier member => qualifier ++ '.' :: member

def render : Target → Text
  | .helper symbol => symbol.name
  | .package spec member => spec.path ++ '.' :: member
  | .qualified qualifier member => qualifier ++ '.' :: member

/-- The type of the result; empty where it is not known. -/
def outputType : Target → Text
  | .helper symbol => symbol.signature.outputType
  | _ => []

/-- The type of the argument at a place, where it is known. -/
def typeAt? (target : Target) (index : Nat) : Option Text :=
  match target with
  | .helper symbol => symbol.signature.typeAt? index
  | _ => none

end Target

/-- Why a name calls nothing. -/
inductive ResolutionError where
  | unknownHelper (name : Text)
  | unknownPackage (qualifier : Text)
  | lookup (qualifier : Text) (cause : ExecutionError)
  deriving DecidableEq, Repr

def ResolutionError.message : ResolutionError → String
  | .unknownHelper name =>
    s!"no exported helper named {quoted name} is visible from this directory"
  | .unknownPackage qualifier =>
    s!"unknown package {quoted qualifier}; declare it in a helper file with " ++
      s!"`//go:ahead import {str qualifier}=<import path>`"
  | .lookup qualifier cause =>
    s!"cannot look up package {quoted qualifier}: {cause.message}. Declaring " ++
      s!"`//go:ahead import {str qualifier}=<import path>` in a helper file avoids the lookup"

namespace Project

/-- What a name before a point means to the helper files that are visible: a package that one of
them names in a comment, a value that one declares, or a package that one imports, in this order. -/
def member? (project : Project) (depth : Nat) (qualifier member : Text) : Option Target :=
  let visible := project.visible depth
  match (visible.flatMap (·.aliases)).find? fun a => a.label = qualifier with
  | some found => some (.package (.named qualifier found.path) member)
  | none =>
    if visible.any fun h => (h.source.find? qualifier).isSome then
      some (.qualified qualifier member)
    else
      ((visible.flatMap (·.source.imports)).find? fun i => i.localName = qualifier).map fun i =>
        .package (.named qualifier i.path) member

end Project

/-- What is known of packages: the path of each that was asked for, or that it has none. -/
abbrev PackageTable := List (Text × Option Text)

namespace PackageTable

def find? (table : PackageTable) (name : Text) : Option (Option Text) :=
  (List.find? (fun entry => entry.1 = name) table).map (·.2)

/-- The path of a package, from the table or else from the toolchain. An answer is kept, also that
there is no such package; an error is not. -/
def resolve {σ : Type} (toolchain : Toolchain σ) (name : Text) (table : PackageTable) (s : σ) :
    Except ExecutionError (Option Text) × List String × PackageTable × σ :=
  match table.find? name with
  | some known => (.ok known, [], table, s)
  | none =>
    let (result, s) := toolchain.package name s
    match result with
    | .error e => (.error e, [], table, s)
    | .ok path =>
      let shown := str (path.getD "nothing".toList)
      (.ok path, [s!"package {str name} resolved to {shown}"], table ++ [(name, path)], s)

end PackageTable

/-- What a name was found to be, with the notes on the way and what is known of packages now. -/
structure Resolution (σ : Type) where
  target : Except ResolutionError Target
  notes : List String
  packages : PackageTable
  tool : σ

namespace Project

/-- Finds what a name means as seen from a depth. -/
def resolve {σ : Type} (project : Project) (toolchain : Toolchain σ) (name : Text) (depth : Nat)
    (packages : PackageTable) (s : σ) : Resolution σ :=
  match project.index.lookup? name depth with
  | some symbol => ⟨.ok (.helper symbol), [], packages, s⟩
  | none =>
    match cutAt? ['.'] name with
    | none => ⟨.error (.unknownHelper name), [], packages, s⟩
    | some (qualifier, member) =>
      match project.member? depth qualifier member with
      | some target => ⟨.ok target, [], packages, s⟩
      | none =>
        let (found, notes, packages, s) := packages.resolve toolchain qualifier s
        let target := match found with
          | .ok (some path) => .ok (.package (.named qualifier path) member)
          | .ok none => .error (.unknownPackage qualifier)
          | .error cause => .error (.lookup qualifier cause)
        ⟨target, notes, packages, s⟩

end Project

end Prefill
