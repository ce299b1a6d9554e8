import Prefill.Path
import Prefill.Text.Utf8

/-!
Files and directories. A tree is addressed by the names on the way down from its top. Symbolic links
are entries of their own; following them is a separate step.
-/

namespace Prefill

open Text
open Prefill.Path (Component)

inductive Tree where
  | file (content : Utf8.Bytes)
  | link (target : Text)
  | directory (entries : List (Text × Tree))

/-- The names from the top of a tree down to an entry. -/
abbrev Address := List Text

/-- Why a file cannot be read or written. -/
inductive FileError where
  | notFound
  | notDirectory
  | isDirectory
  | exists
  | tooManyLinks
  | invalidText
  deriving DecidableEq, Repr

def FileError.message : FileError → String
  | .notFound => "No such file or directory (os error 2)"
  | .notDirectory => "Not a directory (os error 20)"
  | .isDirectory => "Is a directory (os error 21)"
  | .exists => "File exists (os error 17)"
  | .tooManyLinks => "Too many levels of symbolic links (os error 40)"
  | .invalidText => "stream did not contain valid UTF-8"

namespace Tree

def empty : Tree := .directory []

def isDirectory : Tree → Bool
  | .directory _ => true
  | _ => false

def isFile : Tree → Bool
  | .file _ => true
  | _ => false

/-- The entries of a directory; anything else has none. -/
def entries : Tree → List (Text × Tree)
  | .directory entries => entries
  | _ => []

/-- The entry of a name. -/
def entry? (tree : Tree) (name : Text) : Option Tree :=
  (tree.entries.find? fun entry => entry.1 = name).map (·.2)

/-- What stands at an address, with no link followed. -/
def at? (tree : Tree) : Address → Option Tree
  | [] => some tree
  | name :: rest => (tree.entry? name).bind fun child => child.at? rest

/-- The content of the file at an address. -/
def file? (tree : Tree) (address : Address) : Option Utf8.Bytes :=
  match tree.at? address with
  | some (.file content) => some content
  | _ => none

mutual

/-- All files of a tree with their addresses, in the order of the entries. -/
def files : Tree → List (Address × Utf8.Bytes)
  | .file content => [([], content)]
  | .link _ => []
  | .directory entries => filesOf entries

def filesOf : List (Text × Tree) → List (Address × Utf8.Bytes)
  | [] => []
  | (name, entry) :: rest =>
    (entry.files.map fun file => (name :: file.1, file.2)) ++ filesOf rest

end

/-- The files of a tree that are new or other than before. -/
def changedFiles (before after : Tree) : List (Address × Utf8.Bytes) :=
  let old := before.files
  after.files.filter fun file => !old.contains file

/-- Entries with one of them replaced or added. -/
def setEntry (entries : List (Text × Tree)) (name : Text) (child : Tree) : List (Text × Tree) :=
  if entries.any fun entry => entry.1 = name then
    entries.map fun entry => if entry.1 = name then (name, child) else entry
  else entries ++ [(name, child)]

/-- Puts something at an address, with the directories on the way that are missing. -/
def put (tree : Tree) : Address → Tree → Tree
  | [], child => child
  | name :: rest, child =>
    .directory (setEntry tree.entries name (((tree.entry? name).getD empty).put rest child))

/-- Takes away what stands at an address. -/
def remove (tree : Tree) : Address → Tree
  | [] => tree
  | [name] => .directory (tree.entries.filter fun entry => entry.1 ≠ name)
  | name :: rest =>
    match tree.entry? name with
    | some child => .directory (setEntry tree.entries name (child.remove rest))
    | none => tree

/-- How many links may be followed on the way to one entry. -/
def linkLimit : Nat := 40

/-- Walks from an address; `follow` goes on from an address where a link leads. -/
def walkFrom (top : Tree) (follow : Address → List Component → Except FileError Address)
    (here : Address) : List Component → Except FileError Address
  | [] => .ok here
  | .root :: rest => walkFrom top follow [] rest
  | .current :: rest => walkFrom top follow here rest
  | .parent :: rest =>
    if (top.at? here).any isDirectory then walkFrom top follow here.dropLast rest
    else .error .notDirectory
  | .normal name :: rest =>
    if !(top.at? here).any isDirectory then .error .notDirectory
    else
      match top.at? (here ++ [name]) with
      | none => .error .notFound
      | some (.link target) => follow here ((⟨target⟩ : Path).components ++ rest)
      | some _ => walkFrom top follow (here ++ [name]) rest

/-- Walks from an address, following links; `hops` more links may be followed. -/
def locateFrom (top : Tree) : (hops : Nat) → Address → List Component → Except FileError Address
  | 0 => walkFrom top fun _ _ => .error .tooManyLinks
  | hops + 1 => walkFrom top (locateFrom top hops)

/-- Whether a path says by its end that it names a directory. -/
def namesDirectory (path : Path) : Bool :=
  endsWith "/" path.text || endsWith "/." path.text

/-- The address that a path leads to from the address of the working directory. -/
def locate (top : Tree) (here : Address) (path : Path) : Except FileError Address := do
  if path.text = [] then .error .notFound
  else
    let address ← top.locateFrom linkLimit here path.components
    if namesDirectory path && !(top.at? address).any isDirectory then .error .notDirectory
    else .ok address

/-- Whether a file stands at an address, perhaps at the end of links. -/
def isFileAt (top : Tree) (address : Address) : Bool :=
  match top.locateFrom linkLimit [] (address.map .normal) with
  | .ok found => (top.at? found).any isFile
  | .error _ => false

/-- The text of the file at an address. -/
def text (top : Tree) (address : Address) : Except FileError Text :=
  match top.at? address with
  | some (.file content) =>
    match Utf8.decode? content with
    | some text => .ok text
    | none => .error .invalidText
  | some (.directory _) => .error .isDirectory
  | some (.link _) | none => .error .notFound

/-- The text of the file that a path leads to. -/
def textAt (top : Tree) (here : Address) (path : Path) : Except FileError Text := do
  top.text (← top.locate here path)

/-- Makes the directories on the way that are missing. -/
def createFrom (top : Tree) (here : Address) : List Component → Except FileError Tree
  | [] => .ok top
  | step :: rest =>
    match top.locateFrom linkLimit here [step], step with
    | .ok found, _ =>
      if (top.at? found).any isDirectory then createFrom top found rest
      else if rest.isEmpty then .error .exists
      else .error .notDirectory
    | .error e, .normal name =>
      if (top.at? (here ++ [name])).isNone then
        createFrom (top.put (here ++ [name]) empty) (here ++ [name]) rest
      else if rest.isEmpty || e = .notFound then .error .exists
      else .error e
    | .error e, _ => .error e

/-- Makes a directory and those above it, as far as they are missing. -/
def createDirectories (top : Tree) (here : Address) (path : Path) : Except FileError Tree :=
  top.createFrom here path.components

/-- Where a file would be made: in a directory that is there, under the last name. A link at that
place is followed; `hops` more links may be. -/
def placeFrom (top : Tree) : (hops : Nat) → Address → List Component → Except FileError Address
  | 0, _, _ => .error .tooManyLinks
  | hops + 1, here, steps =>
    match steps.getLast? with
    | some (.normal name) => do
      let directory ← top.locateFrom linkLimit here steps.dropLast
      if !(top.at? directory).any isDirectory then .error .notDirectory
      else
        match top.at? (directory ++ [name]) with
        | some (.link target) => placeFrom top hops directory (⟨target⟩ : Path).components
        | some (.directory _) => .error .isDirectory
        | _ => .ok (directory ++ [name])
    | _ => .error .isDirectory

/-- Writes a file at a path, whose directory has to be there. -/
def writeAt (top : Tree) (here : Address) (path : Path) (content : Utf8.Bytes) :
    Except FileError Tree :=
  if endsWith "/." path.text then do
    let _ ← top.locate here path
    .error .isDirectory
  else do
    let place ← top.placeFrom linkLimit here path.components
    if endsWith "/" path.text then .error .isDirectory
    else .ok (top.put place (.file content))

end Tree

end Prefill
