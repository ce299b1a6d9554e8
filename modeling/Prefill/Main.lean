import Prefill.Cli.Action

/-!
The program: reads the files that a command needs, carries it out, and writes what changed. It
starts no processes, so every placeholder is left with a warning that the Go tool is missing.
-/

namespace Prefill.Main

open Text

/-- What stands on disk at a path. Anything but files and directories is passed over. -/
partial def readTree (path : String) : IO (Option Tree) := do
  let place := (← IO.currentDir) / path
  match ← place.isDir with
  | true =>
    let mut entries := []
    for entry in ← place.readDir do
      let kind := (← entry.path.symlinkMetadata).type
      if kind == .dir || kind == .file then
        if let some tree ← readTree entry.path.toString then
          entries := (entry.fileName.toList, tree) :: entries
    return some (.directory entries)
  | false =>
    if ← place.pathExists then return some (.file (← IO.FS.readBinFile place).toList)
    else return none

/-- The address of a path, seen from the working directory. -/
def addressOf (here : Address) (path : Path) : Address :=
  path.components.foldl (fun address component =>
    match component with
    | .root => []
    | .current => address
    | .parent => address.dropLast
    | .normal name => address ++ [name]) here

/-- A tree with what stands on disk at a path. -/
def withPath (top : Tree) (here : Address) (path : Path) : IO Tree := do
  match ← readTree path.display with
  | some tree => return top.put (addressOf here path) tree
  | none => return top

/-- A tree with what stands on the way to a path; directories are taken as empty. -/
def withWay (top : Tree) (here : Address) (path : Path) : IO Tree := do
  let mut tree := top
  let address := addressOf here path
  for count in List.range (address.length + 1) do
    let names := address.take count
    let place := (← IO.currentDir) / str ('/' :: joinWith "/" names)
    if ← place.isDir then
      if (tree.at? names).isNone then tree := tree.put names .empty
    else if ← place.pathExists then tree := tree.put names (.file [])
  return tree

/-- The files that a command looks at. -/
def worldOf (command : Cli.Command) : IO Cli.World := do
  let here := addressOf [] ⟨(← IO.currentDir).toString.toList⟩
  let start := Tree.empty.put here .empty
  match command with
  | .generate options =>
    let top ← withPath start here options.path
    match options.config with
    | some config => return ⟨← withPath top here config, here⟩
    | none => return ⟨top, here⟩
  | .init output => return ⟨← withWay start here output, here⟩

/-- Writes the files that changed. -/
def save (before after : Tree) : IO Unit := do
  for (address, content) in before.changedFiles after do
    let place := (← IO.currentDir) / str ('/' :: joinWith "/" address)
    if let some directory := place.parent then IO.FS.createDirAll directory
    IO.FS.writeBinFile place ⟨content.toArray⟩

/-- No process can be started. -/
def noProcesses : Processes Unit := fun _ s => (.error "Operation not permitted (os error 1)", s)

/-- Debug output may also be asked for in the environment. -/
def withDebug (debug : Bool) : Cli.Command → Cli.Command
  | .generate options => .generate { options with verbose := options.verbose || debug }
  | command => command

end Prefill.Main

open Prefill in
def main (arguments : List String) : IO UInt32 := do
  match Cli.Command.ofArguments (arguments.map String.toList) with
  | .error usage =>
    if usage.exitCode = 0 then IO.print usage.message else IO.eprint usage.message
    return usage.exitCode.toUInt32
  | .ok command =>
    let debug := (← IO.getEnv "GOAHEAD_DEBUG").isSome
    let world ← Main.worldOf command
    let (result, _) := (Main.withDebug debug command).perform Main.noProcesses world ()
    Main.save world.top result.top
    IO.print result.stdout
    IO.eprint result.stderr
    return result.exitCode.toUInt32
