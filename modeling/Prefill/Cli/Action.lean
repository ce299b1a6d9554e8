import Prefill.Cli.Command
import Prefill.Config.Load
import Prefill.Config.Template
import Prefill.Run
import Prefill.Toolchain.GoTool

/-!
Carrying out a command: what it prints, its exit code, and the files afterwards. `generate` runs
over a project; `init` writes a settings file.
-/

namespace Prefill.Cli

open Text

/-- The files as a command finds them, and where in them it is started. -/
structure World where
  top : Tree
  here : Address

/-- What is left of a command that was carried out. -/
structure Result where
  exitCode : Nat
  stdout : String
  stderr : String
  top : Tree

/-- Why a command cannot be carried out. -/
inductive Failure where
  | badFormat (format : Text)
  | inaccessible (path : Path) (cause : FileError)
  | notDirectory (path : Path)
  | config (cause : Config.LoadError)
  | load (cause : LoadError)
  | outputExists (path : Path)
  | directoryNotMade (cause : FileError)
  | notWritten (cause : FileError)
  deriving DecidableEq, Repr

namespace Failure

/-- A character of a path in double quotes: an apostrophe is escaped as well. -/
def shownInPath (c : Char) : Text := if c = '\'' then ['\\', c] else shown c

def quotedPath (path : Path) : String := str ('"' :: (path.text.flatMap shownInPath ++ ['"']))

/-- A conflict between helpers is a finding about the project and has the tag of one. -/
def message : Failure → String
  | .badFormat format => s!"Error: invalid format {quoted format}, must be 'pretty' or 'json'"
  | .inaccessible path cause => s!"Error: cannot access path {quotedPath path}: {cause.message}"
  | .notDirectory path => s!"Error: {path.display} is not a directory"
  | .config cause => s!"Error: {cause.message}"
  | .load (.conflict clash) => s!"{Diagnostic.tag} error: {clash.message}"
  | .load cause => s!"Error: {cause.message}"
  | .outputExists path =>
    s!"Error: file already exists: {path.display}\n" ++
      "Remove it or use --output to specify a different path"
  | .directoryNotMade cause => s!"Error: failed to create directory: {cause.message}"
  | .notWritten cause => s!"Error: failed to write config: {cause.message}"

def exitCode : Failure → Nat
  | .load (.conflict _) => 1
  | _ => 2

/-- A command that failed has printed nothing but debug output and the reason. -/
def toResult (failure : Failure) (debug : String) (top : Tree) : Result :=
  ⟨failure.exitCode, "", debug ++ failure.message ++ "\n", top⟩

end Failure

/-- How a report is shown. -/
inductive Format where
  | pretty
  | json
  deriving DecidableEq, Repr

def Format.ofText? (text : Text) : Option Format :=
  match str text with
  | "pretty" => some .pretty
  | "json" => some .json
  | _ => none

def Format.render (format : Format) (report : Report) (path : Path) : String :=
  match format with
  | .pretty => report.summary path.display
  | .json => report.json path.display

/-- What `generate` needs before it can run. -/
structure Preparation where
  format : Format
  root : Place
  config : Config

/-- Checks the options of `generate`: the format, the root, and then the settings. -/
def prepare (world : World) (options : GenerateOptions) : Except Failure Preparation := do
  let some format := Format.ofText? options.format | .error (.badFormat options.format)
  let address ← (world.top.locate world.here options.path).mapError (.inaccessible options.path)
  if !(world.top.at? address).any Tree.isDirectory then .error (.notDirectory options.path)
  else
    let root : Place := ⟨options.path, address⟩
    let config ← (Config.load world.top world.here root options.config).mapError .config
    return ⟨format, root, config⟩

def debugLines (events : List Event) : String :=
  String.join (events.map fun event => event.debugLine ++ "\n")

variable {σ : Type}

/-- Runs over a project and shows the report. -/
def generate (processes : Processes σ) (world : World) (options : GenerateOptions) (s : σ) :
    Result × σ :=
  match prepare world options with
  | .error failure => (failure.toResult "" world.top, s)
  | .ok ⟨format, root, config⟩ =>
    let outcome := Run.run (Toolchain.goTool processes config.goBinary) config world.top root s
    let debug := if options.verbose then debugLines outcome.events else ""
    match outcome.result with
    | .error e => ((Failure.load e).toResult debug outcome.tree, outcome.tool)
    | .ok report =>
      (⟨if report.hasErrors then 1 else 0, format.render report options.path,
          debug ++ report.diagnosticLines, outcome.tree⟩,
        outcome.tool)

/-- Makes the directory that a file is to be written into. -/
def makeParent (world : World) (output : Path) : Except Failure Tree :=
  match output.parent? with
  | none => .ok world.top
  | some parent =>
    if parent.text.isEmpty || parent.same ⟨['.']⟩ then .ok world.top
    else (world.top.createDirectories world.here parent).mapError .directoryNotMade

/-- What to do after `init`. -/
def nextSteps : String :=
  "Next steps:\n" ++
  "  1. Mark a helper file with `//go:ahead functions` (and `//go:build ignore`)\n" ++
  "  2. Run: goahead generate .\n"

/-- Writes a settings file, but never over another. Directories made on the way stay when the file
cannot be written. -/
def init (world : World) (output : Path) : Result :=
  if (world.top.locate world.here output).isOk then
    (Failure.outputExists output).toResult "" world.top
  else
    match makeParent world output with
    | .error failure => failure.toResult "" world.top
    | .ok top =>
      match top.writeAt world.here output (Utf8.encode Config.template) with
      | .error cause => (Failure.notWritten cause).toResult "" top
      | .ok written => ⟨0, s!"Created {output.display}\n\n" ++ nextSteps, "", written⟩

/-- Carries out a command. -/
def Command.perform (processes : Processes σ) (world : World) (command : Command) (s : σ) :
    Result × σ :=
  match command with
  | .generate options => Cli.generate processes world options s
  | .init output => (Cli.init world output, s)

end Prefill.Cli
