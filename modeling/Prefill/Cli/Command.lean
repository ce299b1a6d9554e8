import Prefill.Cli.Arguments

/-! The commands of the program and the arguments that they take. -/

namespace Prefill.Cli

open Text

/-- The commands, for a reader. -/
def helpText : String :=
  "Compile-time code generation for Go\n\n" ++
  "Usage: goahead <COMMAND>\n\n" ++
  "Commands:\n" ++
  "  generate  Replace placeholders and inject helpers under a directory [aliases: run]\n" ++
  "              [PATH] [-c, --config <CONFIG>] [-f, --format <FORMAT>] [-v, --verbose]\n" ++
  "  init      Write a commented goahead.yaml\n" ++
  "              [-o, --output <OUTPUT>]\n" ++
  "  help      Print this message\n\n" ++
  "Options:\n" ++
  "  -h, --help     Print help\n" ++
  "  -V, --version  Print version\n"

/-- What a command line that is not carried out is answered with. -/
def Usage.message : Usage → String
  | .help | .missingCommand => helpText
  | .version => "goahead 0.1.0\n"
  | .unknownCommand => "error: unrecognized subcommand\n"
  | .unknownArgument => "error: unexpected argument found\n"
  | .invalidValue => "error: a value is required\n"
  | .tooManyValues => "error: unexpected value found\n"
  | .repeated => "error: an argument cannot be used multiple times\n"

/-- What `generate` is asked to do. -/
structure GenerateOptions where
  path : Path
  config : Option Path
  format : Text
  verbose : Bool
  deriving DecidableEq, Repr

inductive Command where
  | generate (options : GenerateOptions)
  | init (output : Path)
  deriving DecidableEq, Repr

namespace Command

def generateSpec : Spec where
  switches := [⟨"config", 'c', .path⟩, ⟨"format", 'f', .text⟩, ⟨"verbose", 'v', .flag⟩]
  positional := some "path"

def initSpec : Spec where
  switches := [⟨"output", 'o', .path⟩]
  positional := none

def readGenerate (arguments : List Text) : Except Usage Command := do
  let reading ← generateSpec.read arguments
  return .generate
    { path := ⟨(reading.value? "path").getD ".".toList⟩
      config := (reading.value? "config").map Path.mk
      format := (reading.value? "format").getD "pretty".toList
      verbose := (reading.value? "verbose").isSome }

def readInit (arguments : List Text) : Except Usage Command := do
  let reading ← initSpec.read arguments
  return .init ⟨(reading.value? "output").getD "goahead.yaml".toList⟩

/-- How the arguments after the name of a command are read. -/
def reader? (name : Text) : Option (List Text → Except Usage Command) :=
  match str name with
  | "generate" | "run" => some readGenerate
  | "init" => some readInit
  | _ => none

/-- Whether help can be asked for about a word. -/
def hasHelp (name : Text) : Bool := (reader? name).isSome || name = "help".toList

/-- What `help` answers: the commands have none of their own, so a second word is always wrong. -/
def readHelp : List Text → Usage
  | [] => .help
  | name :: rest =>
    if !hasHelp name then .unknownCommand else if rest.isEmpty then .help else .unknownCommand

/-- Reads a switch in front of a command. -/
def readLong (argument : Text) : Usage :=
  let name := str (argument.takeWhile (· ≠ '='))
  let known := name = "help" || name = "version"
  if !known then .unknownArgument
  else if argument.contains '=' then .tooManyValues
  else if name = "help" then .help
  else .version

/-- Reads a one-letter switch in front of a command. -/
def readLetter (c : Char) : Usage :=
  if c = 'h' then .help else if c = 'V' then .version else .unknownArgument

/-- What follows `--` in front of a command cannot be one. -/
def readTrailing : List Text → Usage
  | [] => .missingCommand
  | name :: _ => if hasHelp name then .unknownArgument else .unknownCommand

/-- Reads a command line. -/
def ofArguments : List Text → Except Usage Command
  | [] => .error .missingCommand
  | ['-', '-'] :: rest => .error (readTrailing rest)
  | ('-' :: '-' :: name) :: _ => .error (readLong name)
  | ('-' :: c :: _) :: _ => .error (readLetter c)
  | name :: rest =>
    match reader? name with
    | some read => read rest
    | none => .error (if name = "help".toList then readHelp rest else .unknownCommand)

end Command

end Prefill.Cli
