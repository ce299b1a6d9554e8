import Prefill.Path

/-!
Command line arguments. A switch takes its value from the same argument or from the next one. A
value from the next argument is looked at only when a further argument is understood, or at the
end; an argument that is not understood is the error that counts.
-/

namespace Prefill.Cli

open Text

/-- Why a command line is not carried out. -/
inductive Usage where
  | help
  | version
  | missingCommand
  | unknownCommand
  | unknownArgument
  | invalidValue
  | tooManyValues
  | repeated
  deriving DecidableEq, Repr

/-- The exit code of a command line that is not carried out. -/
def Usage.exitCode : Usage → Nat
  | .help | .version => 0
  | _ => 2

/-- What an argument holds. -/
inductive Kind where
  | flag
  | text
  | path
  deriving DecidableEq, Repr

/-- A named argument; `short` is its one-letter form. -/
structure Switch where
  name : String
  short : Char
  kind : Kind
  deriving DecidableEq, Repr

/-- What a command takes: its switches, and perhaps a path under a name. -/
structure Spec where
  switches : List Switch
  positional : Option String
  deriving DecidableEq, Repr

/-- An argument whose value is not looked at yet; it has none while it waits for the next
argument. -/
structure Pending where
  name : String
  kind : Kind
  value : Option Text
  deriving DecidableEq, Repr

/-- What has been read of a command line. -/
structure Reading where
  found : List (String × Text) := []
  pending : Option Pending := none
  /-- Whether everything that follows is positional. -/
  trailing : Bool := false
  deriving DecidableEq, Repr

namespace Reading

/-- The value of an argument. -/
def value? (reading : Reading) (name : String) : Option Text :=
  (reading.found.find? fun entry => entry.1 = name).map (·.2)

/-- Whether an argument was given, be its value looked at or not. -/
def has (reading : Reading) (name : String) : Bool :=
  (reading.value? name).isSome || reading.pending.any fun p => p.name = name

/-- Takes an argument up. None may be given twice, and a path is not empty. -/
def record (reading : Reading) (name : String) (kind : Kind) (value : Text) :
    Except Usage Reading :=
  if (reading.value? name).isSome then .error .repeated
  else if kind = .path && value.isEmpty then .error .invalidValue
  else .ok { reading with found := reading.found ++ [(name, value)] }

/-- Looks at the value of the last argument. -/
def settle (reading : Reading) : Except Usage Reading :=
  match reading.pending with
  | none => .ok reading
  | some ⟨_, _, none⟩ => .error .invalidValue
  | some ⟨name, kind, some value⟩ => { reading with pending := none }.record name kind value

/-- Takes a flag up. -/
def flag (reading : Reading) (switch : Switch) : Except Usage Reading := do
  (← reading.settle).record switch.name .flag []

/-- Takes up a switch with the value in its own argument. -/
def attached (reading : Reading) (switch : Switch) (value : Text) : Except Usage Reading := do
  (← reading.settle).record switch.name switch.kind value

/-- Lets a switch wait for the next argument. -/
def await (reading : Reading) (switch : Switch) : Except Usage Reading := do
  return { ← reading.settle with pending := some ⟨switch.name, switch.kind, none⟩ }

/-- Ends with the help, if nothing before it is wrong. -/
def help (reading : Reading) : Except Usage Reading := do
  let _ ← reading.settle
  .error .help

/-- Reads a switch by its name, perhaps with a value behind an equals sign. -/
def long (spec : Spec) (reading : Reading) (argument : Text) : Except Usage Reading :=
  let name := argument.takeWhile (· ≠ '=')
  let value? := (argument.dropWhile (· ≠ '=')).tail?
  match spec.switches.find? fun switch => switch.name.toList = name, value? with
  | some ⟨_, _, .flag⟩, some _ => .error .tooManyValues
  | some switch, some value => reading.attached switch value
  | some switch, none => if switch.kind = .flag then reading.flag switch else reading.await switch
  | none, some _ => .error (if name = "help".toList then .tooManyValues else .unknownArgument)
  | none, none => if name = "help".toList then reading.help else .error .unknownArgument

/-- Reads switches by their letters; the rest after the letter of a switch with a value is that
value. -/
def letters (spec : Spec) (reading : Reading) : Text → Except Usage Reading
  | [] => .ok reading
  | c :: rest =>
    match spec.switches.find? fun switch => switch.short = c with
    | none => if c = 'h' then reading.help else .error .unknownArgument
    | some switch =>
      if switch.kind = .flag then
        match reading.flag switch with
        | .ok reading => letters spec reading rest
        | .error e => .error e
      else if rest.isEmpty then reading.await switch
      else reading.attached switch ((after? "=" rest).getD rest)

/-- Reads an argument without a name. -/
def positional (spec : Spec) (reading : Reading) (argument : Text) : Except Usage Reading :=
  match spec.positional with
  | none => .error .unknownArgument
  | some name =>
    if reading.has name then .error .unknownArgument
    else do return { ← reading.settle with pending := some ⟨name, .path, some argument⟩ }

/-- Reads one argument. -/
def step (spec : Spec) (reading : Reading) (argument : Text) : Except Usage Reading :=
  if reading.trailing then reading.positional spec argument
  else
    match argument with
    | ['-', '-'] => .ok { reading with trailing := true }
    | '-' :: '-' :: name => reading.long spec name
    | '-' :: c :: rest => reading.letters spec (c :: rest)
    | argument =>
      match reading.pending with
      | some ⟨name, kind, none⟩ =>
        .ok { reading with pending := some ⟨name, kind, some argument⟩ }
      | _ => reading.positional spec argument

end Reading

/-- Reads the arguments of a command. -/
def Spec.read (spec : Spec) (arguments : List Text) : Except Usage Reading := do
  (← arguments.foldlM (Reading.step spec) {}).settle

end Prefill.Cli
