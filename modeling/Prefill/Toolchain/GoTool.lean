import Prefill.Text.Utf8
import Prefill.Toolchain.Basic
import Prefill.Toolchain.Listing

/-! The Go tool as a toolchain: `go run` for programs and `go list` for packages. -/

namespace Prefill

open Text

/-- A process to start, and the program in its directory. -/
structure ProcessCall where
  binary : Text
  arguments : List Text
  program : Option Program
  deriving DecidableEq, Repr

/-- What a process wrote, and its code; it has none when a signal ended it. -/
structure ProcessBytes where
  code : Option Int
  stdout : Utf8.Bytes
  stderr : Utf8.Bytes
  deriving DecidableEq, Repr

/-- Starts processes, or says why it cannot. -/
abbrev Processes (σ : Type) := ProcessCall → σ → Except String ProcessBytes × σ

/-- Bytes that are no text are replaced. -/
def ProcessOutput.ofBytes (bytes : ProcessBytes) : ProcessOutput :=
  ⟨bytes.code = some 0, bytes.code, Utf8.decodeLossy bytes.stdout, Utf8.decodeLossy bytes.stderr⟩

namespace Toolchain

variable {σ : Type}

/-- The file that a program is written into. -/
def programFile : Text := "main.go".toList

/-- Starts the Go tool for a purpose. -/
def startTool (processes : Processes σ) (binary : Text) (purpose : Purpose) (arguments : List Text)
    (program : Option Program) (s : σ) : Except ExecutionError ProcessOutput × σ :=
  let (result, s) := processes ⟨binary, arguments, program⟩ s
  match result with
  | .ok bytes => (.ok (.ofBytes bytes), s)
  | .error cause => (.error (.toolMissing binary purpose cause), s)

/-- The path that a listing of one package gives. -/
def listedPath? (output : ProcessOutput) : Option Text :=
  let path := trim output.stdout
  if output.success && !path.isEmpty then some path else none

/-- Finds a package in the listing of the standard library. -/
def standardPackage (processes : Processes σ) (binary name : Text) (s : σ) :
    Except ExecutionError (Option Text) × σ :=
  let (listing, s) :=
    startTool processes binary .resolvePackages ["list".toList, "std".toList] none s
  match listing with
  | .error e => (.error e, s)
  | .ok output => (.ok (if output.success then matchListing output.stdout name else none), s)

/-- Finds a package: by its path as it is, or else by the last segment of a standard one. -/
def findPackage (processes : Processes σ) (binary name : Text) (s : σ) :
    Except ExecutionError (Option Text) × σ :=
  let arguments := ["list", "-find", "-f", "\x7b\x7b.ImportPath\x7d\x7d"].map String.toList
  let (found, s) := startTool processes binary .resolvePackages (arguments ++ [name]) none s
  match found with
  | .error e => (.error e, s)
  | .ok output =>
    match listedPath? output with
    | some path => (.ok (some path), s)
    | none => standardPackage processes binary name s

/-- The Go tool under a name. -/
def goTool (processes : Processes σ) (binary : Text) : Toolchain σ where
  run program s :=
    startTool processes binary .runHelpers ["run".toList, programFile] (some program) s
  package name s := findPackage processes binary name s

end Toolchain

end Prefill
