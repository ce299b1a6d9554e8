import Prefill.Config.Basic
import Prefill.Yaml.Reader

/-!
Settings from a YAML document. Fields that are missing keep their defaults, fields with other names
are passed over, and no field may stand twice. A number has to be written plainly; any scalar can
be text.
-/

namespace Prefill.Config

open Text

/-- Why a document holds no settings. -/
inductive ReadError where
  | document (fault : Yaml.Fault)
  | field (path : String) (problem : String) (mark : Yaml.Mark)
  deriving DecidableEq, Repr

def ReadError.message : ReadError → String
  | .document fault => fault.message
  | .field path problem mark =>
    (if path.isEmpty then problem else s!"{path}: {problem}") ++ mark.suffix

/-- The value of digits in a base. -/
def digits? (base : Nat) (text : Text) : Option Nat :=
  if text.isEmpty then none
  else
    text.foldl (fun value? c => do
      let value ← value?
      let digit ← hexValue? c
      if digit < base then some (value * base + digit) else none) (some 0)

/-- Bases that a number names at its start. -/
def bases : List (String × Nat) := [("0x", 16), ("0o", 8), ("0b", 2)]

/-- Zeros before further digits make a text of them. -/
def isPadded (text : Text) : Bool :=
  match text with
  | '0' :: rest => !rest.isEmpty && rest.all isAsciiDigit
  | _ => false

/-- Reads a number without a sign, or in decimal digits behind a plus. -/
def natural? (text : Text) : Option Nat :=
  let body := (after? "+" text).getD text
  let named := bases.findSome? fun (lead, base) => (after? lead body).bind (digits? base)
  match named with
  | some value => some value
  | none => if isPadded body then none else digits? 10 body

/-- Reads a number behind a minus. -/
def negative? (text : Text) : Option Nat :=
  (after? "-" text).bind fun body =>
    let named := bases.findSome? fun (lead, base) => (after? lead body).bind (digits? base)
    match named with
    | some value => some value
    | none => if isPadded body then none else digits? 10 body

/-- The digits before and after the point of a number, and its exponent. -/
structure Decimal where
  whole : Text
  fraction : Text
  exponent : Int

/-- Reads the exponent of a decimal. -/
def exponent? (text : Text) : Option Int :=
  match text with
  | [] => some 0
  | c :: rest =>
    if c = 'e' || c = 'E' then
      match rest with
      | '-' :: digits => (digits? 10 digits).map fun n => -(n : Int)
      | '+' :: digits => (digits? 10 digits).map fun n => (n : Int)
      | digits => (digits? 10 digits).map fun n => (n : Int)
    else none

/-- Reads a decimal without a sign. -/
def decimal? (text : Text) : Option Decimal :=
  let whole := text.takeWhile isAsciiDigit
  let rest := text.dropWhile isAsciiDigit
  let (fraction, rest) := match rest with
    | '.' :: more => (more.takeWhile isAsciiDigit, more.dropWhile isAsciiDigit)
    | rest => ([], rest)
  if whole.isEmpty && fraction.isEmpty then none
  else (exponent? rest).map fun exponent => ⟨whole, fraction, exponent⟩

/-- A decimal written with a point and without an exponent. -/
def Decimal.render (d : Decimal) : Text :=
  let digits := d.whole ++ d.fraction
  let point : Int := d.whole.length + d.exponent
  let padded := List.replicate (1 - point).toNat '0' ++ digits ++
    List.replicate (point + 1 - digits.length).toNat '0'
  let count := (max point 1).toNat
  let whole := (padded.take count).dropWhile (· = '0')
  let fraction := ((padded.drop count).reverse.dropWhile (· = '0')).reverse
  (if whole.isEmpty then ['0'] else whole) ++ '.' :: (if fraction.isEmpty then ['0'] else fraction)

/-- Numbers that fit into 32 bits are below this one. -/
def bound32 : Nat := 0x100000000

/-- Numbers that fit into 63 bits are below this one. -/
def bound63 : Nat := 0x8000000000000000

/-- Numbers that fit into 64 bits are below this one. -/
def bound64 : Nat := 0x10000000000000000

/-- What an untagged plain scalar is taken for. -/
def describePlain (text : Text) : String :=
  let isOneOf (words : List String) := words.any (·.toList = text)
  if text.isEmpty || isOneOf ["null", "Null", "NULL", "~"] then "unit value"
  else if isOneOf ["true", "True", "TRUE"] then "boolean `true`"
  else if isOneOf ["false", "False", "FALSE"] then "boolean `false`"
  else
    match natural? text, negative? text with
    | some n, _ => if n < bound64 then s!"integer `{n}`" else s!"integer `{n}` as u128"
    | none, some n => if n ≤ bound63 then s!"integer `-{n}`" else s!"integer `-{n}` as i128"
    | none, none =>
      let (sign, body) := match text with
        | '-' :: body => (['-'], body)
        | '+' :: body => ([], body)
        | body => ([], body)
      match if isPadded body then none else decimal? body with
      | some d => s!"floating point `{str (sign ++ d.render)}`"
      | none => s!"string {quoted text}"

/-- What a node is taken for. -/
def describe : Yaml → String
  | .scalar _ true text => describePlain text
  | .scalar _ false text => s!"string {quoted text}"
  | .sequence .. => "sequence"
  | .mapping .. => "map"

def wrongType (path expected : String) (node : Yaml) : ReadError :=
  .field path s!"invalid type: {describe node}, expected {expected}" node.mark

/-- A number below a bound. -/
def readNumber (path expected : String) (bound : Nat) (node : Yaml) : Except ReadError Nat :=
  match node with
  | .scalar mark true text =>
    match natural? text with
    | some n =>
      if n < bound then .ok n
      else if n < bound64 then
        .error (.field path s!"invalid value: integer `{n}`, expected {expected}" mark)
      else .error (wrongType path expected node)
    | none => .error (wrongType path expected node)
  | node => .error (wrongType path expected node)

def readText (path : String) (node : Yaml) : Except ReadError Text :=
  match node with
  | .scalar _ _ text => .ok text
  | node => .error (wrongType path "a string" node)

/-- A list of texts; an absent value is an empty list. -/
def readTexts (path : String) (node : Yaml) : Except ReadError (List Text) :=
  match node with
  | .sequence _ items => items.zipIdx.mapM fun (item, i) => readText s!"{path}[{i}]" item
  | .scalar _ true [] => .ok []
  | node => .error (wrongType path "a sequence" node)

/-- Settings with one field read. -/
def readField (config : Config) (name : String) (node : Yaml) : Except ReadError Config :=
  match name with
  | "go_binary" => do return { config with goBinary := ← readText name node }
  | "max_retries" => do return { config with maxRetries := ← readNumber name "u32" bound32 node }
  | "retry_backoff_ms" => do
    return { config with retryBackoff := ← readNumber name "u64" bound64 node }
  | "scan_threads" => do
    return { config with scanThreads := ← readNumber name "usize" bound64 node }
  | "excluded_paths" => do return { config with excludedPaths := ← readTexts name node }
  | _ => .ok config

/-- The names of the fields. -/
def fieldNames : List String :=
  ["go_binary", "max_retries", "retry_backoff_ms", "scan_threads", "excluded_paths"]

/-- Reads the entries of a mapping; `seen` are the fields read before. -/
def readEntries (mark : Yaml.Mark) (config : Config) (seen : List String) :
    List (Yaml × Yaml) → Except ReadError Config
  | [] => .ok config
  | (key, node) :: rest =>
    match key with
    | .scalar _ _ text =>
      let name := str text
      if seen.contains name && fieldNames.contains name then
        .error (.field "" s!"duplicate field `{name}`" mark)
      else
        match readField config name node with
        | .ok config => readEntries mark config (name :: seen) rest
        | .error e => .error e
    | key => .error (wrongType "" "field identifier" key)

/-- Reads settings. An empty document gives the defaults. -/
def ofText (text : Text) : Except ReadError Config :=
  if blank text then .ok {}
  else
    match Yaml.parse text with
    | .error fault => .error (.document fault)
    | .ok none => .ok {}
    | .ok (some (.mapping mark entries)) => readEntries mark {} [] entries
    | .ok (some (.scalar _ true [])) => .ok {}
    | .ok (some node) => .error (wrongType "" "struct Config" node)

end Prefill.Config
