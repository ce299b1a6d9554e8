import Prefill.Literal.Quote
import Prefill.Token

/-!
Kinds of literals. The declared type of a helper's first result gives the kind; without one the
printed result is looked at.
-/

namespace Prefill

open Text

/-- What kind of literal a result replaces. -/
inductive LiteralKind where
  | string
  | int
  | uint
  | float
  | bool
  /-- A type without a literal form; only a call or a whole line is replaced. -/
  | other
  deriving DecidableEq, Repr

namespace LiteralKind

/-- The built-in types that have a literal form. -/
def builtIn : List (String × LiteralKind) :=
  [("string", .string), ("bool", .bool),
   ("int", .int), ("int8", .int), ("int16", .int), ("int32", .int), ("int64", .int), ("rune", .int),
   ("uint", .uint), ("uint8", .uint), ("uint16", .uint), ("uint32", .uint), ("uint64", .uint),
   ("uintptr", .uint), ("byte", .uint), ("float32", .float), ("float64", .float)]

/-- The kind for a declared type; none when no type is known. -/
def ofType? (typeName : Text) : Option LiteralKind :=
  let typeName := trim typeName
  if typeName.isEmpty then none
  else some (((builtIn.find? fun entry => entry.1.toList = typeName).map (·.2)).getD .other)

/-- A number with a point, or a decimal one with an exponent, is a float. -/
def ofNumber (digits : Text) : LiteralKind :=
  let hex := startsWith "0x" digits || startsWith "0X" digits
  if digits.contains '.' || (!hex && (digits.contains 'e' || digits.contains 'E')) then .float
  else .int

/-- The kind of a printed result. -/
def infer (output : Text) : LiteralKind :=
  match Token.tokenize (trim output) with
  | [token] =>
    if token.kind = .string then .string
    else if token.text = "true".toList || token.text = "false".toList then .bool
    else if token.kind = .number then ofNumber token.text
    else .other
  | [sign, token] =>
    if sign.text = ['-'] && token.kind = .number then ofNumber token.text else .other
  | _ => .other

/-- The kind as messages name it. -/
def describe : LiteralKind → String
  | .string => "string"
  | .int => "integer"
  | .uint => "unsigned integer"
  | .float => "float"
  | .bool => "bool"
  | .other => "value"

end LiteralKind

namespace Literal

/-- A string value as it is written into source: raw when that spares doubled backslashes and is
possible, interpreted otherwise. -/
def ofString (value : Text) : Text :=
  if value.contains '\\' && !value.any (fun c => c == '`' || c == '\n' || c == '\r') then
    '`' :: (value ++ ['`'])
  else quote value

/-- A printed result as the literal of its kind. A string that is printed without quotes stands
for itself. -/
def ofOutput (output : Text) (kind : LiteralKind) : Text :=
  let output := trim output
  match kind with
  | .string => ofString ((unquote? output).getD output)
  | .bool => output.map Char.toLower
  | _ => output

end Literal

end Prefill
