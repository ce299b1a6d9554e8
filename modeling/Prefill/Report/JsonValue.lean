import Prefill.Text.Basic

/-!
JSON on paper: an indent of two blanks a level, and one member or element a line. Text is written
as it is except for the quote, the backslash and the control characters.
-/

namespace Prefill

open Text

inductive JsonValue where
  | string (text : Text)
  | number (n : Nat)
  | bool (b : Bool)
  | list (items : List JsonValue)
  | object (members : List (String × JsonValue))

namespace JsonValue

/-- The control characters that have an escape of their own. -/
def shortEscapes : List (Char × Char) :=
  [('\x08', 'b'), ('\t', 't'), ('\n', 'n'), ('\x0c', 'f'), ('\r', 'r'), ('"', '"'), ('\\', '\\')]

def escape (c : Char) : Text :=
  match shortEscapes.find? fun entry => entry.1 = c with
  | some (_, letter) => ['\\', letter]
  | none => if c.toNat < 0x20 then '\\' :: 'u' :: hex 4 c.toNat else [c]

def quote (text : Text) : Text := '"' :: text.flatMap escape ++ ['"']

/-- The start of a line at a level. -/
def indent (level : Nat) : Text := '\n' :: List.replicate (2 * level) ' '

/-- Lines between brackets, which stand together when there are no lines. -/
def enclosed (opening closing : Char) (level : Nat) (lines : List Text) : Text :=
  if lines.isEmpty then [opening, closing]
  else
    opening :: joinWith "," (lines.map (indent (level + 1) ++ ·)) ++ indent level ++ [closing]

mutual

/-- The value as it is written at a level. -/
def renderAt (level : Nat) : JsonValue → Text
  | .string text => quote text
  | .number n => (toString n).toList
  | .bool b => (toString b).toList
  | .list items => enclosed '[' ']' level (itemLines (level + 1) items)
  | .object members => enclosed '\x7b' '\x7d' level (memberLines (level + 1) members)

def itemLines (level : Nat) : List JsonValue → List Text
  | [] => []
  | item :: rest => item.renderAt level :: itemLines level rest

def memberLines (level : Nat) : List (String × JsonValue) → List Text
  | [] => []
  | (name, value) :: rest =>
    (quote name.toList ++ ": ".toList ++ value.renderAt level) :: memberLines level rest

end

def render (value : JsonValue) : Text := value.renderAt 0

end JsonValue

end Prefill
